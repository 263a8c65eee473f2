import IdentityDirectory.Proofs.Container.Removal

/-!
What a commit makes of each container, whether units of work check versions or not. Main statement:
`settled_commit`.
-/

namespace IdentityDirectory

namespace RowStore

variable {s s' : RowStore} {k : ContainerKind} {tenant : String}

structure Stocked (s : RowStore) : Prop where
  lasting : ∀ k, s.Lasting k
  holds : ∀ k, s.Holds (Container k) k.table

theorem stocked_empty (now : Int) : (empty now).Stocked where
  lasting k := lasting_empty now k
  holds k := holds_empty now k.table

theorem Stocked.of_tables (h : s.Stocked)
    (htable : ∀ k : ContainerKind, s'.table k.table = s.table k.table) : s'.Stocked where
  lasting k := (h.lasting k).of_table (htable k)
  holds k := holds_congr (htable k) (h.holds k)

theorem Stocked.writeContainer (h : s.Stocked) (x : Loaded (Container k)) :
    (s.writeContainer tenant x).Stocked where
  lasting j := (h.lasting j).writeContainer x
  holds j := by
    by_cases hj : j = k
    · subst hj
      exact (h.holds j).write _ _ _
    · exact holds_congr (table_writeContainer (ContainerKind.table_ne hj) x) (h.holds j)

theorem Stocked.remove (h : s.Stocked) (t : Table) (key : String) : (s.remove t key).Stocked where
  lasting k := (h.lasting k).remove t key
  holds k := (h.holds k).remove t key

theorem Stocked.sweep (h : s.Stocked) : s.sweep.2.Stocked where
  lasting k := (h.lasting k).sweep
  holds k := (h.holds k).reclaimed s.reclaimed_sweep

end RowStore

def Settled {k : ContainerKind} {α : Type} (due : Option (Loaded (Container k)))
    (row row' : Option Row) (result : Except StoreError α) : Prop :=
  row' = row ∧ (due = none ∨ ∃ e, result = .error e) ∨
    ∃ x, due = some x ∧ row' = some (x.rowOver row)

section Settled

variable {k : ContainerKind} {α : Type} {due : Option (Loaded (Container k))}
  {row row' row'' : Option Row}

theorem settled_none (result : Except StoreError α) :
    Settled (none : Option (Loaded (Container k))) row row result := .inl ⟨rfl, .inl rfl⟩

theorem Settled.same {result : Except StoreError α}
    (h : Settled (none : Option (Loaded (Container k))) row row' result) : row' = row := by
  rcases h with ⟨hrow, -⟩ | ⟨x, hx, -⟩
  · exact hrow
  · cases hx

theorem Settled.of_ok {a : α} (h : Settled due row row' (.ok a : Except StoreError α)) :
    row' = (due.map (·.rowOver row)).or row := by
  rcases h with ⟨hrow, rfl | ⟨e, he⟩⟩ | ⟨x, rfl, hrow⟩
  · exact hrow
  · cases he
  · exact hrow

theorem Settled.done {β : Type} {a : α} {result : Except StoreError β}
    (h : Settled due row row' (.ok a : Except StoreError α)) : Settled due row row' result := by
  rcases h with ⟨hrow, hnone | ⟨e, he⟩⟩ | hwritten
  · exact .inl ⟨hrow, .inl hnone⟩
  · cases he
  · exact .inr hwritten

end Settled

namespace Coordinator

variable {k : ContainerKind} {tenant : String} {d : Desk (Coordinator (Container k))}

theorem putBack_cases {s : RowStore} (h : s.Lasting k) (linearizable : Bool) (tenant : String)
    (x : Loaded (Container k)) :
    (∃ version, putBack linearizable tenant x s = (.ok version, s.writeContainer tenant x)) ∨
      ∃ e, putBack linearizable tenant x s = (.error e, s) := by
  cases linearizable with
  | true =>
    by_cases hfits : x.Fits (s.containerRow k tenant)
    · exact .inl (putBack_of_fits h hfits)
    · exact .inr ⟨_, putBack_of_not_fits h hfits⟩
  | false => exact .inl ⟨_, Update.put_eq (key tenant) h.readable x.value none⟩

structure Flushed (due : String → Option (Loaded (Container k))) (s s' : RowStore) {α : Type}
    (result : Except StoreError α) : Prop where
  stocked : s'.Stocked
  others : ∀ t, t ≠ k.table → s'.table t = s.table t
  settled : ∀ tenant, Settled (due tenant) (s.containerRow k tenant) (s'.containerRow k tenant) result

section Flushed

variable {due due' : String → Option (Loaded (Container k))} {s s' : RowStore} {α : Type}
  {result : Except StoreError α}

theorem Flushed.refl (h : s.Stocked) (hdone : (∀ tenant, due tenant = none) ∨ ∃ e, result = .error e) :
    Flushed due s s result where
  stocked := h
  others _ _ := rfl
  settled tenant := .inl ⟨rfl, hdone.imp_left fun hnone => hnone tenant⟩

theorem Flushed.cons {x : Loaded (Container k)} (hx : due tenant = some x)
    (hdone : due' tenant = none) (hlater : ∀ tenant', tenant' ≠ tenant → due' tenant' = due tenant')
    (h : Flushed due' (s.writeContainer tenant x) s' result) : Flushed due s s' result where
  stocked := h.stocked
  others t ht := (h.others t ht).trans (RowStore.table_writeContainer ht x)
  settled tenant' := by
    have hsettled := h.settled tenant'
    rw [RowStore.containerRow_writeContainer] at hsettled
    by_cases heq : tenant' = tenant
    · -- Nothing is due for the tenant any more, so the row stays as it has just been written.
      subst heq
      rw [if_pos rfl, hdone] at hsettled
      rcases hsettled with ⟨hrow, -⟩ | ⟨y, hy, -⟩
      · exact .inr ⟨x, hx, hrow⟩
      · cases hy
    · rw [if_neg heq, hlater tenant' heq] at hsettled
      exact hsettled

end Flushed

theorem flushed_countTrue {tenants : List String} (hnodup : tenants.Nodup) (h : d.rows.Stocked) :
    Flushed (fun tenant => if tenant ∈ tenants then d.held.pending? tenant else none) d.rows
      (Work.countTrue writeBack tenants d).2.rows
      ((Work.countTrue writeBack tenants d).1.map fun _ => ()) := by
  induction tenants generalizing d with
  | nil => exact .refl h (.inl fun _ => rfl)
  | cons tenant tenants ih =>
    obtain ⟨hnotMem, hnodup⟩ := List.nodup_cons.mp hnodup
    cases hpending : d.held.pending? tenant with
    | none =>
      obtain ⟨hresult, hdesk⟩ := countTrue_of_ok (l := tenants) (writeBack_of_none hpending)
      have hsame : (fun t => if t ∈ tenant :: tenants then d.held.pending? t else none) =
          fun t => if t ∈ tenants then d.held.pending? t else none := by
        funext t
        by_cases ht : t = tenant
        · subst ht
          rw [if_pos List.mem_cons_self, if_neg hnotMem, hpending]
        · simp only [List.mem_cons, ht, false_or]
      rw [hresult, hdesk, hsame]
      exact ih hnodup h
    | some x =>
      rcases putBack_cases (h.lasting k) d.held.linearizable tenant x with
        ⟨version, hput⟩ | ⟨e, hput⟩
      · have hwrite := (writeBack_of_some hpending).1 version _ hput
        obtain ⟨hresult, hdesk⟩ := countTrue_of_ok (l := tenants) hwrite
        have hrest := ih (d := { d with
          rows := d.rows.writeContainer tenant x, held := d.held.settle tenant x version })
          hnodup (h.writeContainer x)
        rw [hresult, hdesk]
        refine hrest.cons ?_ ?_ ?_
        · rw [if_pos List.mem_cons_self, hpending]
        · rw [if_neg hnotMem]
        · intro t ht
          simp only [List.mem_cons, ht, false_or, pending?_settle_of_ne ht]
      · have hwrite := (writeBack_of_some hpending).2 e _ hput
        rw [Work.countTrue, Work.bind_of_error hwrite]
        exact .refl h (.inr ⟨e, rfl⟩)

def due? (c : Coordinator (Container k)) (tenant : String) : Option (Loaded (Container k)) :=
  if tenant ∈ c.changed then c.pending? tenant else none

theorem flushed_flush (h : d.rows.Stocked) :
    Flushed d.held.due? d.rows (flush d).2.rows ((flush d).1.map fun _ => ()) := by
  have hnodup : d.held.changed.toList.Nodup := d.held.changed.entries_nodup
  have hflushed := flushed_countTrue (d := { d with held := { d.held with changed := ∅ } }) hnodup h
  have hdue : d.held.due? = fun tenant =>
      if tenant ∈ d.held.changed.toList then d.held.pending? tenant else none := by
    funext tenant
    simp only [due?, StringSet.toList, StringMap.mem_keys_iff]
  rw [hdue]
  exact hflushed

end Coordinator

namespace UnitOfWork

variable {k : ContainerKind} {d d' d'' : Desk UnitOfWork} {kinds : List ContainerKind}
  {result : Except StoreError Unit}

structure Completed (kinds : List ContainerKind) (d d' : Desk UnitOfWork)
    (result : Except StoreError Unit) : Prop where
  stocked : d'.rows.Stocked
  settled : ∀ k tenant, Settled (if k ∈ kinds then (d.held.coordinator k).due? tenant else none)
    (d.rows.containerRow k tenant) (d'.rows.containerRow k tenant) result
  closed : result = .ok () → ∀ k ∈ kinds, ∃ flag, d'.held.coordinator k = { linearizable := flag }
  untouched : ∀ k, k ∉ kinds → d'.held.coordinator k = d.held.coordinator k

theorem completed_completing (h : d.rows.Stocked) (k : ContainerKind) :
    Completed [k] d (completing (part k) d).2 (completing (part k) d).1 := by
  have hflushed := Coordinator.flushed_flush (d := { d with held := d.held.coordinator k }) h
  cases hd : Coordinator.flush { d with held := d.held.coordinator k } with
  | mk flushed e =>
    rw [hd] at hflushed
    rw [completing_eq hd]
    constructor
    · exact hflushed.stocked
    · intro j tenant
      by_cases hj : j = k
      · subst hj
        rw [if_pos (List.mem_singleton_self j)]
        exact hflushed.settled tenant
      · have htable := hflushed.others j.table (ContainerKind.table_ne hj)
        rw [if_neg (mt List.mem_singleton.mp hj), RowStore.containerRow_congr htable]
        exact settled_none _
    · intro _ j hj
      obtain rfl := List.mem_singleton.mp hj
      exact ⟨_, coordinator_set d.held e.held.closed⟩
    · intro j hj
      exact coordinator_set_of_ne (mt List.mem_singleton.mpr hj) d.held e.held.closed

theorem Completed.cons (h : Completed [k] d d' (.ok ())) (hrest : Completed kinds d' d'' result)
    (hk : k ∉ kinds) : Completed (k :: kinds) d d'' result where
  stocked := hrest.stocked
  settled j tenant := by
    have hfirst := h.settled j tenant
    have hlater := hrest.settled j tenant
    by_cases hj : j = k
    · subst hj
      rw [if_neg hk] at hlater
      rw [if_pos (List.mem_singleton_self j)] at hfirst
      rw [if_pos List.mem_cons_self, hlater.same]
      exact hfirst.done
    · rw [if_neg (mt List.mem_singleton.mp hj)] at hfirst
      rw [h.untouched j (mt List.mem_singleton.mp hj), hfirst.same] at hlater
      simp only [List.mem_cons, hj, false_or]
      exact hlater
  closed hok j hj := by
    rcases List.mem_cons.mp hj with rfl | hj
    · obtain ⟨flag, hclosed⟩ := h.closed rfl j (List.mem_singleton_self j)
      exact ⟨flag, (hrest.untouched j hk).trans hclosed⟩
    · exact hrest.closed hok j hj
  untouched j hj := by
    have hne : j ∉ [k] := fun hmem => hj (List.mem_singleton.mp hmem ▸ List.mem_cons_self)
    have hnot : j ∉ kinds := fun hmem => hj (List.mem_cons_of_mem _ hmem)
    exact (hrest.untouched j hnot).trans (h.untouched j hne)

theorem Completed.stop {e : StoreError} (h : Completed [k] d d' (.error e))
    (kinds : List ContainerKind) : Completed (k :: kinds) d d' (.error e) where
  stocked := h.stocked
  settled j tenant := by
    have hfirst := h.settled j tenant
    by_cases hj : j = k
    · subst hj
      rw [if_pos (List.mem_singleton_self j)] at hfirst
      rw [if_pos List.mem_cons_self]
      exact hfirst
    · rw [if_neg (mt List.mem_singleton.mp hj)] at hfirst
      exact .inl ⟨hfirst.same, .inr ⟨e, rfl⟩⟩
  closed hok := by cases hok
  untouched j hj :=
    h.untouched j fun hmem => hj (List.mem_singleton.mp hmem ▸ List.mem_cons_self)

theorem completed_completions (hnodup : kinds.Nodup) (h : d.rows.Stocked) :
    Completed kinds d ((kinds.forM fun k => completing (part k) : Work UnitOfWork Unit) d).2
      ((kinds.forM fun k => completing (part k) : Work UnitOfWork Unit) d).1 := by
  induction kinds generalizing d with
  | nil => exact ⟨h, fun _ _ => settled_none _, fun _ _ hk => absurd hk List.not_mem_nil, fun _ _ => rfl⟩
  | cons k kinds ih =>
    obtain ⟨hk, hnodup⟩ := List.nodup_cons.mp hnodup
    have hfirst := completed_completing h k
    rw [show (k :: kinds).forM (fun k => completing (part k)) =
      (completing (part k) >>= fun _ => kinds.forM fun k => completing (part k)) from rfl]
    cases hd : completing (part k) d with
    | mk result d' =>
      rw [hd] at hfirst
      cases result with
      | ok _ =>
        rw [Work.bind_of_ok hd]
        exact hfirst.cons (ih hnodup hfirst.stocked) hk
      | error e =>
        rw [Work.bind_of_error hd]
        exact hfirst.stop kinds

theorem settled_commit (h : d.rows.Stocked) : (commit d).2.rows.Stocked ∧
    (∀ k tenant, Settled ((d.held.coordinator k).due? tenant) (d.rows.containerRow k tenant)
      ((commit d).2.rows.containerRow k tenant) (commit d).1) ∧
    ∀ k, ∃ flag, (commit d).2.held.coordinator k = { linearizable := flag } := by
  have hcompleted : Completed allKinds d _ _ := completed_completions (by decide) h
  have hsettled := hcompleted.settled
  simp only [mem_allKinds, ↓reduceIte] at hsettled
  rcases commit_cases d with ⟨hok, heq⟩ | ⟨e, herror, heq⟩
  · rw [heq]
    exact ⟨hcompleted.stocked, hsettled, fun k => hcompleted.closed hok k (mem_allKinds k)⟩
  · obtain ⟨habort, hclosed⟩ := abort_spec
      ((allKinds.forM fun k => completing (part k) : Work UnitOfWork Unit) d).2
    rw [heq]
    rw [herror] at hsettled
    refine ⟨?_, ?_, fun k => ⟨_, hclosed k⟩⟩
    · rw [habort]
      exact hcompleted.stocked
    · rw [habort]
      exact hsettled

end UnitOfWork

end IdentityDirectory
