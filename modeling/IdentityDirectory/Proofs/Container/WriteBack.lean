import IdentityDirectory.Proofs.Container.Edits

/-!
Writing containers back. A container goes over the row that it was loaded from or, where another
version stands now, is refused. Main statements: what this means for the tenants of one kind
(`writtenBack_flush`) and for a whole commit (`committed_commit`).
-/

namespace IdentityDirectory

namespace Coordinator

variable {k : ContainerKind} {tenant : String}

def pending? (c : Coordinator (Container k)) (tenant : String) : Option (Loaded (Container k)) :=
  if tenant ∈ c.deleted then none else c.loaded.get? tenant

theorem mem_pendingWrites_iff {c : Coordinator (Container k)} :
    tenant ∈ c.pendingWrites ↔ tenant ∈ c.changed.toList ∧ ∃ x, c.pending? tenant = some x := by
  rw [pendingWrites, List.mem_filter, pending?]
  apply and_congr_right
  intro hchanged
  rw [Bool.and_eq_true, decide_eq_true_eq, decide_eq_true_eq, StringMap.mem_iff (m := c.loaded)]
  by_cases hdeleted : tenant ∈ c.deleted
  · simp [hdeleted]
  · simp [hdeleted, Option.isSome_iff_exists]

section Outcome

variable (pending : String → Option (Loaded (Container k)))

def Replaced (s s' : RowStore) (tenant : String) : Prop :=
  ∃ x, pending tenant = some x ∧ x.Fits (s.containerRow k tenant) ∧
    s'.containerRow k tenant = some (x.rowOver (s.containerRow k tenant))

def Blocked (s : RowStore) (tenant : String) : Prop :=
  ∃ x, pending tenant = some x ∧ ¬ x.Fits (s.containerRow k tenant)

structure WrittenBack (tenants : List String) (s s' : RowStore)
    (result : Except StoreError Unit) : Prop where
  lasting : ∀ j, s.Lasting j → s'.Lasting j
  others : ∀ t, t ≠ k.table → s'.table t = s.table t
  rows : ∀ tenant, s'.containerRow k tenant = s.containerRow k tenant ∨
    tenant ∈ tenants ∧ Replaced pending s s' tenant
  complete : result = .ok () → ∀ tenant ∈ tenants, (∃ x, pending tenant = some x) →
    Replaced pending s s' tenant
  refused : ∀ e, result = .error e →
    ∃ tenant ∈ tenants, Blocked pending s tenant ∧ e = .concurrentModification k tenant

variable {pending} {tenants : List String} {s s' : RowStore} {result : Except StoreError Unit}

theorem WrittenBack.nil (s : RowStore) : WrittenBack pending [] s s (.ok ()) where
  lasting _ h := h
  others _ _ := rfl
  rows _ := .inl rfl
  complete _ _ hmem := absurd hmem List.not_mem_nil
  refused _ he := by cases he

theorem WrittenBack.skip (h : WrittenBack pending tenants s s' result)
    (hnone : pending tenant = none) : WrittenBack pending (tenant :: tenants) s s' result where
  lasting := h.lasting
  others := h.others
  rows tenant' := (h.rows tenant').imp_right fun hr => ⟨List.mem_cons_of_mem _ hr.1, hr.2⟩
  complete hok tenant' hmem := by
    rintro ⟨x, hx⟩
    rcases List.mem_cons.mp hmem with rfl | hmem
    · rw [hnone] at hx
      cases hx
    · exact h.complete hok tenant' hmem ⟨x, hx⟩
  refused e he := by
    obtain ⟨tenant', hmem, hblocked⟩ := h.refused e he
    exact ⟨tenant', List.mem_cons_of_mem _ hmem, hblocked⟩

theorem WrittenBack.stop (tenants : List String) (hblocked : Blocked pending s tenant) :
    WrittenBack pending (tenant :: tenants) s s
      (.error (.concurrentModification k tenant)) where
  lasting _ h := h
  others _ _ := rfl
  rows _ := .inl rfl
  complete hok := by cases hok
  refused e he := by
    obtain rfl := Except.error.inj he
    exact ⟨tenant, List.mem_cons_self, hblocked, rfl⟩

theorem WrittenBack.cons {pending' : String → Option (Loaded (Container k))}
    {x : Loaded (Container k)} (hx : pending tenant = some x)
    (hfits : x.Fits (s.containerRow k tenant)) (hnotMem : tenant ∉ tenants)
    (hlater : ∀ tenant', tenant' ≠ tenant → pending' tenant' = pending tenant')
    (h : WrittenBack pending' tenants (s.writeContainer tenant x) s' result) :
    WrittenBack pending (tenant :: tenants) s s' result := by
  have hne : ∀ tenant' ∈ tenants, tenant' ≠ tenant := fun tenant' hmem heq =>
    hnotMem (heq ▸ hmem)
  have hrow : ∀ tenant', tenant' ≠ tenant →
      (s.writeContainer tenant x).containerRow k tenant' = s.containerRow k tenant' := by
    intro tenant' hne
    rw [RowStore.containerRow_writeContainer, if_neg hne]
  have hfirst : Replaced pending s s' tenant := by
    refine ⟨x, hx, hfits, ?_⟩
    rcases h.rows tenant with hsame | ⟨hmem, -⟩
    · rw [hsame, RowStore.containerRow_writeContainer, if_pos rfl]
    · exact absurd hmem hnotMem
  -- The other tenants find their rows and their containers as they were.
  have hreplaced : ∀ tenant' ∈ tenants,
      Replaced pending' (s.writeContainer tenant x) s' tenant' →
      Replaced pending s s' tenant' := by
    rintro tenant' hmem ⟨y, hy, hyfits, hyrow⟩
    rw [hlater tenant' (hne tenant' hmem)] at hy
    rw [hrow tenant' (hne tenant' hmem)] at hyfits hyrow
    exact ⟨y, hy, hyfits, hyrow⟩
  constructor
  · intro j hj
    exact h.lasting j (hj.writeContainer x)
  · intro t ht
    rw [h.others t ht, RowStore.table_writeContainer ht]
  · intro tenant'
    by_cases heq : tenant' = tenant
    · exact .inr ⟨heq ▸ List.mem_cons_self, heq ▸ hfirst⟩
    · rcases h.rows tenant' with hsame | ⟨hmem, hr⟩
      · exact .inl (hsame.trans (hrow tenant' heq))
      · exact .inr ⟨List.mem_cons_of_mem _ hmem, hreplaced tenant' hmem hr⟩
  · intro hok tenant' hmem hpending
    rcases List.mem_cons.mp hmem with rfl | hmem
    · exact hfirst
    · rw [← hlater tenant' (hne tenant' hmem)] at hpending
      exact hreplaced tenant' hmem (h.complete hok tenant' hmem hpending)
  · intro e he
    obtain ⟨tenant', hmem, ⟨y, hy, hyfits⟩, rfl⟩ := h.refused e he
    rw [hlater tenant' (hne tenant' hmem)] at hy
    rw [hrow tenant' (hne tenant' hmem)] at hyfits
    exact ⟨tenant', List.mem_cons_of_mem _ hmem, ⟨y, hy, hyfits⟩, rfl⟩

end Outcome

variable {d : Desk (Coordinator (Container k))} {x : Loaded (Container k)}

theorem putIfVersion_eq {s : RowStore} (h : s.Lasting k) (tenant : String)
    (x : Loaded (Container k)) :
    Update.putIfVersion (Aggregate.table (Container k)) (key tenant) x.value x.version s =
      if x.Fits (s.containerRow k tenant) then
        (.ok (.applied (x.rowOver (s.containerRow k tenant)).version), s.writeContainer tenant x)
      else (.ok (.rejected ((s.containerRow k tenant).map (·.version))), s) := by
  have hrows := RowStore.putIfVersion_eq (key tenant) (Storable.payload x.value) none h.readable
    x.version
  rw [h.live_eq, RowStore.successor_eq_rowOver] at hrows
  have hiff : (s.rowAt k.table (key tenant).encode).map (·.version) = x.version ↔
      x.Fits (s.containerRow k tenant) := eq_comm
  split
  · next hfits =>
    rw [if_pos (hiff.mpr hfits)] at hrows
    exact Update.ofRows_of_ok hrows
  · next hfits =>
    rw [if_neg (mt hiff.mp hfits)] at hrows
    exact Update.ofRows_of_ok hrows

theorem putBack_of_fits {s : RowStore} (h : s.Lasting k)
    (hfits : x.Fits (s.containerRow k tenant)) :
    ∃ version, putBack true tenant x s = (.ok version, s.writeContainer tenant x) := by
  have hput := putIfVersion_eq h tenant x
  rw [if_pos hfits] at hput
  rw [putBack, if_pos rfl, Update.bind_of_ok hput]
  exact ⟨_, rfl⟩

theorem putBack_of_not_fits {s : RowStore} (h : s.Lasting k)
    (hfits : ¬ x.Fits (s.containerRow k tenant)) :
    putBack true tenant x s = (.error (.concurrentModification k tenant), s) := by
  have hput := putIfVersion_eq h tenant x
  rw [if_neg hfits] at hput
  rw [putBack, if_pos rfl, Update.bind_of_ok hput, k.kind_eq]
  rfl

theorem writeBack_of_none (h : d.held.pending? tenant = none) :
    writeBack tenant d = (.ok false, d) := by
  rw [writeBack, Work.bind_of_ok (show Work.held d = (.ok d.held, d) from rfl)]
  rw [pending?] at h
  split at h
  · next hdeleted => rw [if_pos hdeleted]; rfl
  · next hdeleted => rw [if_neg hdeleted, h]; rfl

def settle (c : Coordinator (Container k)) (tenant : String) (x : Loaded (Container k))
    (version : Nat) : Coordinator (Container k) :=
  { c with loaded := c.loaded.insert tenant { x with version := some version } }

theorem pending?_settle_of_ne {c : Coordinator (Container k)} {tenant' : String} {version : Nat}
    (h : tenant' ≠ tenant) : (c.settle tenant x version).pending? tenant' = c.pending? tenant' := by
  rw [pending?, pending?, settle, StringMap.get?_insert, if_neg h]

theorem writeBack_of_some (hpending : d.held.pending? tenant = some x) :
    (∀ version s', putBack d.held.linearizable tenant x d.rows = (.ok version, s') →
      writeBack tenant d =
        (.ok true, { d with rows := s', held := d.held.settle tenant x version })) ∧
    ∀ e s', putBack d.held.linearizable tenant x d.rows = (.error e, s') →
      writeBack tenant d = (.error e, { d with rows := s' }) := by
  rw [writeBack, Work.bind_of_ok (show Work.held d = (.ok d.held, d) from rfl)]
  rw [pending?] at hpending
  split at hpending
  · cases hpending
  next hdeleted =>
  rw [if_neg hdeleted, hpending]
  constructor
  · intro version s' hput
    have hlift : (liftM (putBack d.held.linearizable tenant x) :
        Work (Coordinator (Container k)) Nat) d = (.ok version, { d with rows := s' }) := by
      rw [Work.liftM_update_apply, hput]
    exact Work.bind_of_ok hlift _
  · intro e s' hput
    have hlift : (liftM (putBack d.held.linearizable tenant x) :
        Work (Coordinator (Container k)) Nat) d = (.error e, { d with rows := s' }) := by
      rw [Work.liftM_update_apply, hput]
    exact Work.bind_of_error hlift _

theorem countTrue_of_ok {σ α : Type} {act : α → Work σ Bool} {a : α} {l : List α} {e e' : Desk σ}
    {done : Bool} (h : act a e = (.ok done, e')) :
    (Work.countTrue act (a :: l) e).1.map (fun _ => ()) =
        (Work.countTrue act l e').1.map (fun _ => ()) ∧
      (Work.countTrue act (a :: l) e).2 = (Work.countTrue act l e').2 := by
  rw [Work.countTrue, Work.bind_of_ok h]
  cases hrest : Work.countTrue act l e' with
  | mk result e'' =>
    cases result with
    | ok n =>
      rw [Work.bind_of_ok hrest]
      exact ⟨rfl, rfl⟩
    | error err =>
      rw [Work.bind_of_error hrest]
      exact ⟨rfl, rfl⟩

theorem writtenBack_countTrue {tenants : List String} (hnodup : tenants.Nodup)
    (hlin : d.held.linearizable = true) (h : d.rows.Lasting k) :
    WrittenBack d.held.pending? tenants d.rows (Work.countTrue writeBack tenants d).2.rows
        ((Work.countTrue writeBack tenants d).1.map fun _ => ()) ∧
      (Work.countTrue writeBack tenants d).2.held.linearizable = true := by
  induction tenants generalizing d with
  | nil => exact ⟨.nil d.rows, hlin⟩
  | cons tenant tenants ih =>
    obtain ⟨hnotMem, hnodup⟩ := List.nodup_cons.mp hnodup
    cases hpending : d.held.pending? tenant with
    | none =>
      obtain ⟨hresult, hdesk⟩ := countTrue_of_ok (l := tenants) (writeBack_of_none hpending)
      obtain ⟨hrest, hflag⟩ := ih hnodup hlin h
      rw [hresult, hdesk]
      exact ⟨hrest.skip hpending, hflag⟩
    | some x =>
      by_cases hfits : x.Fits (d.rows.containerRow k tenant)
      · obtain ⟨version, hput⟩ := putBack_of_fits h hfits
        rw [← hlin] at hput
        have hwrite := (writeBack_of_some hpending).1 version _ hput
        obtain ⟨hresult, hdesk⟩ := countTrue_of_ok (l := tenants) hwrite
        obtain ⟨hrest, hflag⟩ := ih (d := { d with
          rows := d.rows.writeContainer tenant x, held := d.held.settle tenant x version })
          hnodup hlin (h.writeContainer x)
        rw [hresult, hdesk]
        refine ⟨?_, hflag⟩
        exact .cons hpending hfits hnotMem (fun _ hne => pending?_settle_of_ne hne) hrest
      · have hput := putBack_of_not_fits h hfits
        rw [← hlin] at hput
        have hwrite := (writeBack_of_some hpending).2 _ _ hput
        rw [Work.countTrue, Work.bind_of_error hwrite]
        exact ⟨.stop tenants ⟨x, hpending, hfits⟩, hlin⟩

theorem writtenBack_flush (hlin : d.held.linearizable = true) (h : d.rows.Lasting k) :
    WrittenBack d.held.pending? d.held.changed.toList d.rows (flush d).2.rows
        ((flush d).1.map fun _ => ()) ∧
      (flush d).2.held.linearizable = true := by
  have hnodup : d.held.changed.toList.Nodup := d.held.changed.entries_nodup
  exact writtenBack_countTrue (d := { d with held := { d.held with changed := ∅ } }) hnodup hlin h

end Coordinator

end IdentityDirectory
