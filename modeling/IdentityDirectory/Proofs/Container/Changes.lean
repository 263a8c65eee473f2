import IdentityDirectory.Proofs.Container.Edits
import IdentityDirectory.Proofs.Container.Footprint
import IdentityDirectory.Proofs.Container.Prefix

/-!
A change of one container within a unit of work, whatever else is held and stored. Main statements:
what it leaves held (`update_of_basis`), what is read of a tenant (`read_result`), and what a commit
makes of the row of a container that is held (`overwritten_commit`, `written_commit`).
-/

namespace IdentityDirectory

open Coordinator (key)

variable {k : ContainerKind} {tenant : String} {x : Loaded (Container k)} {s : RowStore}

namespace Coordinator

variable {d d' : Desk (Coordinator (Container k))} {β : Type}

def basis (d : Desk (Coordinator (Container k))) (tenant : String) :
    Except StoreError (Loaded (Container k)) :=
  (d.held.loaded.get? tenant).elim (stored tenant d.rows) .ok

def changing (c : Coordinator (Container k)) (tenant : String) (x : Loaded (Container k)) :
    Coordinator (Container k) :=
  { c with loaded := c.loaded.insert tenant x, changed := c.changed.insert tenant }

theorem basis_of_held (h : d.held.loaded.get? tenant = some x) : basis d tenant = .ok x := by
  rw [basis, h]
  rfl

theorem get?_loaded_changing (c : Coordinator (Container k)) (x : Loaded (Container k))
    (tenant' : String) : (c.changing tenant x).loaded.get? tenant' =
      if tenant' = tenant then some x else c.loaded.get? tenant' :=
  StringMap.get?_insert ..

theorem mem_changed_changing (c : Coordinator (Container k)) (x : Loaded (Container k))
    {tenant' : String} :
    tenant' ∈ (c.changing tenant x).changed ↔ tenant' = tenant ∨ tenant' ∈ c.changed :=
  StringSet.mem_insert

theorem load_of_basis (h : basis d tenant = .ok x) :
    load tenant d = (.ok x, d) ∨ load tenant d =
      (.ok x, { d with held := { d.held with loaded := d.held.loaded.insert tenant x } }) := by
  rw [basis] at h
  cases hheld : d.held.loaded.get? tenant with
  | some y =>
    rw [hheld] at h
    obtain rfl := Except.ok.inj h
    exact .inl (load_of_held hheld)
  | none =>
    rw [hheld] at h
    exact .inr (load_of_stored hheld h)

theorem load_fails {e : StoreError} (h : basis d tenant = .error e) :
    load tenant d = (.error e, d) := by
  rw [basis] at h
  cases hheld : d.held.loaded.get? tenant with
  | some y =>
    rw [hheld] at h
    cases h
  | none =>
    rw [hheld] at h
    exact load_of_error hheld h

theorem read_result (d : Desk (Coordinator (Container k))) (tenant : String) (f : Container k → β) :
    (read tenant f d).1 = (basis d tenant).map fun x => f x.value := by
  cases h : basis d tenant with
  | error e =>
    rw [read, Work.bind_of_error (load_fails h)]
    rfl
  | ok x =>
    rcases load_of_basis h with hload | hload
    · rw [read, Work.bind_of_ok hload]
      rfl
    · rw [read, Work.bind_of_ok hload]
      rfl

theorem read_of_basis (h : basis d tenant = .ok x) (f : Container k → β) :
    (read tenant f d).1 = .ok (f x.value) := by
  rw [read_result, h]
  rfl

theorem update_of_basis (h : basis d tenant = .ok x) (f : Container k → β × Container k) :
    update tenant f d = (.ok (f x.value).1,
      { d with held := d.held.changing tenant { x with value := (f x.value).2 } }) := by
  have hkeep : ∀ d', load tenant d = (.ok x, d') → update tenant f d = (.ok (f x.value).1,
      { d' with held := d'.held.changing tenant { x with value := (f x.value).2 } }) := by
    intro d' hload
    rw [update, tryUpdate, Work.bind_of_ok hload]
    rfl
  rcases load_of_basis h with hload | hload
  · exact hkeep _ hload
  · have hinsert : ∀ y, (d.held.loaded.insert tenant x).insert tenant y =
        d.held.loaded.insert tenant y := by
      intro y
      apply StringMap.ext_get?
      intro other
      simp only [StringMap.get?_insert]
      split <;> rfl
    rw [hkeep _ hload, changing, changing, hinsert]

theorem update_fails {e : StoreError} (h : basis d tenant = .error e)
    (f : Container k → β × Container k) : (update tenant f d).1 = .error e := by
  rw [update, tryUpdate, Work.bind_of_error (load_fails h)]

theorem basis_congr (hheld : d'.held.loaded.get? tenant = d.held.loaded.get? tenant)
    (hnow : d'.rows.now = d.rows.now) (htable : d'.rows.table k.table = d.rows.table k.table) :
    basis d' tenant = basis d tenant := by
  have hrow : Query.row k.table (key tenant) d'.rows = Query.row k.table (key tenant) d.rows := by
    rw [Query.row, Query.ofRows, Query.ofRows,
      RowStore.get_congr hnow (congrArg (·.get? (key tenant).encode) htable)]
  have hstored : (stored tenant : Query (Loaded (Container k))) d'.rows = stored tenant d.rows :=
    Query.bind_congr hrow fun row _ => by cases row <;> rfl
  rw [basis, basis, hheld, hstored]

end Coordinator

def RowStore.Contains (s : RowStore) (k : ContainerKind) (tenant : String) (value : Container k) :
    Prop :=
  ∃ row, (s.table k.table).get? (key tenant).encode = some (.row row) ∧
    row.payload = Storable.payload value

namespace UnitOfWork

variable {d : Desk UnitOfWork} {kinds : List ContainerKind}

theorem overwritten_commit (h : (d.held.coordinator k).loaded.get? tenant = some x) :
    ((commit d).2.rows.table k.table).get? (key tenant).encode =
        (d.rows.table k.table).get? (key tenant).encode ∨
      (commit d).2.rows.Contains k tenant x.value := by
  let admits : Int → Table → String → Option Cell → Prop := fun _ t name cell =>
    t = k.table → name = (key tenant).encode →
      ∃ row, cell = some (.row row) ∧ row.payload = Storable.payload x.value
  have hputs : ∀ j, (d.held.coordinator j).Puts admits := by
    intro j tenant' x' hpending now version htable hkey
    have hj : j = k := Decidable.byContradiction fun hne => ContainerKind.table_ne hne htable
    subst hj
    obtain rfl := Coordinator.encode_key_inj hkey
    have hx : x' = x := by
      rw [Coordinator.pending?, h] at hpending
      split at hpending
      · cases hpending
      · exact (Option.some.inj hpending).symm
    exact ⟨_, rfl, congrArg (fun y => Storable.payload y.value) hx⟩
  exact ((wrote_commit hputs).cells k.table _).imp_right fun hnew => hnew rfl rfl

theorem written_completing (hreadable : d.rows.Readable k.table)
    (hdue : tenant ∈ (d.held.coordinator k).changed)
    (hx : (d.held.coordinator k).pending? tenant = some x)
    (hok : (completing (part k) d).1 = .ok ()) :
    (completing (part k) d).2.rows.Contains k tenant x.value := by
  let w : PendingWrite := ⟨k, tenant, x⟩
  have hmem : w ∈ d.held.pendingOfKind k := by
    rw [pendingOfKind_eq]
    refine List.mem_filterMap.mpr ⟨tenant, StringMap.mem_keys_iff.mpr hdue, ?_⟩
    rw [hx]
    rfl
  have hrun := completing_eq_writeEach (d := d) (k := k) fun v hv => by
    rw [pendingOfKind_eq] at hv
    obtain ⟨_, -, hpending⟩ := List.mem_filterMap.mp hv
    obtain ⟨_, -, rfl⟩ := Option.map_eq_some_iff.mp hpending
    exact hreadable _
  obtain ⟨hresult, hrows⟩ := Prod.mk.inj hrun
  have hcell := PendingWrite.writeEach_written (nodup_map_name_pendingOfKind d.held k)
    (hresult.symm.trans hok) hmem
  rw [← hrows] at hcell
  exact ⟨_, hcell, rfl⟩

theorem written_completions (hnodup : kinds.Nodup) (hk : k ∈ kinds)
    (hreadable : d.rows.Readable k.table) (hdue : tenant ∈ (d.held.coordinator k).changed)
    (hx : (d.held.coordinator k).pending? tenant = some x) :
    let completed := (kinds.forM fun k => completing (part k) : Work UnitOfWork Unit) d
    completed.1 = .ok () → completed.2.rows.Contains k tenant x.value := by
  induction kinds generalizing d with
  | nil => cases hk
  | cons j kinds ih =>
    obtain ⟨hj, hnodup⟩ := List.nodup_cons.mp hnodup
    -- Whatever is written of one kind leaves the tables of the others alone.
    have hapart : ∀ (d : Desk UnitOfWork) (i : ContainerKind), i ≠ k →
        (d.held.coordinator i).Puts fun _ t _ _ => t ≠ k.table :=
      fun _ i hi _ _ _ _ _ => ContainerKind.table_ne hi
    have hsame : ∀ {s s' : RowStore}, RowStore.Wrote (fun _ t _ _ => t ≠ k.table) s s' →
        s'.table k.table = s.table k.table := fun hwrote =>
      StringMap.ext_get? fun name => (hwrote.cells k.table name).resolve_right fun hne => hne rfl
    rw [show (j :: kinds).forM (fun k => completing (part k)) =
      (completing (part j) >>= fun _ => kinds.forM fun k => completing (part k)) from rfl]
    intro completed hok
    obtain ⟨_, d', hfirst, hrest⟩ := Work.exists_of_bind_ok hok
    have hcompleted : completed = _ := Work.bind_of_ok hfirst fun _ => _
    rw [hcompleted]
    by_cases heq : j = k
    · subst heq
      have hwritten := written_completing hreadable hdue hx (congrArg Prod.fst hfirst)
      rw [hfirst] at hwritten
      have hlater := wrote_completions (d := d') hnodup fun i hi => hapart d' i fun h => hj (h ▸ hi)
      obtain ⟨row, hcell, hpayload⟩ := hwritten
      exact ⟨row, by rw [hsame hlater, hcell], hpayload⟩
    · obtain ⟨hwrote, hothers⟩ := wrote_completing (d := d) (hapart d j heq)
      rw [hfirst] at hwrote hothers
      have hk := (List.mem_cons.mp hk).resolve_left (Ne.symm heq)
      refine ih (d := d') hnodup hk ?_ ?_ ?_ hrest
      · exact (RowStore.readable_congr (hsame hwrote)).mpr hreadable
      · rw [hothers k (Ne.symm heq)]
        exact hdue
      · rw [hothers k (Ne.symm heq)]
        exact hx

theorem written_commit (hreadable : d.rows.Readable k.table)
    (hdue : tenant ∈ (d.held.coordinator k).changed)
    (hx : (d.held.coordinator k).pending? tenant = some x) (hok : (commit d).1 = .ok ()) :
    (commit d).2.rows.Contains k tenant x.value := by
  rcases commit_cases d with ⟨hdone, heq⟩ | ⟨e, -, heq⟩
  · rw [heq]
    exact written_completions (by decide) (mem_allKinds k) hreadable hdue hx hdone
  · rw [heq] at hok
    cases hok

end UnitOfWork

end IdentityDirectory
