import IdentityDirectory.Proofs.Index.Extent
import IdentityDirectory.Proofs.Registry.Backing

/-!
The rows of one record. Main statements: no row is that of two records (`OfRecord.unique`), and the
removal of a record changes no other rows (`changesOnly_erase`) and leaves none of its own to be seen
(`Backed.unseen_erase`).
-/

namespace IdentityDirectory.Registry

open RowStore (ChangesOnly)

variable {α : Type} [Storable α] {R : Registry α} {s : RowStore} {r r' id id' key : String} {t : Table}
  {N : String → Prop} {U : String → String → Prop}

def OfRecord (R : Registry α) (r id : String) (t : Table) (key : String) : Prop :=
  t = R.table ∧ key = (R.key r id).encode ∨ R.index.OfEntity r id t key

theorem OfRecord.unique (h : R.OfRecord r id t key) (h' : R.OfRecord r' id' t key) (hr : R.Scope r)
    (hid : NulFree id) (hr' : R.Scope r') (hid' : NulFree id') : r = r' ∧ id = id' := by
  have hne : ∀ {r id}, R.index.OfEntity r id R.table key → False := by
    rintro r id (⟨htable, -⟩ | ⟨htable, -⟩)
    · exact R.table_ne.1 htable
    · exact R.table_ne.2 htable
  rcases h with ⟨rfl, hkey⟩ | hindex
  · rcases h' with ⟨-, hkey'⟩ | hindex'
    · exact (R.key_inj r r' id id' hr hr').mp (hkey.symm.trans hkey')
    · exact (hne hindex').elim
  · rcases h' with ⟨rfl, -⟩ | hindex'
    · exact (hne hindex).elim
    · exact hindex.unique hindex' (R.scope_plain r hr) hid (R.scope_plain r' hr') hid'

theorem changesOnly_erase : ChangesOnly (R.OfRecord r id) s (R.erase s r id) :=
  .trans (RowStore.changesOnly_remove (.inl ⟨rfl, rfl⟩))
    (AttributeIndex.changesOnly_clearAll.widen fun _ _ => .inr)

theorem Backed.unseen_erase (h : R.Backed N (R.erase s r id)) (hkept : R.Kept U (R.erase s r id))
    (hr : R.Scope r) (hid : NulFree id) (hkey : R.OfRecord r id t key) {time : Int}
    (hle : s.now ≤ time) : (R.erase s r id).seen t key time = none := by
  have hnow : (R.erase s r id).now = s.now := changesOnly_erase.now
  have hgone : ∀ time, R.record (R.erase s r id) r id time = none := by
    intro time
    rw [record_erase hr hr, if_pos ⟨rfl, rfl⟩]
  rcases hkey with ⟨rfl, rfl⟩ | hindex
  · have hseen := h.holds.seen_eq (R.key r id) time
    rw [show (R.erase s r id).recordAt α R.table (R.key r id) time = none from hgone time] at hseen
    exact hseen
  · have hnot : ∀ name, ¬ R.Carries N (R.erase s r id) r id name := by
      rintro name ⟨-, -, hhas⟩
      rw [Has, hgone] at hhas
      cases hhas
    have hunseen := h.index.unseen hkept.regular (R.scope_plain r hr) hid
      (fun name hcarries => absurd hcarries (hnot name)) hindex
    refine Option.eq_none_iff_forall_not_mem.mpr fun payload hseen => ?_
    rw [RowStore.seen_of_le (Int.le_trans (Int.le_of_eq hnow) hle) hseen] at hunseen
    cases hunseen

end IdentityDirectory.Registry
