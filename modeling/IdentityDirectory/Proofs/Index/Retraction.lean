import IdentityDirectory.Proofs.Index.Claims
import IdentityDirectory.Proofs.Isolation.Reads

/-!
Claims that are taken back. A claim on a value that the entity does not have adds a row; once every such
row is removed again the store is what it was, with all its rows, versions and deadlines. Main
statements: `Extended.claim`, `Extended.release` and `Extended.eq`.
-/

namespace IdentityDirectory

variable {s s' : RowStore} {t : Table} {key : String}

namespace RowStore

theorem deadlines_write_of_lasting (h : ∀ row, s.rowAt t key = some row → row.expiresAt = none)
    (payload : Payload) : (s.write t key payload none).deadlines = s.deadlines := by
  rw [write]
  cases hrow : s.rowAt t key with
  | none => rfl
  | some row => simp only [replaceRow, successor, dropEntry, h row hrow, Option.map_none]

theorem deadlines_remove_of_lasting (h : ∀ row, s.rowAt t key = some row → row.expiresAt = none) :
    (s.remove t key).deadlines = s.deadlines := by
  rw [remove]
  cases hrow : s.rowAt t key with
  | none => rfl
  | some row => simp only [removeRow, dropEntry, h row hrow]

theorem get?_table_write (payload : Payload) (lifetime : Option Int) (key' : String) :
    ((s.write t key payload lifetime).table t).get? key' =
      if key' = key then some (.row (s.successor (s.rowAt t key) payload lifetime))
      else (s.table t).get? key' := by
  rw [write, table_replaceRow, if_pos rfl, StringMap.get?_insert]

theorem get?_table_remove (h : s.ReadableAt t key) (key' : String) :
    ((s.remove t key).table t).get? key' =
      if key' = key then none else (s.table t).get? key' := by
  rw [remove]
  split
  · next hnone =>
    split
    · next hkey =>
      subst hkey
      rw [rowAt] at hnone
      cases hcell : (s.table t).get? key' with
      | none => rfl
      | some cell =>
        cases cell with
        | row row =>
          rw [hcell] at hnone
          cases hnone
        | unreadable => exact absurd hcell h
    · rfl
  · rw [table_removeRow, if_pos rfl, StringMap.get?_erase]

end RowStore

namespace AttributeIndex

variable {ix : AttributeIndex} {keys : List String} {scope entity name value : String}

theorem absent_of_not_lists (hsound : ix.Sound s) (hlasting : RowStore.LastingIn [ix.reverse] s)
    (h : ¬ ix.Lists s scope name value entity s.now) :
    (s.table ix.reverse).get? (reverseKey scope entity name value).encode = none := by
  cases hcell : (s.table ix.reverse).get? (reverseKey scope entity name value).encode with
  | none => rfl
  | some cell =>
    cases cell with
    | unreadable => exact absurd hcell (hsound.reverse _)
    | row row =>
      refine absurd (RowStore.isSome_seen_iff.mpr ⟨row, ?_, ?_⟩) h
      · rw [RowStore.rowAt, hcell]
        rfl
      · exact RowStore.isLive_of_lasting (hlasting _ List.mem_cons_self _ row hcell) s.now

structure Extended (ix : AttributeIndex) (s s' : RowStore) (keys : List String) : Prop where
  now : s'.now = s.now
  deadlines : s'.deadlines = s.deadlines
  table : ∀ t, t ≠ ix.reverse → s'.table t = s.table t
  vacant : ∀ key ∈ keys, (s.table ix.reverse).get? key = none
  kept : ∀ key, key ∉ keys → (s'.table ix.reverse).get? key = (s.table ix.reverse).get? key
  lasting : ∀ key ∈ keys, ∀ cell, (s'.table ix.reverse).get? key = some cell →
    ∃ row, cell = .row row ∧ row.expiresAt = none

theorem Extended.refl (ix : AttributeIndex) (s : RowStore) : ix.Extended s s [] :=
  ⟨rfl, rfl, fun _ _ => rfl, nofun, fun _ _ => rfl, nofun⟩

theorem Extended.eq (h : ix.Extended s s' []) : s' = s := by
  refine RowStore.ext_table (fun t => ?_) h.deadlines h.now
  by_cases ht : t = ix.reverse
  · subst ht
    exact StringMap.ext_get? fun key => h.kept key List.not_mem_nil
  · exact h.table t ht

theorem Extended.cell (h : ix.Extended s s' keys) (hvacant : (s.table ix.reverse).get? key = none) :
    ∀ cell, (s'.table ix.reverse).get? key = some cell →
      ∃ row, cell = .row row ∧ row.expiresAt = none := by
  intro cell hcell
  by_cases hmem : key ∈ keys
  · exact h.lasting key hmem cell hcell
  · rw [h.kept key hmem, hvacant] at hcell
    cases hcell

theorem Extended.expiresAt (h : ix.Extended s s' keys)
    (hvacant : (s.table ix.reverse).get? key = none) :
    ∀ row, s'.rowAt ix.reverse key = some row → row.expiresAt = none := by
  intro row hrow
  rw [RowStore.rowAt] at hrow
  obtain ⟨cell, hcell, hread⟩ := Option.bind_eq_some_iff.mp hrow
  obtain ⟨row', rfl, hnone⟩ := h.cell hvacant cell hcell
  obtain rfl := Option.some.inj hread
  exact hnone

theorem Extended.claim (h : ix.Extended s s' keys)
    (hvacant : (s.table ix.reverse).get? (reverseKey scope entity name value).encode = none) :
    ix.Extended s (ix.claim s' scope entity name value)
      (keys ++ [(reverseKey scope entity name value).encode]) := by
  constructor
  · exact h.now
  · exact (RowStore.deadlines_write_of_lasting (h.expiresAt hvacant) _).trans h.deadlines
  · exact fun t ht => (table_claim_of_ne ht).trans (h.table t ht)
  · intro key hkey
    rcases List.mem_append.mp hkey with hold | hnew
    · exact h.vacant key hold
    · exact List.mem_singleton.mp hnew ▸ hvacant
  · intro key hkey
    rw [List.mem_append, not_or, List.mem_singleton] at hkey
    rw [AttributeIndex.claim, RowStore.get?_table_write, if_neg hkey.2, h.kept key hkey.1]
  · intro key hkey cell hcell
    rw [AttributeIndex.claim, RowStore.get?_table_write] at hcell
    split at hcell
    · exact ⟨_, (Option.some.inj hcell).symm, rfl⟩
    · next hne =>
      have hold : key ∈ keys := (List.mem_append.mp hkey).resolve_right fun hnew =>
        hne (List.mem_singleton.mp hnew)
      exact h.lasting key hold cell hcell

theorem Extended.release
    (h : ix.Extended s s' ((reverseKey scope entity name value).encode :: keys)) :
    ix.Extended s (ix.release s' scope entity name value) keys := by
  have hvacant := h.vacant _ List.mem_cons_self
  have hreadable : s'.ReadableAt ix.reverse (reverseKey scope entity name value).encode := by
    intro hcell
    obtain ⟨row, hrow, -⟩ := h.cell hvacant _ hcell
    cases hrow
  have hcells := RowStore.get?_table_remove hreadable
  rw [← AttributeIndex.release] at hcells
  constructor
  · exact now_release.trans h.now
  · exact (RowStore.deadlines_remove_of_lasting (h.expiresAt hvacant)).trans h.deadlines
  · exact fun t ht => (table_release_of_ne ht).trans (h.table t ht)
  · exact fun key hkey => h.vacant key (List.mem_cons_of_mem _ hkey)
  · intro key hkey
    rw [hcells]
    split
    · next heq => exact heq ▸ hvacant.symm
    · next hne => exact h.kept key fun hmem => hkey ((List.mem_cons.mp hmem).resolve_left hne)
  · intro key hkey cell hcell
    rw [hcells] at hcell
    split at hcell
    · cases hcell
    · exact h.lasting key (List.mem_cons_of_mem _ hkey) cell hcell

end AttributeIndex

end IdentityDirectory
