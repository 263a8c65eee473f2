import IdentityDirectory.Proofs.Index.Entity

/-!
Lookups by value, the tables that an index stays within, and the names of the attributes that occur.
Main statements: `mem_holders_iff`, `within_setEach`, `within_clearAll` and `Named.set`.
-/

namespace IdentityDirectory.AttributeIndex

variable {ix ix' : AttributeIndex} {s s' s'' : RowStore} {scope scope' entity entity' : String}
  {name name' value : String} {values : List String} {lifetime : Option Int} {time : Int}
  {l : List (String × List String)} {claimed : String → String → Prop}

def holders (ix : AttributeIndex) (s : RowStore) (scope name value : String) : List String :=
  (s.scan ix.reverse (valuePartition scope name value)).map (·.1.clustering)

theorem findBy_eq (h : ix.Sound s) (scope name value : String) :
    ix.findBy scope name value s = .ok (ix.holders s scope name value) := by
  rw [findBy, Query.bind_of_ok (Query.scanPartition_eq h.reverse _)]
  rfl

theorem mem_holders_iff (hs : Plain scope) (hn : Plain name) (hv : NulFree value) :
    entity ∈ ix.holders s scope name value ↔ ix.Lists s scope name value entity s.now := by
  have hp := valuePartition_nulFree hs hn hv
  rw [holders, List.mem_map, Lists, RowStore.isSome_seen_iff]
  constructor
  · rintro ⟨⟨⟨p, c⟩, row⟩, hmem, rfl⟩
    obtain ⟨hk, hrow, hlive⟩ := (RowStore.mem_scan_iff hp).mp hmem
    obtain rfl : p = _ := hk
    exact ⟨row, hrow, hlive⟩
  · rintro ⟨row, hrow, hlive⟩
    exact ⟨(reverseKey scope entity name value, row),
      (RowStore.mem_scan_iff hp).mpr ⟨rfl, hrow, hlive⟩, rfl⟩

theorem holders_nodup (hs : Plain scope) (hn : Plain name) (hv : NulFree value) :
    (ix.holders s scope name value).Nodup :=
  RowStore.scan_clustering_nodup (valuePartition_nulFree hs hn hv)

theorem tables_ne (h : ix ≠ ix') : ix'.forward ≠ ix.forward ∧ ix'.forward ≠ ix.reverse ∧
    ix'.reverse ≠ ix.forward ∧ ix'.reverse ≠ ix.reverse := by
  cases ix <;> cases ix' <;> first | exact absurd rfl h | decide

structure Within (ix : AttributeIndex) (s s' : RowStore) : Prop where
  now : s'.now = s.now
  table : ∀ t, t ≠ ix.forward → t ≠ ix.reverse → s'.table t = s.table t

theorem Within.refl (ix : AttributeIndex) (s : RowStore) : ix.Within s s :=
  ⟨rfl, fun _ _ _ => rfl⟩

theorem Within.trans (h : ix.Within s s') (h' : ix.Within s' s'') : ix.Within s s'' :=
  ⟨h'.now.trans h.now, fun t hf hr => (h'.table t hf hr).trans (h.table t hf hr)⟩

theorem within_remove {t : Table} (ht : t = ix.forward ∨ t = ix.reverse) (key : String) :
    ix.Within s (s.remove t key) := by
  refine ⟨s.now_remove t key, fun u hf hr => s.table_remove_of_ne ?_ key⟩
  rcases ht with rfl | rfl
  · exact hf
  · exact hr

theorem within_write {t : Table} (ht : t = ix.forward ∨ t = ix.reverse) (key : String)
    (payload : Payload) : ix.Within s (s.write t key payload lifetime) := by
  refine ⟨s.now_write t key payload lifetime, fun u hf hr => s.table_write_of_ne ?_ key payload _⟩
  rcases ht with rfl | rfl
  · exact hf
  · exact hr

theorem within_unlist : ix.Within s (ix.unlist s scope entity name values) :=
  ⟨now_unlist, fun _ _ hr => table_unlist_of_ne hr⟩

theorem within_clear : ix.Within s (ix.clear s scope entity name) :=
  (within_remove (.inl rfl) _).trans within_unlist

theorem within_set : ix.Within s (ix.set s scope entity name values lifetime) := by
  rw [set]
  split
  · exact within_clear
  · exact ((within_write (.inl rfl) _ _).trans within_unlist).trans
      ⟨now_list, fun _ _ hr => table_list_of_ne hr⟩

theorem within_setEach : ix.Within s (ix.setEach s scope entity l lifetime) := by
  induction l generalizing s with
  | nil => exact .refl ix s
  | cons e l ih => exact within_set.trans ih

theorem sound_setEach (h : ix.Sound s) : ix.Sound (ix.setEach s scope entity l lifetime) := by
  induction l generalizing s with
  | nil => exact h
  | cons e l ih => exact ih (sound_set h)

theorem within_clearAll : ix.Within s (ix.clearAll s scope entity) := by
  refine ⟨now_clearAll, fun t hf hr => ?_⟩
  rw [clearAll, RowStore.table_removePartition_of_ne hf, table_foldl_unlist_of_ne hr]

theorem valuesAt_of_within (hne : ix ≠ ix') (hw : ix.Within s s') :
    ix'.valuesAt s' scope entity name time = ix'.valuesAt s scope entity name time :=
  have ⟨hff, hfr, _, _⟩ := tables_ne hne
  valuesAt_congr (hw.table _ hff hfr)

def Named (ix : AttributeIndex) (s : RowStore) (scope : String) (P : String → Prop) : Prop :=
  ∀ entity name, NulFree entity →
    (s.recordAt (List String) ix.forward (forwardKey scope entity name) s.now).isSome → P name

variable {P : String → Prop}

theorem Named.mem_attributesAt (h : ix.Named s scope P) (hsound : ix.Sound s) (hs : Plain scope)
    {e : String × List String} (hmem : e ∈ (ix.attributesAt s scope entity).entries) : P e.1 := by
  obtain ⟨entity', he', -, hsome⟩ := exists_of_mem_attributesAt hsound hs hmem
  exact h entity' e.1 he' hsome

theorem named_empty (ix : AttributeIndex) (now : Int) (scope : String) (P : String → Prop) :
    ix.Named (.empty now) scope P := by
  intro entity name _ hsome
  rw [RowStore.recordAt, RowStore.seen_empty] at hsome
  cases hsome

theorem Named.congr (h : ix.Named s scope P) (hle : s.now ≤ s'.now)
    (hr : ∀ key : RowKey, (s'.recordAt (List String) ix.forward key s'.now).isSome →
      (s.recordAt (List String) ix.forward key s'.now).isSome) : ix.Named s' scope P := by
  intro entity name he hsome
  obtain ⟨vs, hvs⟩ := Option.isSome_iff_exists.mp (hr _ hsome)
  exact h entity name he (Option.isSome_iff_exists.mpr ⟨vs, RowStore.recordAt_of_le hle hvs⟩)

theorem Named.congr_table (h : ix.Named s scope P) (hf : s'.table ix.forward = s.table ix.forward)
    (hn : s'.now = s.now) : ix.Named s' scope P := by
  refine h.congr (Int.le_of_eq hn.symm) fun key hsome => ?_
  rwa [RowStore.recordAt_congr hf] at hsome

theorem Named.later (h : ix.Named s scope P) {now : Int} (hle : s.now ≤ now) :
    ix.Named { s with now } scope P :=
  h.congr hle fun _ hsome => hsome

theorem Named.reclaimed (h : ix.Named s scope P) (hs : RowStore.Reclaimed s s') :
    ix.Named s' scope P := by
  refine h.congr (Int.le_of_eq hs.now.symm) fun key hsome => ?_
  rwa [hs.recordAt_eq (Int.le_of_eq hs.now.symm)] at hsome

theorem Named.unlist (h : ix.Named s scope P) :
    ix.Named (ix.unlist s scope' entity name values) scope P :=
  h.congr_table (table_unlist_of_ne ix.forward_ne_reverse) now_unlist

theorem Named.removeForward (h : ix.Named s scope P) (key : RowKey) :
    ix.Named (s.remove ix.forward key.encode) scope P := by
  refine h.congr (Int.le_of_eq (s.now_remove _ _).symm) fun key' hsome => ?_
  rw [RowStore.recordAt_remove] at hsome
  split at hsome
  · cases hsome
  · exact hsome

theorem Named.clear (h : ix.Named s scope P) :
    ix.Named (ix.clear s scope' entity name) scope P :=
  (h.removeForward _).unlist

theorem Named.writeForward (h : ix.Named s scope P) (hs : Plain scope) (hs' : Plain scope')
    (he' : NulFree entity') (hp : scope' = scope → P name') :
    ix.Named (ix.writeForward s scope' entity' name' values lifetime) scope P := by
  intro entity name he hsome
  rw [AttributeIndex.writeForward, RowStore.recordAt_write, RowStore.now_write] at hsome
  split at hsome
  · next heq =>
    obtain ⟨rfl, -, rfl⟩ := (forwardKey_inj hs he hs' he').mp heq.2
    exact hp rfl
  · exact h entity name he hsome

theorem Named.set (h : ix.Named s scope P) (hs : Plain scope) (hs' : Plain scope')
    (he' : NulFree entity') (hp : scope' = scope → P name') :
    ix.Named (ix.set s scope' entity' name' values lifetime) scope P := by
  rw [AttributeIndex.set]
  split
  · exact h.clear
  · exact (h.writeForward hs hs' he' hp).unlist.congr_table
      (table_list_of_ne ix.forward_ne_reverse) now_list

theorem Named.clearAll (h : ix.Named s scope P) :
    ix.Named (ix.clearAll s scope' entity) scope P := by
  refine h.congr (Int.le_of_eq now_clearAll.symm) fun key hsome => ?_
  rw [recordAt_clearAll] at hsome
  split at hsome
  · cases hsome
  · exact hsome

end IdentityDirectory.AttributeIndex
