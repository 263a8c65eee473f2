import IdentityDirectory.Proofs.Registry.Basic

/-!
Removal of records with their index rows, and attributes of the callers' own beside the fields. Main
statements: `erase_eq` for one record, `eraseAll_eq` for those of a scope, `setOther_eq` and
`clearOther_eq`.
-/

namespace IdentityDirectory.Registry

open AttributeIndex (Apart)

variable {α : Type} [Storable α] {R : Registry α} {s s' s'' : RowStore}
  {r id name : String} {U : String → String → Prop}

def erase (R : Registry α) (s : RowStore) (r id : String) : RowStore :=
  R.index.clearAll (s.remove R.table (R.key r id).encode) r id

theorem record_erase {r' id' : String} {time : Int} (hr : R.Scope r) (hr' : R.Scope r') :
    R.record (R.erase s r id) r' id' time =
      if r' = r ∧ id' = id then none else R.record s r' id' time := by
  rw [erase, record_congr (table_of_within AttributeIndex.within_clearAll), record_remove hr hr']

theorem changed_erase (h : R.Kept U s) (hr : R.Scope r) (id : String) :
    R.Changed s (R.erase s r id) (fun r' id' => r' = r ∧ id' = id) none := by
  have hf : (s.remove R.table (R.key r id).encode).table R.index.forward =
      s.table R.index.forward := s.table_remove_of_ne (Ne.symm R.table_ne.1) _
  have hrev : (s.remove R.table (R.key r id).encode).table R.index.reverse =
      s.table R.index.reverse := s.table_remove_of_ne (Ne.symm R.table_ne.2) _
  have hvalues : ∀ r' id' name time, R.Scope r' → NulFree id' → name ∈ R.fields →
      R.index.valuesAt (R.erase s r id) r' id' name time =
        if r' = r ∧ id' = id then [] else R.index.valuesAt s r' id' name time := by
    intro r' id' name time hr' hid' hn
    rw [erase, AttributeIndex.valuesAt_clearAll_of_nulFree (R.scope_plain r hr)
      (R.scope_plain r' hr') hid' (R.fields_plain name hn).1, AttributeIndex.valuesAt_congr hf]
  constructor
  · rw [erase, AttributeIndex.now_clearAll, RowStore.now_remove]
  · exact RowStore.holds_congr (table_of_within AttributeIndex.within_clearAll)
      (h.holds.remove _ _)
  · exact keyed_congr (table_of_within AttributeIndex.within_clearAll) (h.keyed.remove _ _)
  · apply AttributeIndex.Regular.clearAll R.fields_plain R.distinguishes (R.scope_plain r hr)
    exact h.regular.congr_tables hf hrev (s.now_remove _ _)
  · intro r' id' time hr' hhit
    rw [record_erase hr hr', if_pos hhit]
  · intro r' id' time hr' hmiss
    rw [record_erase hr hr', if_neg hmiss]
  · intro r' id' name time hr' hid' hn _ hhit
    rw [hvalues r' id' name time hr' hid' hn, if_pos hhit]
    rfl
  · intro r' id' name time hr' hid' hn _ hmiss
    rw [hvalues r' id' name time hr' hid' hn, if_neg hmiss]

theorem Kept.erase (h : R.Kept U s) (hr : R.Scope r) (id : String) :
    R.Moved U s (R.erase s r id) where
  kept := h.change (changed_erase h hr id) (fun _ ha => by cases ha) fun _ ha => by cases ha
  confined := (confined_remove R s _).trans (confined_of_within AttributeIndex.within_clearAll)

theorem erase_eq_isSome (hs : s.Holds α R.table) (hi : R.index.Sound s) (r id : String) :
    (do
      let removed ← Update.delete R.table (R.key r id)
      let _ ← R.index.removeAttributesOf r id
      return removed : Update Bool) s = (.ok (R.record s r id s.now).isSome, R.erase s r id) := by
  have hsound : R.index.Sound (s.remove R.table (R.key r id).encode) :=
    hi.congr (s.table_remove_of_ne (Ne.symm R.table_ne.1) _)
      (s.table_remove_of_ne (Ne.symm R.table_ne.2) _)
  have hseen : (s.seen R.table (R.key r id).encode s.now).isSome = (R.record s r id s.now).isSome := by
    rw [hs.seen_eq, Option.isSome_map]
    rfl
  rw [Update.bind_of_ok (Update.delete_eq _ hs.readable),
    Update.bind_of_ok (AttributeIndex.removeAttributesOf_eq hsound _ _), hseen]
  rfl

theorem erase_eq (hs : s.Holds α R.table) (hi : R.index.Sound s) (r id : String) : ∃ removed,
    (do
      let removed ← Update.delete R.table (R.key r id)
      let _ ← R.index.removeAttributesOf r id
      return removed : Update Bool) s = (.ok removed, R.erase s r id) :=
  ⟨_, erase_eq_isSome hs hi r id⟩

def eraseAll (R : Registry α) (s : RowStore) (r : String) : RowStore :=
  (R.index.clearEach s r ((s.recordsIn α R.table r).map R.idOf)).removePartition R.table r

section Partition

variable (hkey : ∀ r id, R.Scope r → R.key r id = ⟨r, id⟩)
include hkey

theorem mem_recordsIn_iff (hr : R.Scope r) {a : α} :
    a ∈ s.recordsIn α R.table r ↔ ∃ id, R.record s r id s.now = some a := by
  rw [RowStore.mem_recordsIn_iff (R.scope_plain r hr).1]
  simp only [record, hkey r _ hr]

theorem record_eraseAll {r' id' : String} {time : Int} (hr : R.Scope r) (hr' : R.Scope r') :
    R.record (R.eraseAll s r) r' id' time = if r' = r then none else R.record s r' id' time := by
  have hlead : (RowKey.lead r).toList <+: (R.key r' id').encode.toList ↔ r' = r := by
    rw [RowKey.lead_prefix_iff]
    constructor
    · rintro ⟨c, heq⟩
      rw [← hkey r c hr] at heq
      exact ((R.key_inj r' r id' c hr' hr).mp heq).1
    · rintro rfl
      exact ⟨id', congrArg RowKey.encode (hkey r' id' hr)⟩
  rw [eraseAll, record, RowStore.recordAt_removePartition]
  simp only [hlead, true_and]
  rw [RowStore.recordAt_congr (table_of_within AttributeIndex.within_clearEach)]
  rfl

theorem changed_eraseAll (h : R.Kept U s) (hr : R.Scope r) :
    R.Changed s (R.eraseAll s r) (fun r' _ => r' = r) none := by
  have hf : (R.eraseAll s r).table R.index.forward = _ :=
    RowStore.table_removePartition_of_ne (Ne.symm R.table_ne.1) r
  have hrev : (R.eraseAll s r).table R.index.reverse = _ :=
    RowStore.table_removePartition_of_ne (Ne.symm R.table_ne.2) r
  have hids : ∀ e ∈ (s.recordsIn α R.table r).map R.idOf, NulFree e := by
    intro e he
    obtain ⟨a, ha, rfl⟩ := List.mem_map.mp he
    obtain ⟨id, ha⟩ := (mem_recordsIn_iff hkey hr).mp ha
    obtain ⟨rfl, hid⟩ := h.placed r id a hr ha
    exact hid
  have hvalues : ∀ r' id' name time, R.Scope r' → NulFree id' →
      R.index.valuesAt (R.eraseAll s r) r' id' name time =
        if r' = r ∧ id' ∈ (s.recordsIn α R.table r).map R.idOf then []
        else R.index.valuesAt s r' id' name time := by
    intro r' id' name time hr' hid'
    rw [AttributeIndex.valuesAt_congr hf]
    exact AttributeIndex.valuesAt_clearEach (R.scope_plain r hr) hids (R.scope_plain r' hr') hid'
  constructor
  · rw [eraseAll, RowStore.now_removePartition, AttributeIndex.within_clearEach.now]
  · exact (RowStore.holds_congr (table_of_within AttributeIndex.within_clearEach)
      h.holds).removePartition _ _
  · exact (keyed_congr (table_of_within AttributeIndex.within_clearEach) h.keyed).removePartition _ _
  · have hcleared : R.index.Regular
        (R.index.clearEach s r ((s.recordsIn α R.table r).map R.idOf)) R.Admits (· ∈ R.fields) :=
      h.regular.clearEach R.fields_plain R.distinguishes (R.scope_plain r hr)
    exact hcleared.congr_tables hf hrev (RowStore.now_removePartition r)
  · intro r' id' time hr' hhit
    rw [record_eraseAll hkey hr hr', if_pos hhit]
  · intro r' id' time hr' hmiss
    rw [record_eraseAll hkey hr hr', if_neg hmiss]
  · intro r' id' name time hr' hid' hn hle hhit
    subst hhit
    rw [hvalues r' id' name time hr' hid']
    split
    · rfl
    · next hnot =>
      -- Without a record there are no values to be cleared.
      rw [h.values r' id' name time hr' hid' hn hle, h.lasting r' id' time hr' hle]
      cases ha : R.record s r' id' s.now with
      | none => rfl
      | some a =>
        obtain ⟨rfl, -⟩ := h.placed r' id' a hr' ha
        have hmem := (mem_recordsIn_iff hkey hr').mpr ⟨_, ha⟩
        exact absurd ⟨rfl, List.mem_map.mpr ⟨a, hmem, rfl⟩⟩ hnot
  · intro r' id' name time hr' hid' hn _ hmiss
    rw [hvalues r' id' name time hr' hid', if_neg fun hboth => hmiss hboth.1]

theorem Kept.eraseAll (h : R.Kept U s) (hr : R.Scope r) : R.Moved U s (R.eraseAll s r) where
  kept := h.change (changed_eraseAll hkey h hr) (fun _ ha => by cases ha) fun _ ha => by cases ha
  confined := (confined_of_within AttributeIndex.within_clearEach).trans
    ⟨RowStore.now_removePartition r, fun _ ht _ _ => RowStore.table_removePartition_of_ne ht r⟩

end Partition

theorem eraseAll_eq (hs : s.Holds α R.table) (hi : R.index.Sound s) (r : String) :
    (do
      let records ← Query.records α R.table r
      records.forM fun a => discard (R.index.removeAttributesOf r (R.idOf a))
      let _ ← Update.deletePartition R.table r
      return records.length : Update Nat) s =
        (.ok (s.recordsIn α R.table r).length, R.eraseAll s r) := by
  have hforM := AttributeIndex.removeAttributesOf_forM_eq hi r R.idOf
    (s.recordsIn α R.table r)
  have hreadable : RowStore.Readable
      (R.index.clearEach s r ((s.recordsIn α R.table r).map R.idOf)) R.table :=
    (RowStore.readable_congr (table_of_within AttributeIndex.within_clearEach)).mpr hs.readable
  rw [Update.bind_liftM_of_ok (Query.records_eq hs r), Update.bind_of_ok hforM,
    Update.bind_of_ok (Update.deletePartition_eq hreadable r)]
  rfl

section Other

variable (hname : name.toList.head? ≠ some '$')
include hname

theorem notMem_fields : name ∉ R.fields := fun hn => hname (R.fields_internal name hn).2

theorem setOther_eq (h : R.Kept U s) (hr : R.Scope r) (hid : NulFree id) (values : List String) :
    ∃ s', R.index.setAttribute r id name values none s = (.ok (), s') ∧ R.Moved U s s' := by
  have hw : R.index.Within s (R.index.set s r id name values none) := AttributeIndex.within_set
  refine ⟨_, AttributeIndex.setAttribute_eq h.regular.sound r id name values none, ?_,
    confined_of_within hw⟩
  apply h.congr hw.now
  · exact RowStore.holds_congr (table_of_within hw) h.holds
  · exact keyed_congr (table_of_within hw) h.keyed
  · apply h.regular.set R.fields_plain R.distinguishes (R.scope_plain r hr) hid (.inr hname)
    intro hn
    exact absurd hn (notMem_fields hname)
  · exact fun r' id' time _ => record_congr (table_of_within hw) r' id' time
  · intro r' id' name' time hr' hid' hn' _
    rw [AttributeIndex.valuesAt_set (R.scope_plain r hr) hid (R.scope_plain r' hr') hid', if_neg]
    rintro ⟨-, -, rfl⟩
    exact notMem_fields hname hn'

theorem clearOther_eq (h : R.Kept U s) (hr : R.Scope r) (id : String) :
    ∃ removed s', R.index.removeAttribute r id name s = (.ok removed, s') ∧ R.Moved U s s' := by
  have hw : R.index.Within s (R.index.clear s r id name) := AttributeIndex.within_clear
  refine ⟨_, _, AttributeIndex.removeAttribute_eq h.regular.sound r id name, ?_,
    confined_of_within hw⟩
  apply h.congr hw.now
  · exact RowStore.holds_congr (table_of_within hw) h.holds
  · exact keyed_congr (table_of_within hw) h.keyed
  · apply h.regular.clear R.fields_plain R.distinguishes (R.scope_plain r hr) _ (.inr hname)
    intro hn
    exact absurd hn (notMem_fields hname)
  · exact fun r' id' time _ => record_congr (table_of_within hw) r' id' time
  · intro r' id' name' time hr' hid' hn' _
    have hap : Apart r id name r' name' := by
      apply AttributeIndex.apart_of_written R.distinguishes (R.scope_plain r hr) (.inr hname)
        (R.scope_plain r' hr') hn'
      rintro ⟨-, rfl⟩
      exact notMem_fields hname hn'
    rw [AttributeIndex.clear, AttributeIndex.valuesAt_unlist,
      AttributeIndex.valuesAt_removeForward_of_ne (hap.forward id' hid').symm]

end Other

end IdentityDirectory.Registry
