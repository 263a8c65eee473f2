import IdentityDirectory.Proofs.Index.Lookup
import IdentityDirectory.Proofs.Isolation.Footprint

/-!
What the reverse rows of an attribute tell, when attributes have any names and values. An entity is
listed under a value exactly if the value is among its values, for entities and values that are free of
U+0000; this stays so as long as no attribute is set whose name continues that of the attribute past a
U+001F, since the reverse rows of the two would be the same. Main statements: `Reflects.set`,
`Reflects.clear` and `Reflects.clearAll`.
-/

namespace IdentityDirectory.AttributeIndex

def Reflects (ix : AttributeIndex) (s : RowStore) (scope name : String) : Prop :=
  ∀ entity value time, NulFree entity → NulFree value → s.now ≤ time →
    (ix.Lists s scope name value entity time ↔ value ∈ ix.valuesAt s scope entity name time)

/-- No name of an attribute that an entity of the scope has continues the given one. -/
def Uncontinued (ix : AttributeIndex) (s : RowStore) (scope name : String) : Prop :=
  ix.Named s scope fun other => ¬ Continues '\x1f' name other

variable {ix : AttributeIndex} {s s' : RowStore} {scope scope' entity entity' name name' : String}
  {value value' : String} {values : List String} {lifetime : Option Int} {time : Int}

theorem forwardKey_eq_iff (hs : Plain scope) (he : NulFree entity) (hn : NulFree name)
    (hs' : Plain scope') :
    (forwardKey scope entity name).encode = (forwardKey scope' entity' name').encode ↔
      scope' = scope ∧ entity' = entity ∧ name' = name := by
  rw [eq_comm, ← String.toList_inj, toList_forwardKey, toList_forwardKey,
    cons_append_inj hs'.2 hs.2, append_cons_inj he hn, String.toList_inj, String.toList_inj,
    String.toList_inj]

theorem eq_of_reverseKey_eq (hs : Plain scope) (he : NulFree entity) (hn : Plain name)
    (hv : NulFree value) (hs' : Plain scope')
    (h : (reverseKey scope' entity' name' value').encode =
      (reverseKey scope entity name value).encode) :
    scope' = scope ∧ entity' = entity ∧
      (name' = name ∧ value' = value ∨ Continues '\x1f' name name') := by
  have hfree : RowKey.partitionEnd ∉
      scope.toList ++ '\x1f' :: (name.toList ++ '\x1f' :: value.toList) := by
    have hp := valuePartition_nulFree hs hn hv
    rwa [NulFree, valuePartition, RowKey.toList_composite_three] at hp
  have hsplit : ∀ a b c d : String, (reverseKey a d b c).encode.toList =
      (a.toList ++ '\x1f' :: (b.toList ++ '\x1f' :: c.toList)) ++ RowKey.partitionEnd :: d.toList :=
    fun a b c d => by rw [toList_reverseKey]; simp
  rw [← String.toList_inj, hsplit, hsplit, append_cons_inj hfree he, cons_append_inj hs'.2 hs.2,
    String.toList_inj, String.toList_inj] at h
  obtain ⟨⟨hscope, hrest⟩, hentity⟩ := h
  refine ⟨hscope, hentity, ?_⟩
  rcases eq_or_continues hn.2 hrest.symm with ⟨hname, hvalue⟩ | hcont
  · exact .inl ⟨hname.symm, (String.toList_inj.mp hvalue).symm⟩
  · exact .inr hcont

theorem mem_reverseKeys_iff_of_nulFree (hs : Plain scope) (he : NulFree entity) (hn : Plain name)
    (hv : NulFree value) (hs' : Plain scope')
    (hcont : scope' = scope → NulFree entity' → Continues '\x1f' name name' → values = []) :
    (reverseKey scope entity name value).encode ∈ reverseKeys scope' entity' name' values ↔
      scope' = scope ∧ entity' = entity ∧ name' = name ∧ value ∈ values := by
  rw [reverseKeys, List.mem_map]
  constructor
  · rintro ⟨v, hmem, hkey⟩
    obtain ⟨hscope, hentity, ⟨hname, rfl⟩ | hlonger⟩ := eq_of_reverseKey_eq hs he hn hv hs' hkey
    · exact ⟨hscope, hentity, hname, hmem⟩
    · rw [hcont hscope (hentity ▸ he) hlonger] at hmem
      cases hmem
  · rintro ⟨rfl, rfl, rfl, hmem⟩
    exact ⟨value, hmem, rfl⟩

theorem Reflects.congr (h : ix.Reflects s scope name) (hle : s.now ≤ s'.now)
    (hv : ∀ entity time, NulFree entity → s'.now ≤ time →
      ix.valuesAt s' scope entity name time = ix.valuesAt s scope entity name time)
    (hl : ∀ entity value time, NulFree entity → NulFree value → s'.now ≤ time →
      (ix.Lists s' scope name value entity time ↔ ix.Lists s scope name value entity time)) :
    ix.Reflects s' scope name := by
  intro entity value time he hvalue hle'
  rw [hl entity value time he hvalue hle', hv entity time he hle']
  exact h entity value time he hvalue (Int.le_trans hle hle')

theorem reflects_empty (ix : AttributeIndex) (now : Int) (scope name : String) :
    ix.Reflects (.empty now) scope name := by
  intro entity value time _ _ _
  simp [valuesAt, Lists, RowStore.recordAt, RowStore.seen_empty]

theorem Reflects.congr_tables (h : ix.Reflects s scope name)
    (hf : s'.table ix.forward = s.table ix.forward) (hr : s'.table ix.reverse = s.table ix.reverse)
    (hnow : s'.now = s.now) : ix.Reflects s' scope name :=
  h.congr (Int.le_of_eq hnow.symm) (fun _ _ _ _ => valuesAt_congr hf) fun _ _ _ _ _ _ => lists_congr hr

theorem Reflects.spared (h : ix.Reflects s scope name) (hnow : s'.now = s.now)
    (hf : ∀ entity, NulFree entity →
      (s'.table ix.forward).get? (forwardKey scope entity name).encode =
        (s.table ix.forward).get? (forwardKey scope entity name).encode)
    (hr : ∀ entity value, NulFree entity → NulFree value →
      (s'.table ix.reverse).get? (reverseKey scope entity name value).encode =
        (s.table ix.reverse).get? (reverseKey scope entity name value).encode) :
    ix.Reflects s' scope name := by
  apply h.congr (Int.le_of_eq hnow.symm)
  · intro entity time he _
    rw [valuesAt, valuesAt, RowStore.recordAt, RowStore.recordAt,
      RowStore.seen_of_get?_eq (hf entity he)]
  · intro entity value time he hv _
    rw [Lists, Lists, RowStore.seen_of_get?_eq (hr entity value he hv)]

theorem Reflects.later (h : ix.Reflects s scope name) {now : Int} (hle : s.now ≤ now) :
    ix.Reflects { s with now } scope name :=
  h.congr hle (fun _ _ _ _ => rfl) fun _ _ _ _ _ _ => Iff.rfl

theorem Reflects.reclaimed (h : ix.Reflects s scope name) (hs : RowStore.Reclaimed s s') :
    ix.Reflects s' scope name :=
  h.congr (Int.le_of_eq hs.now.symm)
    (fun _ _ _ hle => by rw [valuesAt, valuesAt, hs.recordAt_eq (hs.now ▸ hle)])
    fun _ _ _ _ _ hle => by rw [Lists, Lists, hs.seen_eq (hs.now ▸ hle)]

theorem Reflects.mem_valuesAt_now (h : ix.Reflects s scope name) (he : NulFree entity)
    (hv : NulFree value) (hle : s.now ≤ time) (hl : ix.Lists s scope name value entity time) :
    value ∈ ix.valuesAt s scope entity name s.now :=
  mem_valuesAt_of_le hle ((h entity value time he hv hle).mp hl)

theorem Uncontinued.valuesAt_eq (h : ix.Uncontinued s scope name) (he' : NulFree entity')
    (hcont : Continues '\x1f' name name') :
    ix.valuesAt s scope entity' name' s.now = [] := by
  rw [valuesAt]
  cases hrec : s.recordAt (List String) ix.forward (forwardKey scope entity' name') s.now with
  | none => rfl
  | some vs => exact absurd hcont (h entity' name' he' (by rw [hrec]; rfl))

section Write

variable (hs : Plain scope) (hn : Plain name) (hs' : Plain scope')
include hs hn hs'

theorem valuesAt_removeForward_of_nulFree (he : NulFree entity) :
    ix.valuesAt (s.remove ix.forward (forwardKey scope' entity' name').encode) scope entity name time =
      if scope' = scope ∧ entity' = entity ∧ name' = name then []
      else ix.valuesAt s scope entity name time := by
  rw [valuesAt, RowStore.recordAt_remove]
  simp only [true_and, forwardKey_eq_iff hs he hn.1 hs']
  split <;> rfl

theorem valuesAt_clear_of_nulFree (he : NulFree entity) :
    ix.valuesAt (ix.clear s scope' entity' name') scope entity name time =
      if scope' = scope ∧ entity' = entity ∧ name' = name then []
      else ix.valuesAt s scope entity name time := by
  rw [clear, valuesAt_unlist, valuesAt_removeForward_of_nulFree hs hn hs' he]

theorem Reflects.clear (hunc : ix.Uncontinued s scope name) (h : ix.Reflects s scope name) :
    ix.Reflects (ix.clear s scope' entity' name') scope name := by
  intro entity value time he hv hle
  rw [AttributeIndex.clear, now_unlist, RowStore.now_remove] at hle
  have hnone : scope' = scope → NulFree entity' → Continues '\x1f' name name' →
      ix.valuesAt s scope' entity' name' s.now = [] := by
    rintro rfl he' hcont
    exact hunc.valuesAt_eq he' hcont
  rw [valuesAt_clear_of_nulFree hs hn hs' he, AttributeIndex.clear, lists_unlist,
    lists_removeForward, mem_reverseKeys_iff_of_nulFree hs he hn hv hs' hnone]
  by_cases hsame : scope' = scope ∧ entity' = entity ∧ name' = name
  · obtain ⟨rfl, rfl, rfl⟩ := hsame
    simp only [true_and, and_self, if_true, List.not_mem_nil, iff_false]
    exact fun hboth => hboth.1 (h.mem_valuesAt_now he hv hle hboth.2)
  · rw [if_neg hsame, and_iff_right fun hall => hsame ⟨hall.1, hall.2.1, hall.2.2.1⟩]
    exact h entity value time he hv hle

theorem Reflects.replace (he' : NulFree entity')
    (hcont : scope' = scope → ¬ Continues '\x1f' name name') (h : ix.Reflects s scope name) :
    ix.Reflects (ix.replace s scope' entity' name' values lifetime) scope name := by
  intro entity value time he hv hle
  rw [AttributeIndex.replace, now_list, now_unlist, writeForward, RowStore.now_write] at hle
  have hnone : ∀ l : List String, scope' = scope → NulFree entity' →
      Continues '\x1f' name name' → l = [] := fun _ hscope _ hc => absurd hc (hcont hscope)
  rw [valuesAt_replace hs' he' hs he, AttributeIndex.replace, lists_list, lists_unlist,
    lists_writeForward, mem_reverseKeys_iff_of_nulFree hs he hn hv hs' (hnone _),
    mem_reverseKeys_iff_of_nulFree hs he hn hv hs' (hnone _), now_unlist, writeForward,
    RowStore.now_write]
  by_cases hsame : scope' = scope ∧ entity' = entity ∧ name' = name
  · obtain ⟨rfl, rfl, rfl⟩ := hsame
    have hpast := h.mem_valuesAt_now he hv hle
    by_cases hmem : value ∈ values
    · by_cases hlasts : Lifetime.lasts lifetime s.now time <;> simp [hmem, hlasts]
    · have hgone : value ∉ if Lifetime.lasts lifetime s.now time then values else [] := by
        split
        · exact hmem
        · exact List.not_mem_nil
      simp only [true_and, and_self, if_true, hgone, hmem, false_and, List.mem_filter,
        not_false_eq_true, decide_true, and_true, false_or, iff_false]
      -- What is still listed later is among the values that are read and withdrawn now.
      exact fun hboth => hboth.1 (hpast hboth.2)
  · have hother : ¬ (scope = scope' ∧ entity = entity' ∧ name = name') := fun hall =>
      hsame ⟨hall.1.symm, hall.2.1.symm, hall.2.2.symm⟩
    have hout : ∀ l : List String,
        ¬ (scope' = scope ∧ entity' = entity ∧ name' = name ∧ value ∈ l) := fun l hall =>
      hsame ⟨hall.1, hall.2.1, hall.2.2.1⟩
    rw [if_neg hother]
    simp only [hout, false_and, not_false_eq_true, true_and, false_or]
    exact h entity value time he hv hle

theorem Reflects.set (he' : NulFree entity') (hunc : ix.Uncontinued s scope name)
    (hcont : scope' = scope → ¬ Continues '\x1f' name name') (h : ix.Reflects s scope name) :
    ix.Reflects (ix.set s scope' entity' name' values lifetime) scope name := by
  rw [AttributeIndex.set]
  split
  · exact h.clear hs hn hs' hunc
  · exact h.replace hs hn hs' he' hcont

theorem Reflects.clearAll (hsound : ix.Sound s) (hunc : ix.Uncontinued s scope name)
    (h : ix.Reflects s scope name) : ix.Reflects (ix.clearAll s scope' entity') scope name := by
  intro entity value time he hv hle
  rw [now_clearAll] at hle
  have hkeys : ∀ e ∈ (ix.attributesAt s scope' entity').entries,
      ((reverseKey scope entity name value).encode ∈ reverseKeys scope' entity' e.1 e.2 ↔
        scope' = scope ∧ entity' = entity ∧ e.1 = name ∧ value ∈ e.2) := by
    intro e hmem
    apply mem_reverseKeys_iff_of_nulFree hs he hn hv hs'
    rintro rfl - hcont
    exact absurd hcont (hunc.mem_attributesAt hsound hs hmem)
  rw [lists_clearAll, valuesAt_clearAll_of_nulFree hs' hs he hn.1]
  by_cases hsame : scope' = scope ∧ entity' = entity
  · obtain ⟨rfl, rfl⟩ := hsame
    simp only [and_self, if_true, List.not_mem_nil, iff_false, not_and]
    intro hall hlisted
    have hnow := h.mem_valuesAt_now he hv hle hlisted
    have hattr := mem_attributesAt_of_mem_valuesAt hsound hs he hnow
    exact hall _ hattr ((hkeys _ hattr).mpr ⟨rfl, rfl, rfl, hnow⟩)
  · rw [if_neg fun hall => hsame ⟨hall.1.symm, hall.2.symm⟩, and_iff_right fun e hmem hkey => ?_]
    · exact h entity value time he hv hle
    · have hall := (hkeys e hmem).mp hkey
      exact hsame ⟨hall.1, hall.2.1⟩

end Write

end IdentityDirectory.AttributeIndex
