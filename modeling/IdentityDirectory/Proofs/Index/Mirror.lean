import IdentityDirectory.Proofs.Index.Rows

/-!
Forward and reverse rows mirror each other: at every instant to come, an entity is listed under a
value exactly if the value is among its values. Values that are claimed ahead of their forward row
are listed too. Main statements: `valuesAt_set`, `Mirrors.set`, `Mirrors.clear`, each for the
attribute that is written, and their frames `Mirrors.set_of_apart`, `Mirrors.clear_of_apart`.
-/

namespace IdentityDirectory.AttributeIndex

structure Mirrors (ix : AttributeIndex) (s : RowStore) (scope name : String)
    (claimed : String → String → Prop) : Prop where
  nulFree : ∀ entity value time, NulFree entity → s.now ≤ time →
    value ∈ ix.valuesAt s scope entity name time → NulFree value
  lists_iff : ∀ entity value time, NulFree value → s.now ≤ time →
    (ix.Lists s scope name value entity time ↔
      NulFree entity ∧ (value ∈ ix.valuesAt s scope entity name time ∨ claimed value entity))

abbrev Unclaimed : String → String → Prop := fun _ _ => False

/-- No row of the one attribute can be taken for one of the other. -/
structure Apart (scope entity name scope' name' : String) : Prop where
  forward : ∀ entity', NulFree entity' →
    (forwardKey scope entity name).encode ≠ (forwardKey scope' entity' name').encode
  reverse : ∀ value entity' value', (reverseKey scope entity name value).encode ≠
    (reverseKey scope' entity' name' value').encode

theorem toList_forwardKey (scope entity name : String) : (forwardKey scope entity name).encode.toList =
    scope.toList ++ '\x1f' :: (entity.toList ++ RowKey.partitionEnd :: name.toList) := by
  rw [RowKey.toList_encode]
  simp only [forwardKey, entityPartition, RowKey.toList_composite_two, List.append_assoc,
    List.cons_append]

theorem toList_reverseKey (scope entity name value : String) :
    (reverseKey scope entity name value).encode.toList = scope.toList ++ '\x1f' ::
      (name.toList ++ '\x1f' :: (value.toList ++ RowKey.partitionEnd :: entity.toList)) := by
  rw [RowKey.toList_encode]
  simp only [reverseKey, valuePartition, RowKey.toList_composite_three, List.append_assoc,
    List.cons_append]

theorem apart_of_scope_ne {scope scope' : String} (hs : Plain scope) (hs' : Plain scope')
    (h : scope ≠ scope') (entity name name' : String) : Apart scope entity name scope' name' where
  forward entity' _ heq := by
    rw [← String.toList_inj, toList_forwardKey, toList_forwardKey] at heq
    exact h (String.toList_inj.mp ((cons_append_inj hs.2 hs'.2).mp heq).1)
  reverse value entity' value' heq := by
    rw [← String.toList_inj, toList_reverseKey, toList_reverseKey] at heq
    exact h (String.toList_inj.mp ((cons_append_inj hs.2 hs'.2).mp heq).1)

theorem forwardKey_ne_of_name_ne {scope name name' entity' : String} (hs : Plain scope)
    (hn' : NulFree name') (he' : NulFree entity') (h : name ≠ name') (entity : String) :
    (forwardKey scope entity name).encode ≠ (forwardKey scope entity' name').encode := by
  intro heq
  rw [← String.toList_inj, toList_forwardKey, toList_forwardKey] at heq
  have htail := ((cons_append_inj hs.2 hs.2).mp heq).2
  exact h (String.toList_inj.mp ((append_cons_inj he' hn').mp htail).2)

theorem apart_of_name_ne {scope name name' : String} (hs : Plain scope) (hn : Plain name)
    (hn' : Plain name') (h : name ≠ name') (entity : String) :
    Apart scope entity name scope name' where
  forward _ he' := forwardKey_ne_of_name_ne hs hn'.1 he' h entity
  reverse value entity' value' heq := by
    rw [← String.toList_inj, toList_reverseKey, toList_reverseKey] at heq
    have htail := ((cons_append_inj hs.2 hs.2).mp heq).2
    exact h (String.toList_inj.mp ((cons_append_inj hn.2 hn'.2).mp htail).1)

variable {ix : AttributeIndex} {s s' : RowStore} {scope scope' entity entity' name name' : String}
  {value value' : String} {values : List String} {lifetime : Option Int} {time : Int}
  {claimed : String → String → Prop}

theorem mem_reverseKeys_iff (hs : Plain scope) (hn : Plain name) (hvs : ∀ v ∈ values, NulFree v)
    (hv : NulFree value) : (reverseKey scope entity' name value).encode ∈
      reverseKeys scope entity name values ↔ entity' = entity ∧ value ∈ values := by
  simp only [reverseKeys, List.mem_map]
  constructor
  · rintro ⟨v, hmem, heq⟩
    obtain ⟨-, -, rfl, rfl⟩ := (reverseKey_inj hs hn (hvs v hmem) hs hn hv).mp heq
    exact ⟨rfl, hmem⟩
  · rintro ⟨rfl, hmem⟩
    exact ⟨value, hmem, rfl⟩

theorem Apart.notMem (h : Apart scope entity name scope' name') (values : List String)
    (entity' value : String) : (reverseKey scope' entity' name' value).encode ∉
      reverseKeys scope entity name values := by
  simp only [reverseKeys, List.mem_map, not_exists, not_and]
  exact fun v _ heq => h.reverse v entity' value heq

theorem valuesAt_congr (h : s'.table ix.forward = s.table ix.forward) :
    ix.valuesAt s' scope entity name time = ix.valuesAt s scope entity name time := by
  rw [valuesAt, valuesAt, RowStore.recordAt_congr h]

theorem mem_valuesAt_of_le {later : Int} (hle : time ≤ later)
    (h : value ∈ ix.valuesAt s scope entity name later) :
    value ∈ ix.valuesAt s scope entity name time := by
  rw [valuesAt] at h ⊢
  cases hrec : s.recordAt (List String) ix.forward (forwardKey scope entity name) later with
  | none => rw [hrec] at h; cases h
  | some vs =>
    rw [hrec] at h
    rw [RowStore.recordAt_of_le hle hrec]
    exact h

theorem valuesAt_unlist : ix.valuesAt (ix.unlist s scope entity name values) scope' entity' name' time =
    ix.valuesAt s scope' entity' name' time :=
  valuesAt_congr (table_unlist_of_ne ix.forward_ne_reverse)

theorem valuesAt_list : ix.valuesAt (ix.list s scope entity name values lifetime) scope' entity' name'
    time = ix.valuesAt s scope' entity' name' time :=
  valuesAt_congr (table_list_of_ne ix.forward_ne_reverse)

theorem valuesAt_removeForward_of_ne {key : String}
    (h : (forwardKey scope' entity' name').encode ≠ key) :
    ix.valuesAt (s.remove ix.forward key) scope' entity' name' time =
      ix.valuesAt s scope' entity' name' time := by
  rw [valuesAt, RowStore.recordAt, RowStore.seen_remove, if_neg fun hboth => h hboth.2]
  rfl

theorem valuesAt_writeForward_of_ne
    (h : (forwardKey scope' entity' name').encode ≠ (forwardKey scope entity name).encode) :
    ix.valuesAt (ix.writeForward s scope entity name values lifetime) scope' entity' name' time =
      ix.valuesAt s scope' entity' name' time := by
  rw [valuesAt, writeForward, RowStore.recordAt_write, if_neg fun hboth => h hboth.2]
  rfl

section Forward

variable (hs : Plain scope) (he : NulFree entity) (hs' : Plain scope') (he' : NulFree entity')
include hs he hs' he'

theorem valuesAt_writeForward :
    ix.valuesAt (ix.writeForward s scope entity name values lifetime) scope' entity' name' time =
      if scope' = scope ∧ entity' = entity ∧ name' = name then
        if Lifetime.lasts lifetime s.now time then values else []
      else ix.valuesAt s scope' entity' name' time := by
  rw [valuesAt, writeForward, RowStore.recordAt_write]
  simp only [true_and, forwardKey_inj hs' he' hs he]
  split
  · split <;> rfl
  · rfl

theorem valuesAt_removeForward :
    ix.valuesAt (s.remove ix.forward (forwardKey scope entity name).encode) scope' entity' name' time =
      if scope' = scope ∧ entity' = entity ∧ name' = name then []
      else ix.valuesAt s scope' entity' name' time := by
  rw [valuesAt, RowStore.recordAt_remove]
  simp only [true_and, forwardKey_inj hs' he' hs he]
  split <;> rfl

theorem valuesAt_clear : ix.valuesAt (ix.clear s scope entity name) scope' entity' name' time =
    if scope' = scope ∧ entity' = entity ∧ name' = name then []
    else ix.valuesAt s scope' entity' name' time := by
  rw [clear, valuesAt_unlist, valuesAt_removeForward hs he hs' he']

theorem valuesAt_replace :
    ix.valuesAt (ix.replace s scope entity name values lifetime) scope' entity' name' time =
      if scope' = scope ∧ entity' = entity ∧ name' = name then
        if Lifetime.lasts lifetime s.now time then values else []
      else ix.valuesAt s scope' entity' name' time := by
  rw [replace, valuesAt_list, valuesAt_unlist, valuesAt_writeForward hs he hs' he']

theorem valuesAt_set :
    ix.valuesAt (ix.set s scope entity name values lifetime) scope' entity' name' time =
      if scope' = scope ∧ entity' = entity ∧ name' = name then
        if Lifetime.lasts lifetime s.now time then distinct values else []
      else ix.valuesAt s scope' entity' name' time := by
  rw [set]
  split
  · next hnil => rw [valuesAt_clear hs he hs' he', hnil, ite_self]
  · exact valuesAt_replace hs he hs' he'

end Forward

theorem lists_congr (h : s'.table ix.reverse = s.table ix.reverse) :
    ix.Lists s' scope name value entity time ↔ ix.Lists s scope name value entity time := by
  rw [Lists, Lists, RowStore.seen_congr h]

theorem lists_unlist : ix.Lists (ix.unlist s scope entity name values) scope' name' value entity' time ↔
    (reverseKey scope' entity' name' value).encode ∉ reverseKeys scope entity name values ∧
      ix.Lists s scope' name' value entity' time := by
  rw [Lists, seen_unlist]
  simp only [true_and]
  split
  · next h => simp [h]
  · next h => simp [h, Lists]

theorem lists_list : ix.Lists (ix.list s scope entity name values lifetime) scope' name' value entity' time ↔
    ((reverseKey scope' entity' name' value).encode ∈ reverseKeys scope entity name values ∧
      Lifetime.lasts lifetime s.now time = true) ∨
    ((reverseKey scope' entity' name' value).encode ∉ reverseKeys scope entity name values ∧
      ix.Lists s scope' name' value entity' time) := by
  rw [Lists, seen_list]
  simp only [true_and]
  split
  · next hmem =>
    split
    · next h => simp [hmem, h]
    · next h => simp [hmem, h]
  · next hmem => simp [hmem, Lists]

theorem lists_removeForward (key : String) :
    ix.Lists (s.remove ix.forward key) scope name value entity time ↔
      ix.Lists s scope name value entity time :=
  lists_congr (s.table_remove_of_ne ix.forward_ne_reverse.symm key)

theorem lists_writeForward :
    ix.Lists (ix.writeForward s scope entity name values lifetime) scope' name' value entity' time ↔
      ix.Lists s scope' name' value entity' time :=
  lists_congr (s.table_write_of_ne ix.forward_ne_reverse.symm _ _ _)

theorem Mirrors.congr (h : ix.Mirrors s scope name claimed) (hle : s.now ≤ s'.now)
    (hv : ∀ entity time, NulFree entity → s'.now ≤ time →
      ix.valuesAt s' scope entity name time = ix.valuesAt s scope entity name time)
    (hl : ∀ entity value time, NulFree value → s'.now ≤ time →
      (ix.Lists s' scope name value entity time ↔ ix.Lists s scope name value entity time)) :
    ix.Mirrors s' scope name claimed where
  nulFree entity value time he hle' hmem :=
    h.nulFree entity value time he (Int.le_trans hle hle') (hv entity time he hle' ▸ hmem)
  lists_iff entity value time hvalue hle' := by
    rw [hl entity value time hvalue hle', h.lists_iff entity value time hvalue (Int.le_trans hle hle')]
    exact and_congr_right fun he => by rw [hv entity time he hle']

theorem mirrors_congr_table (hf : s'.table ix.forward = s.table ix.forward)
    (hr : s'.table ix.reverse = s.table ix.reverse) (hn : s'.now = s.now)
    (h : ix.Mirrors s scope name claimed) : ix.Mirrors s' scope name claimed :=
  h.congr (Int.le_of_eq hn.symm) (fun _ _ _ _ => valuesAt_congr hf) fun _ _ _ _ _ => lists_congr hr

theorem Mirrors.later (h : ix.Mirrors s scope name claimed) {now : Int} (hle : s.now ≤ now) :
    ix.Mirrors { s with now } scope name claimed :=
  h.congr hle (fun _ _ _ _ => rfl) fun _ _ _ _ _ => Iff.rfl

theorem Mirrors.reclaimed (h : ix.Mirrors s scope name claimed) (hs : RowStore.Reclaimed s s') :
    ix.Mirrors s' scope name claimed :=
  h.congr (Int.le_of_eq hs.now.symm)
    (fun _ _ _ hle => by rw [valuesAt, valuesAt, hs.recordAt_eq (hs.now ▸ hle)])
    fun _ _ _ _ hle => by rw [Lists, Lists, hs.seen_eq (hs.now ▸ hle)]

theorem mirrors_empty (ix : AttributeIndex) (now : Int) (scope name : String) :
    ix.Mirrors (.empty now) scope name Unclaimed where
  nulFree entity value time _ _ hmem := by
    simp [valuesAt, RowStore.recordAt, RowStore.seen_empty] at hmem
  lists_iff entity value time _ _ := by
    simp [valuesAt, Lists, RowStore.recordAt, RowStore.seen_empty]

theorem Mirrors.mem_valuesAt_now (h : ix.Mirrors s scope name Unclaimed) (hv : NulFree value)
    (hle : s.now ≤ time) (hl : ix.Lists s scope name value entity time) :
    value ∈ ix.valuesAt s scope entity name s.now := by
  obtain ⟨-, hmem | hc⟩ := (h.lists_iff entity value time hv hle).mp hl
  · exact mem_valuesAt_of_le hle hmem
  · exact hc.elim

section Write

variable (hs : Plain scope) (he : NulFree entity)
include hs he

theorem Mirrors.clear (hn : Plain name) (h : ix.Mirrors s scope name Unclaimed) :
    ix.Mirrors (ix.clear s scope entity name) scope name Unclaimed where
  nulFree entity' value time he' hle hmem := by
    rw [AttributeIndex.clear, now_unlist, RowStore.now_remove] at hle
    rw [valuesAt_clear hs he hs he'] at hmem
    split at hmem
    · cases hmem
    · exact h.nulFree entity' value time he' hle hmem
  lists_iff entity' value time hv hle := by
    rw [AttributeIndex.clear, now_unlist, RowStore.now_remove] at hle
    have hold := fun v hmem => h.nulFree entity v s.now he (Int.le_refl _) hmem
    rw [AttributeIndex.clear, lists_unlist, lists_removeForward, mem_reverseKeys_iff hs hn hold hv,
      ← AttributeIndex.clear]
    by_cases hent : entity' = entity
    · subst hent
      rw [valuesAt_clear hs he hs he, if_pos ⟨rfl, rfl, rfl⟩]
      simp only [true_and, List.not_mem_nil, or_self, and_false, iff_false]
      exact fun hboth => hboth.1 (h.mem_valuesAt_now hv hle hboth.2)
    · rw [h.lists_iff entity' value time hv hle]
      simp only [hent, false_and, not_false_eq_true, true_and]
      refine and_congr_right fun he' => ?_
      rw [valuesAt_clear hs he hs he', if_neg fun hsame => hent hsame.2.1]

theorem Mirrors.replace (hn : Plain name) (h : ix.Mirrors s scope name Unclaimed)
    (hvs : ∀ v ∈ values, NulFree v) :
    ix.Mirrors (ix.replace s scope entity name values lifetime) scope name Unclaimed where
  nulFree entity' value time he' hle hmem := by
    rw [AttributeIndex.replace, now_list, now_unlist, writeForward, RowStore.now_write] at hle
    rw [valuesAt_replace hs he hs he'] at hmem
    split at hmem
    · split at hmem
      · exact hvs value hmem
      · cases hmem
    · exact h.nulFree entity' value time he' hle hmem
  lists_iff entity' value time hv hle := by
    rw [AttributeIndex.replace, now_list, now_unlist, writeForward, RowStore.now_write] at hle
    have hold : ∀ v ∈ (ix.valuesAt s scope entity name s.now).filter (· ∉ values), NulFree v :=
      fun v hmem => h.nulFree entity v s.now he (Int.le_refl _) (List.mem_filter.mp hmem).1
    rw [AttributeIndex.replace, lists_list, lists_unlist, lists_writeForward,
      mem_reverseKeys_iff hs hn hvs hv, mem_reverseKeys_iff hs hn hold hv,
      ← AttributeIndex.replace, now_unlist, writeForward, RowStore.now_write]
    by_cases hent : entity' = entity
    · subst hent
      rw [valuesAt_replace hs he hs he, if_pos ⟨rfl, rfl, rfl⟩]
      by_cases hmem : value ∈ values
      · by_cases hlasts : Lifetime.lasts lifetime s.now time <;> simp [hmem, hlasts, he]
      · have hgone : value ∉ if Lifetime.lasts lifetime s.now time then values else [] := by
          split
          · exact hmem
          · exact List.not_mem_nil
        simp only [true_and, List.mem_filter, hmem, false_and, not_false_eq_true, decide_true,
          and_true, false_or, hgone, or_self, and_false, iff_false]
        -- What is still listed later is among the values that are read and withdrawn now.
        exact fun hboth => hboth.1 (h.mem_valuesAt_now hv hle hboth.2)
    · simp only [hent, false_and, not_false_eq_true, true_and, false_or]
      rw [h.lists_iff entity' value time hv hle]
      refine and_congr_right fun he' => ?_
      rw [valuesAt_replace hs he hs he', if_neg fun hsame => hent hsame.2.1]

theorem Mirrors.set (hn : Plain name) (h : ix.Mirrors s scope name Unclaimed)
    (hvs : ∀ v ∈ distinct values, NulFree v) :
    ix.Mirrors (ix.set s scope entity name values lifetime) scope name Unclaimed := by
  rw [AttributeIndex.set]
  split
  · exact h.clear hs he hn
  · exact h.replace hs he hn hvs

end Write

theorem Mirrors.clear_of_apart (h : ix.Mirrors s scope' name' claimed)
    (hap : Apart scope entity name scope' name') :
    ix.Mirrors (ix.clear s scope entity name) scope' name' claimed := by
  refine h.congr (Int.le_of_eq (by rw [AttributeIndex.clear, now_unlist, RowStore.now_remove]))
    (fun entity' time he' _ => ?_) fun entity' value time _ _ => ?_
  · rw [AttributeIndex.clear, valuesAt_unlist,
      valuesAt_removeForward_of_ne (hap.forward entity' he').symm]
  · rw [AttributeIndex.clear, lists_unlist, lists_removeForward]
    exact and_iff_right (hap.notMem _ entity' value)

theorem Mirrors.replace_of_apart (h : ix.Mirrors s scope' name' claimed)
    (hap : Apart scope entity name scope' name') :
    ix.Mirrors (ix.replace s scope entity name values lifetime) scope' name' claimed := by
  refine h.congr (Int.le_of_eq ?_) (fun entity' time he' _ => ?_) fun entity' value time _ _ => ?_
  · rw [AttributeIndex.replace, now_list, now_unlist, writeForward, RowStore.now_write]
  · rw [AttributeIndex.replace, valuesAt_list, valuesAt_unlist,
      valuesAt_writeForward_of_ne (hap.forward entity' he').symm]
  · rw [AttributeIndex.replace, lists_list, lists_unlist, lists_writeForward]
    simp only [hap.notMem, not_false_eq_true, false_and, true_and, false_or]

theorem Mirrors.set_of_apart (h : ix.Mirrors s scope' name' claimed)
    (hap : Apart scope entity name scope' name') :
    ix.Mirrors (ix.set s scope entity name values lifetime) scope' name' claimed := by
  rw [AttributeIndex.set]
  split
  · exact h.clear_of_apart hap
  · exact h.replace_of_apart hap

end IdentityDirectory.AttributeIndex
