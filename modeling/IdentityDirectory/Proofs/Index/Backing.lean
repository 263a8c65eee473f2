import IdentityDirectory.Proofs.Index.Claims

/-!
Index rows that do not outlive what they are about. Every forward row has values and belongs to an
attribute that may be there, and every reverse row names one of these values, or a name that is mirrored
anyway. Main statements: `Backed.set`, `Backed.settle`, `Backed.claim`, `Backed.clear` and
`Backed.clearAll` for the changes of rows, and `Backed.attribute_of_seen`, by which an index row that
is seen belongs to an attribute with values.
-/

namespace IdentityDirectory.AttributeIndex

/-- No row is seen, now or later on, that belongs to no attribute. -/
structure Backed (ix : AttributeIndex) (s : RowStore) (M : String → Prop)
    (P : String → String → String → Prop) : Prop where
  forward : ∀ key time, s.now ≤ time → (s.seen ix.forward key time).isSome →
    ∃ scope entity name, key = (forwardKey scope entity name).encode ∧ Plain scope ∧
      NulFree entity ∧ P scope entity name ∧ ix.valuesAt s scope entity name time ≠ []
  reverse : ∀ key time, s.now ≤ time → (s.seen ix.reverse key time).isSome →
    ∃ scope entity name value, key = (reverseKey scope entity name value).encode ∧ Plain scope ∧
      (M name ∧ NulFree value ∨ NulFree entity ∧ value ∈ ix.valuesAt s scope entity name time)

variable {ix : AttributeIndex} {s s' : RowStore} {scope scope' entity entity' name name' : String}
  {value key : String} {values entities : List String} {lifetime : Option Int} {time : Int}
  {M : String → Prop} {P P' : String → String → String → Prop}

theorem isSome_seen_of_mem_valuesAt (h : value ∈ ix.valuesAt s scope entity name time) :
    (s.seen ix.forward (forwardKey scope entity name).encode time).isSome := by
  rw [valuesAt, RowStore.recordAt] at h
  cases hseen : s.seen ix.forward (forwardKey scope entity name).encode time with
  | none =>
    rw [hseen] at h
    cases h
  | some payload => rfl

theorem Backed.admits (h : ix.Backed s M P) (hs : Plain scope) (he : NulFree entity)
    (hle : s.now ≤ time) (hmem : value ∈ ix.valuesAt s scope entity name time) :
    P scope entity name := by
  obtain ⟨scope', entity', name', hkey, hs', he', hP, -⟩ :=
    h.forward _ time hle (isSome_seen_of_mem_valuesAt hmem)
  obtain ⟨rfl, rfl, rfl⟩ := (forwardKey_inj hs he hs' he').mp hkey
  exact hP

theorem backed_empty (ix : AttributeIndex) (now : Int) (M : String → Prop)
    (P : String → String → String → Prop) : ix.Backed (.empty now) M P where
  forward key time _ hseen := by
    rw [RowStore.seen_empty] at hseen
    cases hseen
  reverse key time _ hseen := by
    rw [RowStore.seen_empty] at hseen
    cases hseen

theorem Backed.congr (h : ix.Backed s M P) (hle : s.now ≤ s'.now)
    (hf : ∀ key time, s'.now ≤ time → s'.seen ix.forward key time = s.seen ix.forward key time)
    (hr : ∀ key time, s'.now ≤ time → (s'.seen ix.reverse key time).isSome →
      (s.seen ix.reverse key time).isSome) : ix.Backed s' M P := by
  have hvalues : ∀ scope entity name time, s'.now ≤ time →
      ix.valuesAt s' scope entity name time = ix.valuesAt s scope entity name time := by
    intro scope entity name time hlater
    rw [valuesAt, valuesAt, RowStore.recordAt, RowStore.recordAt, hf _ time hlater]
  constructor
  · intro key time hlater hseen
    rw [hf key time hlater] at hseen
    obtain ⟨scope, entity, name, hkey, hs, he, hP, hne⟩ :=
      h.forward key time (Int.le_trans hle hlater) hseen
    exact ⟨scope, entity, name, hkey, hs, he, hP, hvalues scope entity name time hlater ▸ hne⟩
  · intro key time hlater hseen
    obtain ⟨scope, entity, name, value, hkey, hs, hvalue⟩ :=
      h.reverse key time (Int.le_trans hle hlater) (hr key time hlater hseen)
    refine ⟨scope, entity, name, value, hkey, hs, hvalue.imp_right ?_⟩
    rw [hvalues scope entity name time hlater]
    exact id

theorem Backed.congr_tables (h : ix.Backed s M P) (hf : s'.table ix.forward = s.table ix.forward)
    (hr : s'.table ix.reverse = s.table ix.reverse) (hn : s'.now = s.now) : ix.Backed s' M P := by
  apply h.congr (Int.le_of_eq hn.symm)
  · exact fun key time _ => RowStore.seen_congr hf key time
  · intro key time _ hseen
    rwa [RowStore.seen_congr hr] at hseen

theorem Backed.later (h : ix.Backed s M P) {now : Int} (hle : s.now ≤ now) :
    ix.Backed { s with now } M P :=
  h.congr hle (fun _ _ _ => rfl) fun _ _ _ hseen => hseen

theorem Backed.reclaimed (h : ix.Backed s M P) (hs : RowStore.Reclaimed s s') :
    ix.Backed s' M P := by
  apply h.congr (Int.le_of_eq hs.now.symm)
  · exact fun key time hle => hs.seen_eq (hs.now ▸ hle)
  · intro key time hle hseen
    rwa [hs.seen_eq (hs.now ▸ hle)] at hseen

theorem Backed.mono (h : ix.Backed s M P)
    (hP : ∀ scope entity name, Plain scope → NulFree entity → P scope entity name →
      P' scope entity name) : ix.Backed s M P' where
  forward key time hle hseen := by
    obtain ⟨scope, entity, name, hkey, hs, he, hadmitted, hne⟩ := h.forward key time hle hseen
    exact ⟨scope, entity, name, hkey, hs, he, hP scope entity name hs he hadmitted, hne⟩
  reverse := h.reverse

theorem Backed.removeReverse (h : ix.Backed s M P) (key : String) :
    ix.Backed (s.remove ix.reverse key) M P := by
  apply h.congr (Int.le_of_eq (s.now_remove _ _).symm)
  · exact fun key' time _ =>
      RowStore.seen_congr (s.table_remove_of_ne ix.forward_ne_reverse key) key' time
  · intro key' time _ hseen
    rw [RowStore.seen_remove] at hseen
    split at hseen
    · cases hseen
    · exact hseen

theorem Backed.unlist (h : ix.Backed s M P) :
    ix.Backed (ix.unlist s scope entity name values) M P := by
  induction values generalizing s with
  | nil => exact h
  | cons v values ih => exact ih (h.removeReverse _)

theorem Backed.foldl_unlist (h : ix.Backed s M P) (l : List (String × List String)) :
    ix.Backed (l.foldl (fun s e => ix.unlist s scope entity e.1 e.2) s) M P := by
  induction l generalizing s with
  | nil => exact h
  | cons e l ih => exact ih h.unlist

theorem Backed.writeReverse (h : ix.Backed s M P) (hs : Plain scope) {payload : Payload}
    (hvalue : M name ∧ NulFree value ∨ ∀ time, s.now ≤ time → Lifetime.lasts lifetime s.now time →
      NulFree entity ∧ value ∈ ix.valuesAt s scope entity name time) :
    ix.Backed (s.write ix.reverse (reverseKey scope entity name value).encode payload lifetime) M P := by
  have hf := s.table_write_of_ne ix.forward_ne_reverse (reverseKey scope entity name value).encode
    payload lifetime
  constructor
  · intro key time hle hseen
    rw [RowStore.seen_congr hf] at hseen
    simp only [valuesAt_congr hf]
    exact h.forward key time hle hseen
  · intro key time hle hseen
    simp only [valuesAt_congr hf]
    rw [RowStore.seen_write] at hseen
    split at hseen
    · next hkey =>
      refine ⟨scope, entity, name, value, hkey.2, hs, hvalue.imp_right fun hlasting => ?_⟩
      split at hseen
      · next hlasts => exact hlasting time hle hlasts
      · cases hseen
    · exact h.reverse key time hle hseen

theorem Backed.claim (h : ix.Backed s M P) (hs : Plain scope) (hn : M name) (hv : NulFree value)
    (entity : String) : ix.Backed (ix.claim s scope entity name value) M P :=
  h.writeReverse hs (.inl ⟨hn, hv⟩)

theorem Backed.change (h : ix.Backed s M P) (hnow : s'.now = s.now)
    (hforward : ∀ key time, s.now ≤ time → (s'.seen ix.forward key time).isSome →
      ∃ scope entity name, key = (forwardKey scope entity name).encode ∧ Plain scope ∧
        NulFree entity ∧ P' scope entity name ∧ ix.valuesAt s' scope entity name time ≠ [])
    (hreverse : ∀ key time, s.now ≤ time → (s'.seen ix.reverse key time).isSome →
      (s.seen ix.reverse key time).isSome ∨
        ∃ scope entity name value, key = (reverseKey scope entity name value).encode ∧
          Plain scope ∧ NulFree entity ∧ value ∈ ix.valuesAt s' scope entity name time)
    (hvalues : ∀ scope entity name value time, Plain scope → NulFree entity → s.now ≤ time →
      value ∈ ix.valuesAt s scope entity name time →
      (s'.seen ix.reverse (reverseKey scope entity name value).encode time).isSome →
      value ∈ ix.valuesAt s' scope entity name time) : ix.Backed s' M P' := by
  constructor
  · intro key time hle
    exact hforward key time (hnow ▸ hle)
  · intro key time hle hseen
    rw [hnow] at hle
    rcases hreverse key time hle hseen with hold | ⟨scope, entity, name, value, hkey, hs, he, hmem⟩
    · obtain ⟨scope, entity, name, value, rfl, hs, hvalue⟩ := h.reverse key time hle hold
      refine ⟨scope, entity, name, value, rfl, hs, hvalue.imp_right ?_⟩
      rintro ⟨he, hmem⟩
      exact ⟨he, hvalues scope entity name value time hs he hle hmem hseen⟩
    · exact ⟨scope, entity, name, value, hkey, hs, .inr ⟨he, hmem⟩⟩

theorem seen_of_unlist
    (h : ((ix.unlist s scope entity name values).seen ix.reverse key time).isSome) :
    key ∉ reverseKeys scope entity name values ∧ (s.seen ix.reverse key time).isSome := by
  rw [seen_unlist] at h
  split at h
  · cases h
  · next hnot => exact ⟨fun hmem => hnot ⟨rfl, hmem⟩, h⟩

theorem mem_own_reverseKeys_iff : (reverseKey scope entity name value).encode ∈
    reverseKeys scope entity name values ↔ value ∈ values := by
  rw [reverseKeys, List.mem_map]
  constructor
  · rintro ⟨v, hv, hkey⟩
    rw [← String.toList_inj, toList_reverseKey, toList_reverseKey] at hkey
    simp only [List.append_cancel_left_eq, List.cons.injEq, true_and,
      List.append_cancel_right_eq, String.toList_inj] at hkey
    exact hkey ▸ hv
  · exact fun hv => ⟨value, hv, rfl⟩

section Attribute

variable (h : ix.Backed s M P) (hs : Plain scope) (he : NulFree entity)
include h hs he

theorem Backed.clear : ix.Backed (ix.clear s scope entity name) M P := by
  have hremoved : (s.remove ix.forward (forwardKey scope entity name).encode).table ix.reverse = _ :=
    s.table_remove_of_ne ix.forward_ne_reverse.symm _
  have hunlisted : (ix.clear s scope entity name).table ix.forward = _ :=
    table_unlist_of_ne ix.forward_ne_reverse
  apply h.change
  · exact within_clear.now
  · intro key time hle hseen
    rw [RowStore.seen_congr hunlisted, RowStore.seen_remove] at hseen
    split at hseen
    · cases hseen
    · next hnot =>
      obtain ⟨scope', entity', name', rfl, hs', he', hP, hne⟩ := h.forward key time hle hseen
      refine ⟨scope', entity', name', rfl, hs', he', hP, ?_⟩
      rw [valuesAt_clear hs he hs' he', if_neg]
      · exact hne
      · rintro ⟨rfl, rfl, rfl⟩
        exact hnot ⟨rfl, rfl⟩
  · intro key time _ hseen
    have hold := (seen_of_unlist hseen).2
    rw [RowStore.seen_congr hremoved] at hold
    exact .inl hold
  · intro scope' entity' name' value time hs' he' hle hmem hseen
    rw [valuesAt_clear hs he hs' he', if_neg]
    · exact hmem
    · rintro ⟨rfl, rfl, rfl⟩
      -- The value was there now, too, and so its reverse row has been withdrawn.
      exact (seen_of_unlist hseen).1 (List.mem_map.mpr ⟨value, mem_valuesAt_of_le hle hmem, rfl⟩)

theorem Backed.replace (hP : P scope entity name) (hne : values ≠ []) :
    ix.Backed (ix.replace s scope entity name values lifetime) M P := by
  have hforward : ∀ key time, (ix.replace s scope entity name values lifetime).seen ix.forward key
      time = (ix.writeForward s scope entity name values lifetime).seen ix.forward key time := by
    intro key time
    rw [AttributeIndex.replace, RowStore.seen_congr (table_list_of_ne ix.forward_ne_reverse),
      RowStore.seen_congr (table_unlist_of_ne ix.forward_ne_reverse)]
  -- A reverse row is written now, or is an old one that is neither written nor withdrawn.
  have hreverse : ∀ key time,
      ((ix.replace s scope entity name values lifetime).seen ix.reverse key time).isSome →
        key ∈ reverseKeys scope entity name values ∧ Lifetime.lasts lifetime s.now time ∨
        key ∉ reverseKeys scope entity name values ∧
          key ∉ reverseKeys scope entity name
            ((ix.valuesAt s scope entity name s.now).filter (· ∉ values)) ∧
          (s.seen ix.reverse key time).isSome := by
    intro key time hseen
    rw [AttributeIndex.replace, seen_list, now_unlist] at hseen
    split at hseen
    · next hlisted =>
      split at hseen
      · next hlasts => exact .inl ⟨hlisted.2, hlasts⟩
      · cases hseen
    · next hnot =>
      obtain ⟨hkept, hold⟩ := seen_of_unlist hseen
      rw [AttributeIndex.writeForward,
        RowStore.seen_congr (s.table_write_of_ne ix.forward_ne_reverse.symm _ _ _)] at hold
      exact .inr ⟨fun hmem => hnot ⟨rfl, hmem⟩, hkept, hold⟩
  apply h.change
  · rw [AttributeIndex.replace, now_list, now_unlist, AttributeIndex.writeForward,
      RowStore.now_write]
  · intro key time hle hseen
    rw [hforward, AttributeIndex.writeForward, RowStore.seen_write] at hseen
    split at hseen
    · next hkey =>
      split at hseen
      · next hlasts =>
        refine ⟨scope, entity, name, hkey.2, hs, he, hP, ?_⟩
        rw [valuesAt_replace hs he hs he, if_pos ⟨rfl, rfl, rfl⟩, if_pos hlasts]
        exact hne
      · cases hseen
    · next hnot =>
      obtain ⟨scope', entity', name', rfl, hs', he', hP', hne'⟩ := h.forward key time hle hseen
      refine ⟨scope', entity', name', rfl, hs', he', hP', ?_⟩
      rw [valuesAt_replace hs he hs' he', if_neg]
      · exact hne'
      · rintro ⟨rfl, rfl, rfl⟩
        exact hnot ⟨rfl, rfl⟩
  · intro key time _ hseen
    rcases hreverse key time hseen with ⟨hmem, hlasts⟩ | ⟨-, -, hold⟩
    · obtain ⟨v, hv, rfl⟩ := List.mem_map.mp hmem
      refine .inr ⟨scope, entity, name, v, rfl, hs, he, ?_⟩
      rw [valuesAt_replace hs he hs he, if_pos ⟨rfl, rfl, rfl⟩, if_pos hlasts]
      exact hv
    · exact .inl hold
  · intro scope' entity' name' value time hs' he' hle hmem hseen
    rw [valuesAt_replace hs he hs' he']
    split
    · next hsame =>
      obtain ⟨rfl, rfl, rfl⟩ := hsame
      have hnow := mem_valuesAt_of_le hle hmem
      rcases hreverse _ time hseen with ⟨hlisted, hlasts⟩ | ⟨hnew, hkept, -⟩
      · rw [if_pos hlasts]
        exact mem_own_reverseKeys_iff.mp hlisted
      · -- An old value is either written again or withdrawn.
        rw [mem_own_reverseKeys_iff] at hnew hkept
        exact absurd (List.mem_filter.mpr ⟨hnow, decide_eq_true hnew⟩) hkept
    · exact hmem

theorem Backed.settle (hP : P scope entity name) (value : String) :
    ix.Backed (ix.settle s scope entity name value) M P := by
  have hreplaced : ix.Backed (ix.replace s scope entity name [value] none) M P :=
    h.replace hs he hP (List.cons_ne_nil _ _)
  have hsame : ix.replace s scope entity name [value] none =
      ix.list (ix.settle s scope entity name value) scope entity name [value] none := by
    rw [AttributeIndex.replace, AttributeIndex.settle]
    simp only [List.mem_singleton]
  rw [hsame] at hreplaced
  -- The commit writes no reverse row, as the claim has done so.
  apply hreplaced.congr (Int.le_of_eq now_list)
  · exact fun key time _ => (RowStore.seen_congr (table_list_of_ne ix.forward_ne_reverse) key time).symm
  · intro key time _ hseen
    rw [seen_list]
    split
    · rfl
    · exact hseen

theorem Backed.set (hP : P scope entity name) :
    ix.Backed (ix.set s scope entity name values lifetime) M P := by
  rw [AttributeIndex.set]
  split
  · exact h.clear hs he
  · next hne => exact h.replace hs he hP hne

theorem Backed.setEach {l : List (String × List String)} (hP : ∀ e ∈ l, P scope entity e.1) :
    ix.Backed (ix.setEach s scope entity l lifetime) M P := by
  induction l generalizing s with
  | nil => exact h
  | cons e l ih =>
    apply ih
    · exact h.set hs he (hP e List.mem_cons_self)
    · exact fun f hf => hP f (List.mem_cons_of_mem _ hf)

end Attribute

theorem Backed.clearAll (h : ix.Backed s M P) (hsound : ix.Sound s) (hs : Plain scope)
    (hfree : NulFree entity ∨ ∀ scope entity name, P scope entity name → NulFree name) :
    ix.Backed (ix.clearAll s scope entity) M fun scope' entity' name =>
      P scope' entity' name ∧ ¬ (scope' = scope ∧ entity' = entity) := by
  -- Either the entity can be told from the name that follows it, or no name could be taken for a
  -- part of the entity.
  have hvalues : ∀ scope' entity' name' time, Plain scope' → NulFree entity' →
      P scope' entity' name' → ix.valuesAt (ix.clearAll s scope entity) scope' entity' name' time =
        if scope' = scope ∧ entity' = entity then []
        else ix.valuesAt s scope' entity' name' time := by
    intro scope' entity' name' time hs' he' hP
    rcases hfree with he | hnames
    · exact valuesAt_clearAll hs he hs' he'
    · exact valuesAt_clearAll_of_nulFree hs hs' he' (hnames scope' entity' name' hP)
  let unlisted := (ix.attributesAt s scope entity).entries.foldl
    (fun s e => ix.unlist s scope entity e.1 e.2) s
  have hunlisted : unlisted.table ix.forward = s.table ix.forward :=
    table_foldl_unlist_of_ne ix.forward_ne_reverse _ s
  have hnow : unlisted.now = s.now := now_foldl_unlist _ s
  have hbacked : ix.Backed unlisted M P := h.foldl_unlist _
  apply hbacked.change (RowStore.now_removePartition _)
  · intro key time hle hseen
    rw [RowStore.seen_removePartition] at hseen
    split at hseen
    · cases hseen
    · next hnot =>
      obtain ⟨scope', entity', name', rfl, hs', he', hP, hne⟩ := hbacked.forward key time hle hseen
      have hother : ¬ (scope' = scope ∧ entity' = entity) := by
        rintro ⟨rfl, rfl⟩
        exact hnot ⟨rfl, RowKey.lead_prefix_iff.mpr ⟨name', rfl⟩⟩
      refine ⟨scope', entity', name', rfl, hs', he', ⟨hP, hother⟩, ?_⟩
      rw [valuesAt_congr hunlisted] at hne
      rw [← AttributeIndex.clearAll, hvalues scope' entity' name' time hs' he' hP, if_neg hother]
      exact hne
  · intro key time _ hseen
    rw [RowStore.seen_congr
      (RowStore.table_removePartition_of_ne ix.forward_ne_reverse.symm _)] at hseen
    exact .inl hseen
  · intro scope' entity' name' value time hs' he' hle hmem hseen
    rw [hnow] at hle
    rw [valuesAt_congr hunlisted] at hmem
    have hP := h.admits hs' he' hle hmem
    rw [← AttributeIndex.clearAll, hvalues scope' entity' name' time hs' he' hP, if_neg]
    · exact hmem
    · rintro ⟨rfl, rfl⟩
      have hattribute := mem_attributesAt_of_mem_valuesAt hsound hs' he' (mem_valuesAt_of_le hle hmem)
      have hlists : ix.Lists (ix.clearAll s scope' entity') scope' name' value entity' time := hseen
      exact (lists_clearAll.mp hlists).1 _ hattribute
        (List.mem_map.mpr ⟨value, mem_valuesAt_of_le hle hmem, rfl⟩)

theorem Backed.clearEach (h : ix.Backed s M P) (hsound : ix.Sound s) (hs : Plain scope)
    (hfree : (∀ e ∈ entities, NulFree e) ∨ ∀ scope entity name, P scope entity name → NulFree name) :
    ix.Backed (ix.clearEach s scope entities) M fun scope' entity' name =>
      P scope' entity' name ∧ ¬ (scope' = scope ∧ entity' ∈ entities) := by
  induction entities generalizing s P with
  | nil => exact h.mono fun _ _ _ _ _ hP => ⟨hP, fun hmem => by cases hmem.2⟩
  | cons e entities ih =>
    have hfirst := h.clearAll hsound hs (hfree.imp_left fun hall => hall e List.mem_cons_self)
    have hrest := ih hfirst (sound_clearAll hsound) (hfree.imp
      (fun hall f hf => hall f (List.mem_cons_of_mem _ hf))
      fun hnames scope entity name hP => hnames scope entity name hP.1)
    apply hrest.mono
    rintro scope' entity' name' - - ⟨⟨hP, hfirst⟩, hrest⟩
    refine ⟨hP, ?_⟩
    rintro ⟨hscope, hmem⟩
    rcases List.mem_cons.mp hmem with heq | hmem
    · exact hfirst ⟨hscope, heq⟩
    · exact hrest ⟨hscope, hmem⟩

theorem Backed.attribute_of_seen (h : ix.Backed s M P) {A : String → Prop}
    (hregular : ix.Regular s A M) {t : Table} (ht : t = ix.forward ∨ t = ix.reverse)
    (hseen : (s.seen t key s.now).isSome) :
    ∃ scope entity name, Plain scope ∧ NulFree entity ∧ P scope entity name ∧
      ix.valuesAt s scope entity name s.now ≠ [] ∧
      (t = ix.forward ∧ key = (forwardKey scope entity name).encode ∨
        t = ix.reverse ∧ ∃ value, key = (reverseKey scope entity name value).encode) := by
  rcases ht with rfl | rfl
  · obtain ⟨scope, entity, name, hkey, hs, he, hP, hne⟩ := h.forward key _ (Int.le_refl _) hseen
    exact ⟨scope, entity, name, hs, he, hP, hne, .inl ⟨rfl, hkey⟩⟩
  · obtain ⟨scope, entity, name, value, rfl, hs, hvalue⟩ := h.reverse key _ (Int.le_refl _) hseen
    have hmem : NulFree entity ∧ value ∈ ix.valuesAt s scope entity name s.now := by
      rcases hvalue with ⟨hn, hv⟩ | hmem
      · obtain ⟨he, hmem | hclaimed⟩ :=
          ((hregular.mirrors scope name hs hn).lists_iff entity value s.now hv (Int.le_refl _)).mp
            hseen
        · exact ⟨he, hmem⟩
        · exact hclaimed.elim
      · exact hmem
    exact ⟨scope, entity, name, hs, hmem.1, h.admits hs hmem.1 (Int.le_refl _) hmem.2,
      List.ne_nil_of_mem hmem.2, .inr ⟨rfl, value, rfl⟩⟩

end IdentityDirectory.AttributeIndex
