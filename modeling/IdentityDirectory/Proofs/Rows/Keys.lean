import IdentityDirectory.AttributeIndex
import IdentityDirectory.Identifier
import IdentityDirectory.Rows.Store

/-!
When keys can be told apart. The parts of an encoded key can be read back as long as none of them
holds the character that ends it, and then the run of keys that a partition scan visits is the
partition. Main statements: `RowKey.encode_inj`, `AttributeIndex.forwardKey_inj`,
`AttributeIndex.reverseKey_inj`, `StringMap.startingWith_eq_filter`.
-/

namespace IdentityDirectory

/-- Free of U+0000, which ends the partition in an encoded key. -/
def NulFree (s : String) : Prop := RowKey.partitionEnd ∉ s.toList

/-- Free also of U+001F, which stands between the parts of a partition. -/
def Plain (s : String) : Prop := NulFree s ∧ '\x1f' ∉ s.toList

instance (s : String) : Decidable (NulFree s) := inferInstanceAs (Decidable (_ ∉ _))
instance (s : String) : Decidable (Plain s) := inferInstanceAs (Decidable (_ ∧ _))

def Continues (sep : Char) (stem longer : String) : Prop := stem.toList ++ [sep] <+: longer.toList

instance (sep : Char) (stem longer : String) : Decidable (Continues sep stem longer) :=
  inferInstanceAs (Decidable (_ <+: _))

theorem Continues.mem {sep : Char} {stem longer : String} (h : Continues sep stem longer) :
    sep ∈ longer.toList :=
  h.subset (List.mem_append_right _ (List.mem_singleton_self sep))

theorem cons_append_inj {sep : Char} {a a' b b' : List Char} (ha : sep ∉ a) (ha' : sep ∉ a') :
    a ++ sep :: b = a' ++ sep :: b' ↔ a = a' ∧ b = b' := by
  induction a generalizing a' with
  | nil =>
    cases a' with
    | nil => simp
    | cons c a' =>
      have hc : sep ≠ c := fun h => ha' (h ▸ List.mem_cons_self)
      simp [hc]
  | cons c a ih =>
    have hc : c ≠ sep := fun h => ha (h ▸ List.mem_cons_self)
    cases a' with
    | nil => simp [hc]
    | cons c' a' =>
      have := @ih a' (fun h => ha (List.mem_cons_of_mem _ h)) fun h => ha' (List.mem_cons_of_mem _ h)
      simp only [List.cons_append, List.cons.injEq, this]
      exact and_assoc.symm

theorem eq_or_continues {sep : Char} {stem longer : String} {b b' : List Char}
    (hstem : sep ∉ stem.toList) (h : stem.toList ++ sep :: b = longer.toList ++ sep :: b') :
    stem = longer ∧ b = b' ∨ Continues sep stem longer := by
  by_cases hlonger : sep ∈ longer.toList
  · obtain ⟨x, y, hsplit, hx⟩ := List.eq_append_cons_of_mem hlonger
    rw [hsplit, List.append_assoc, List.cons_append, cons_append_inj hstem hx] at h
    right
    rw [Continues, hsplit, h.1]
    exact ⟨y, by simp⟩
  · left
    obtain ⟨hsame, hrest⟩ := (cons_append_inj hstem hlonger).mp h
    exact ⟨String.toList_inj.mp hsame, hrest⟩

theorem append_cons_inj {sep : Char} {a a' b b' : List Char} (ha' : sep ∉ a') (hb' : sep ∉ b') :
    a ++ sep :: b = a' ++ sep :: b' ↔ a = a' ∧ b = b' := by
  constructor
  · intro h
    have hcount : (a ++ sep :: b).count sep = 1 := by
      rw [h, List.count_append, List.count_cons_self, List.count_eq_zero.mpr ha',
        List.count_eq_zero.mpr hb']
    have ha : sep ∉ a := by
      rw [List.count_append, List.count_cons_self] at hcount
      exact List.count_eq_zero.mp (by omega)
    exact (cons_append_inj ha ha').mp h
  · rintro ⟨rfl, rfl⟩
    rfl

namespace RowKey

theorem toList_encode (k : RowKey) :
    k.encode.toList = k.partition.toList ++ partitionEnd :: k.clustering.toList := by
  simp [encode, lead]

theorem toList_lead (partition : String) :
    (lead partition).toList = partition.toList ++ [partitionEnd] := by
  simp [lead]

theorem toList_composite_two (a b : String) :
    (composite [a, b]).toList = a.toList ++ '\x1f' :: b.toList := by
  simp [composite]

theorem toList_composite_three (a b c : String) :
    (composite [a, b, c]).toList = a.toList ++ '\x1f' :: (b.toList ++ '\x1f' :: c.toList) := by
  simp [composite]

theorem encode_inj {k k' : RowKey} (h : NulFree k.partition) (h' : NulFree k'.partition) :
    k.encode = k'.encode ↔ k = k' := by
  obtain ⟨p, c⟩ := k
  obtain ⟨p', c'⟩ := k'
  rw [← String.toList_inj, toList_encode, toList_encode, cons_append_inj h h', String.toList_inj,
    String.toList_inj, RowKey.mk.injEq]

theorem nulFree_composite_two {a b : String} :
    NulFree (composite [a, b]) ↔ NulFree a ∧ NulFree b := by
  simp [NulFree, toList_composite_two, partitionEnd]

theorem nulFree_composite_three {a b c : String} :
    NulFree (composite [a, b, c]) ↔ NulFree a ∧ NulFree b ∧ NulFree c := by
  simp [NulFree, toList_composite_three, partitionEnd]

theorem composite_two_inj {a a' b b' : String} (h : '\x1f' ∉ a.toList) (h' : '\x1f' ∉ a'.toList) :
    composite [a, b] = composite [a', b'] ↔ a = a' ∧ b = b' := by
  rw [← String.toList_inj, toList_composite_two, toList_composite_two, cons_append_inj h h',
    String.toList_inj, String.toList_inj]

theorem cut_append {sep : Char} {a b : List Char} (h : sep ∉ a) :
    Text.cut sep (a ++ sep :: b) = some (a, b) := by
  induction a with
  | nil => simp [Text.cut]
  | cons c a ih =>
    have hc : c ≠ sep := fun h' => h (h' ▸ List.mem_cons_self)
    simp [Text.cut, hc, ih fun h' => h (List.mem_cons_of_mem _ h')]

theorem decode?_encode {k : RowKey} (h : NulFree k.partition) : decode? k.encode = some k := by
  simp [decode?, Text.cutAt?, toList_encode, cut_append h]

theorem eq_of_cut {sep : Char} {l a b : List Char} (h : Text.cut sep l = some (a, b)) :
    l = a ++ sep :: b ∧ sep ∉ a := by
  induction l generalizing a with
  | nil => cases h
  | cons c l ih =>
    rw [Text.cut] at h
    split at h
    · next hc =>
      obtain ⟨rfl, rfl⟩ := Prod.mk.inj (Option.some.inj h)
      exact ⟨by rw [hc]; rfl, List.not_mem_nil⟩
    · next hc =>
      obtain ⟨⟨a', b'⟩, hcut, heq⟩ := Option.map_eq_some_iff.mp h
      obtain ⟨rfl, rfl⟩ := Prod.mk.inj heq
      obtain ⟨rfl, hnot⟩ := ih hcut
      refine ⟨rfl, fun hmem => ?_⟩
      rcases List.mem_cons.mp hmem with heq | hmem
      · exact hc heq.symm
      · exact hnot hmem

theorem eq_of_decode? {key : String} {k : RowKey} (h : decode? key = some k) :
    key = k.encode ∧ NulFree k.partition := by
  obtain ⟨p, hp, rfl⟩ := Option.map_eq_some_iff.mp h
  obtain ⟨⟨a, b⟩, hcut, rfl⟩ := Option.map_eq_some_iff.mp hp
  obtain ⟨heq, hnot⟩ := eq_of_cut hcut
  refine ⟨?_, ?_⟩
  · rw [← String.toList_inj, toList_encode, heq]
    simp
  · simpa [NulFree] using hnot

theorem lead_prefix_iff {partition key : String} :
    (lead partition).toList <+: key.toList ↔ ∃ c, key = encode ⟨partition, c⟩ := by
  constructor
  · rintro ⟨rest, h⟩
    refine ⟨.ofList rest, ?_⟩
    rw [← String.toList_inj, toList_encode, ← h, toList_lead]
    simp
  · rintro ⟨c, rfl⟩
    exact ⟨c.toList, by rw [toList_encode, toList_lead]; simp⟩

theorem lead_prefix_encode_iff {k : RowKey} {partition : String} (hk : NulFree k.partition)
    (hp : NulFree partition) :
    (lead partition).toList <+: k.encode.toList ↔ k.partition = partition := by
  rw [lead_prefix_iff]
  constructor
  · rintro ⟨c, heq⟩
    have hkey : k = ⟨partition, c⟩ := (encode_inj hk hp).mp heq
    rw [hkey]
  · rintro rfl
    exact ⟨k.clustering, rfl⟩

end RowKey

theorem Identifier.mem_hexDigits {c : Char} {width n : Nat} (h : c ∈ hexDigits width n) :
    ∃ d : Fin 16, c = Nat.digitChar d := by
  induction width generalizing n with
  | zero => cases h
  | succ width ih =>
    rw [hexDigits, List.mem_append, List.mem_singleton] at h
    rcases h with h | rfl
    · exact ih h
    · exact ⟨⟨n % 16, Nat.mod_lt n (by decide)⟩, rfl⟩

theorem Identifier.hyphenated_plain (value : Nat) : Plain (hyphenated value) := by
  have hdigit : ∀ d : Fin 16, Nat.digitChar d ≠ RowKey.partitionEnd ∧ Nat.digitChar d ≠ '\x1f' := by
    decide
  have hmem : ∀ c ∈ (hyphenated value).toList, c ∈ digits value ∨ c = '-' := by
    intro c hc
    simp only [hyphenated, String.toList_ofList, List.mem_append, List.mem_singleton] at hc
    rcases hc with (((((((hc | hc) | hc) | hc) | hc) | hc) | hc) | hc) | hc
    · exact .inl (List.mem_of_mem_take hc)
    · exact .inr hc
    · exact .inl (List.mem_of_mem_drop (List.mem_of_mem_take hc))
    · exact .inr hc
    · exact .inl (List.mem_of_mem_drop (List.mem_of_mem_take hc))
    · exact .inr hc
    · exact .inl (List.mem_of_mem_drop (List.mem_of_mem_take hc))
    · exact .inr hc
    · exact .inl (List.mem_of_mem_drop hc)
  constructor
  · intro h
    rcases hmem _ h with h | h
    · obtain ⟨d, hd⟩ := mem_hexDigits h
      exact (hdigit d).1 hd.symm
    · exact absurd h (by decide)
  · intro h
    rcases hmem _ h with h | h
    · obtain ⟨d, hd⟩ := mem_hexDigits h
      exact (hdigit d).2 hd.symm
    · exact absurd h (by decide)

namespace AttributeIndex

open RowKey

theorem entityPartition_nulFree {scope entity : String} (hs : Plain scope) (he : NulFree entity) :
    NulFree (entityPartition scope entity) :=
  nulFree_composite_two.mpr ⟨hs.1, he⟩

theorem valuePartition_nulFree {scope name value : String} (hs : Plain scope) (hn : Plain name)
    (hv : NulFree value) : NulFree (valuePartition scope name value) :=
  nulFree_composite_three.mpr ⟨hs.1, hn.1, hv⟩

theorem forwardKey_inj {scope scope' entity entity' name name' : String} (hs : Plain scope)
    (he : NulFree entity) (hs' : Plain scope') (he' : NulFree entity') :
    (forwardKey scope entity name).encode = (forwardKey scope' entity' name').encode ↔
      scope = scope' ∧ entity = entity' ∧ name = name' := by
  have hk : NulFree (forwardKey scope entity name).partition := entityPartition_nulFree hs he
  have hk' : NulFree (forwardKey scope' entity' name').partition := entityPartition_nulFree hs' he'
  rw [encode_inj hk hk']
  simp only [forwardKey, entityPartition, RowKey.mk.injEq, composite_two_inj hs.2 hs'.2, and_assoc]

theorem valuePartition_inj {scope scope' name name' value value' : String} (hs : Plain scope)
    (hn : Plain name) (hs' : Plain scope') (hn' : Plain name') :
    valuePartition scope name value = valuePartition scope' name' value' ↔
      scope = scope' ∧ name = name' ∧ value = value' := by
  simp only [valuePartition]
  rw [← String.toList_inj, toList_composite_three, toList_composite_three,
    cons_append_inj hs.2 hs'.2, cons_append_inj hn.2 hn'.2, String.toList_inj, String.toList_inj,
    String.toList_inj]

theorem reverseKey_inj {scope scope' entity entity' name name' value value' : String}
    (hs : Plain scope) (hn : Plain name) (hv : NulFree value) (hs' : Plain scope')
    (hn' : Plain name') (hv' : NulFree value') :
    (reverseKey scope entity name value).encode = (reverseKey scope' entity' name' value').encode ↔
      scope = scope' ∧ name = name' ∧ value = value' ∧ entity = entity' := by
  have hk : NulFree (reverseKey scope entity name value).partition :=
    valuePartition_nulFree hs hn hv
  have hk' : NulFree (reverseKey scope' entity' name' value').partition :=
    valuePartition_nulFree hs' hn' hv'
  rw [encode_inj hk hk']
  simp only [reverseKey, RowKey.mk.injEq, valuePartition_inj hs hn hs' hn', and_assoc]

end AttributeIndex

theorem eq_of_ascending {α : Type} {f : α → String} {l l' : List α}
    (h : l.Pairwise fun a b => f a < f b) (h' : l'.Pairwise fun a b => f a < f b)
    (hmem : ∀ a, a ∈ l ↔ a ∈ l') : l = l' := by
  have hne : ∀ {a b : α}, f a < f b → a ≠ b := fun hlt heq => String.lt_irrefl _ (heq ▸ hlt)
  have hperm := (List.perm_ext_iff_of_nodup (h.imp hne) (h'.imp hne)).mpr hmem
  exact hperm.eq_of_pairwise (fun a b _ _ hab hba => absurd hba (String.lt_asymm hab)) h h'

namespace StringMap

theorem lt_of_prefix {lead k k' : List Char} (hge : ¬ k < lead) (hk : ¬ lead <+: k)
    (hk' : lead <+: k') : k' < k := by
  induction lead generalizing k k' with
  | nil => exact absurd (List.nil_prefix) hk
  | cons c lead ih =>
    obtain ⟨rest, rfl⟩ := hk'
    cases k with
    | nil => exact absurd (List.nil_lt_cons _ _) hge
    | cons d k =>
      rw [List.cons_lt_cons_iff] at hge
      rw [List.cons_append, List.cons_lt_cons_iff]
      by_cases hcd : c = d
      · subst hcd
        refine Or.inr ⟨rfl, ih (fun h => hge (Or.inr ⟨rfl, h⟩)) (fun h => hk ?_) ⟨rest, rfl⟩⟩
        exact List.cons_prefix_cons.mpr ⟨rfl, h⟩
      · refine Or.inl ?_
        have hdc : ¬ d < c := fun h => hge (Or.inl h)
        exact Decidable.byContradiction fun h =>
          hcd (Char.le_antisymm (Char.not_lt.mp hdc) (Char.not_lt.mp h))

theorem not_lt_of_prefix {lead k : List Char} (h : lead <+: k) : ¬ k < lead := by
  obtain ⟨rest, rfl⟩ := h
  induction lead with
  | nil => simp
  | cons c lead ih =>
    rw [List.cons_append, List.cons_lt_cons_iff]
    rintro (h | ⟨-, h⟩)
    · exact Char.lt_irrefl _ h
    · exact ih h

variable {α : Type}

theorem takeWhile_eq_filter_of_ascending {lead : String} {l : List (String × α)}
    (h : l.Pairwise fun a b => a.1 < b.1) (hge : ∀ e ∈ l, ¬ e.1 < lead) :
    l.takeWhile (fun e => lead.toList.isPrefixOf e.1.toList) =
      l.filter fun e => lead.toList.isPrefixOf e.1.toList := by
  induction l with
  | nil => rfl
  | cons a rest ih =>
    obtain ⟨hhead, htail⟩ := List.pairwise_cons.mp h
    have hrest := ih htail fun e he => hge e (List.mem_cons_of_mem _ he)
    by_cases hp : lead.toList.isPrefixOf a.1.toList
    · rw [List.takeWhile_cons_of_pos (by exact hp), List.filter_cons_of_pos (by exact hp), hrest]
    · rw [List.takeWhile_cons_of_neg (by exact hp), List.filter_cons_of_neg (by exact hp)]
      refine (List.filter_eq_nil_iff.mpr fun e he hpe => ?_).symm
      have hlt : e.1 < a.1 := lt_of_prefix (hge a List.mem_cons_self)
        (fun h => hp (List.isPrefixOf_iff_prefix.mpr h)) (List.isPrefixOf_iff_prefix.mp hpe)
      exact String.lt_asymm (hhead e he) hlt

theorem startingWith_eq_filter (m : StringMap α) (lead : String) :
    m.startingWith lead = m.entries.filter fun e => lead.toList.isPrefixOf e.1.toList := by
  obtain ⟨l, h⟩ := m
  simp only [startingWith]
  induction l with
  | nil => rfl
  | cons a rest ih =>
    obtain ⟨hhead, htail⟩ := List.pairwise_cons.mp h
    by_cases ha : a.1 < lead
    · have hp : ¬ lead.toList.isPrefixOf a.1.toList := fun hp =>
        not_lt_of_prefix (List.isPrefixOf_iff_prefix.mp hp) ha
      rw [List.dropWhile_cons_of_pos (by simpa using ha), List.filter_cons_of_neg (by exact hp),
        ih htail]
    · rw [List.dropWhile_cons_of_neg (by simpa using ha)]
      refine takeWhile_eq_filter_of_ascending h fun e he => ?_
      rcases List.mem_cons.mp he with rfl | he
      · exact ha
      · exact fun hlt => ha (String.lt_trans (hhead e he) hlt)

theorem get?_filterKeys (p : String → Bool) (m : StringMap α) (k : String) :
    (m.filterKeys p).get? k = if p k then m.get? k else none := by
  refine Option.ext fun v => ?_
  rw [← mem_entries_iff, filterKeys, List.mem_filter, mem_entries_iff]
  cases p k <;> simp

theorem startingWith_congr {m m' : StringMap α} {lead : String}
    (h : ∀ key : String, lead.toList <+: key.toList → m.get? key = m'.get? key) :
    m.startingWith lead = m'.startingWith lead := by
  rw [startingWith_eq_filter, startingWith_eq_filter]
  refine eq_of_ascending (f := Prod.fst) (m.ascending.filter _) (m'.ascending.filter _) fun e => ?_
  rw [List.mem_filter, List.mem_filter]
  refine and_congr_left fun hp => ?_
  rw [show e ∈ m.entries ↔ _ from mem_entries_iff (k := e.1) (v := e.2),
    show e ∈ m'.entries ↔ _ from mem_entries_iff (k := e.1) (v := e.2),
    h e.1 (List.isPrefixOf_iff_prefix.mp hp)]

end StringMap

end IdentityDirectory
