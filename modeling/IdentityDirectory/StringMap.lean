/-!
Finite maps and sets with string keys, kept in ascending order of key. The order of code points is
also the order of the encoded bytes, so it is the order in which everything stored is listed.
Main statements: what a lookup finds after an insertion or a removal, and that a map is determined
by its lookups.
-/

namespace IdentityDirectory

structure StringMap (α : Type) where
  entries : List (String × α)
  ascending : entries.Pairwise fun a b => a.1 < b.1
  deriving DecidableEq

namespace StringMap

variable {α β : Type}

def insertEntry (k : String) (v : α) : List (String × α) → List (String × α)
  | [] => [(k, v)]
  | (l, w) :: rest =>
    if k < l then (k, v) :: (l, w) :: rest
    else if k = l then (k, v) :: rest
    else (l, w) :: insertEntry k v rest

theorem mem_insertEntry {k : String} {v : α} {e : String × α} {l : List (String × α)}
    (h : e ∈ insertEntry k v l) : e = (k, v) ∨ e ∈ l := by
  induction l with
  | nil => simpa [insertEntry] using h
  | cons a rest ih =>
    rw [insertEntry] at h
    grind

theorem insertEntry_ascending (k : String) (v : α) {l : List (String × α)}
    (h : l.Pairwise fun a b => a.1 < b.1) :
    (insertEntry k v l).Pairwise fun a b => a.1 < b.1 := by
  induction l with
  | nil => simp [insertEntry]
  | cons a rest ih =>
    obtain ⟨hhead, htail⟩ := List.pairwise_cons.mp h
    rw [insertEntry]
    split
    · next hlt =>
      refine List.pairwise_cons.mpr ⟨fun e he => ?_, h⟩
      rcases List.mem_cons.mp he with rfl | he
      · exact hlt
      · exact String.lt_trans hlt (hhead e he)
    · next hge =>
      split
      · next heq => exact List.pairwise_cons.mpr ⟨fun e he => heq ▸ hhead e he, htail⟩
      · next hne =>
        refine List.pairwise_cons.mpr ⟨fun e he => ?_, ih htail⟩
        rcases mem_insertEntry he with rfl | he
        · exact Decidable.byContradiction fun hle =>
            hne (String.le_antisymm (String.not_lt.mp hle) (String.not_lt.mp hge))
        · exact hhead e he

def empty : StringMap α := ⟨[], .nil⟩

instance : EmptyCollection (StringMap α) := ⟨empty⟩
instance : Inhabited (StringMap α) := ⟨empty⟩

def get? (m : StringMap α) (k : String) : Option α := m.entries.lookup k

def insert (m : StringMap α) (k : String) (v : α) : StringMap α :=
  ⟨insertEntry k v m.entries, insertEntry_ascending k v m.ascending⟩

def erase (m : StringMap α) (k : String) : StringMap α :=
  ⟨m.entries.filter (·.1 ≠ k), m.ascending.filter _⟩

def contains (m : StringMap α) (k : String) : Bool := (m.get? k).isSome

instance : Membership String (StringMap α) := ⟨fun m k => m.contains k⟩
instance (m : StringMap α) (k : String) : Decidable (k ∈ m) :=
  inferInstanceAs (Decidable (m.contains k = true))

def keys (m : StringMap α) : List String := m.entries.map (·.1)

def values (m : StringMap α) : List α := m.entries.map (·.2)

def size (m : StringMap α) : Nat := m.entries.length

def isEmpty (m : StringMap α) : Bool := m.entries.isEmpty

def filterKeys (p : String → Bool) (m : StringMap α) : StringMap α :=
  ⟨m.entries.filter fun e => p e.1, m.ascending.filter _⟩

def startingWith (lead : String) (m : StringMap α) : List (String × α) :=
  (m.entries.dropWhile fun e => e.1 < lead).takeWhile fun e => lead.toList.isPrefixOf e.1.toList

def ofList (entries : List (String × α)) : StringMap α :=
  entries.foldl (fun m e => m.insert e.1 e.2) ∅

@[simp] theorem get?_empty (k : String) : (∅ : StringMap α).get? k = none := rfl

theorem lookup_insertEntry (k k' : String) (v : α) (l : List (String × α)) :
    (insertEntry k v l).lookup k' = if k' = k then some v else l.lookup k' := by
  induction l with
  | nil => grind [insertEntry]
  | cons a rest ih =>
    rw [insertEntry]
    by_cases h : k' = k <;> by_cases h' : k' = a.1 <;> grind

theorem get?_insert (m : StringMap α) (k k' : String) (v : α) :
    (m.insert k v).get? k' = if k' = k then some v else m.get? k' :=
  lookup_insertEntry k k' v m.entries

theorem get?_erase (m : StringMap α) (k k' : String) :
    (m.erase k).get? k' = if k' = k then none else m.get? k' := by
  simp only [get?, erase]
  induction m.entries with
  | nil => simp
  | cons a rest ih => grind

theorem mem_iff {m : StringMap α} {k : String} : k ∈ m ↔ (m.get? k).isSome := Iff.rfl

theorem not_mem_empty (k : String) : k ∉ (∅ : StringMap α) := nofun

theorem mem_entries_iff {m : StringMap α} {k : String} {v : α} :
    (k, v) ∈ m.entries ↔ m.get? k = some v := by
  obtain ⟨l, h⟩ := m
  simp only [get?]
  induction l with
  | nil => simp
  | cons a rest ih =>
    obtain ⟨hhead, htail⟩ := List.pairwise_cons.mp h
    rw [List.mem_cons, ih htail, List.lookup_cons]
    by_cases hk : k = a.1
    · have hnot : rest.lookup k ≠ some v := fun hv =>
        String.lt_irrefl k (by simpa [hk] using hhead (k, v) ((ih htail).mpr hv))
      rw [hk]
      have hnot' : rest.lookup a.1 ≠ some v := hk ▸ hnot
      grind
    · grind

theorem mem_keys_iff {m : StringMap α} {k : String} : k ∈ m.keys ↔ k ∈ m := by
  rw [keys, List.mem_map, mem_iff, Option.isSome_iff_exists]
  constructor
  · rintro ⟨e, he, rfl⟩
    exact ⟨e.2, mem_entries_iff.mp he⟩
  · rintro ⟨v, hv⟩
    exact ⟨(k, v), mem_entries_iff.mpr hv, rfl⟩

theorem mem_erase {m : StringMap α} {k k' : String} : k' ∈ m.erase k ↔ k' ≠ k ∧ k' ∈ m := by
  rw [mem_iff, mem_iff, get?_erase]
  by_cases h : k' = k <;> simp [h]

theorem isEmpty_iff {m : StringMap α} : m.isEmpty ↔ ∀ k, k ∉ m := by
  rw [isEmpty, List.isEmpty_iff]
  constructor
  · intro h k hk
    have hkey := mem_keys_iff.mpr hk
    rw [keys, h] at hkey
    exact List.not_mem_nil hkey
  · intro h
    refine List.eq_nil_iff_forall_not_mem.mpr fun e he => h e.1 ?_
    exact mem_keys_iff.mp (List.mem_map.mpr ⟨e, he, rfl⟩)

theorem isEmpty_erase {m : StringMap α} {k : String} :
    (m.erase k).isEmpty ↔ ∀ k' ∈ m, k' = k := by
  simp only [isEmpty_iff, mem_erase, not_and]
  exact forall_congr' fun k' => Decidable.not_imp_not

theorem get?_foldl_insert {l : List (String × α)} (h : (l.map (·.1)).Nodup) (m : StringMap α)
    {k : String} {v : α} : (l.foldl (fun m e => m.insert e.1 e.2) m).get? k = some v ↔
      (k, v) ∈ l ∨ k ∉ l.map (·.1) ∧ m.get? k = some v := by
  induction l generalizing m with
  | nil => simp
  | cons e l ih =>
    rw [List.map_cons, List.nodup_cons] at h
    rw [List.foldl_cons, ih h.2, get?_insert]
    have hkeys : (k, v) ∈ l → k ∈ l.map (·.1) := fun hmem => List.mem_map.mpr ⟨_, hmem, rfl⟩
    by_cases hk : k = e.1
    · subst hk
      grind
    · grind

theorem mem_ofList_iff {l : List (String × α)} (h : (l.map (·.1)).Nodup) {e : String × α} :
    e ∈ (ofList l).entries ↔ e ∈ l := by
  rw [show e ∈ (ofList l).entries ↔ _ from mem_entries_iff (k := e.1) (v := e.2), ofList,
    get?_foldl_insert h]
  simp

theorem mem_of_mem_ofList {l : List (String × α)} {e : String × α} (h : e ∈ (ofList l).entries) :
    e ∈ l := by
  have hfold : ∀ (l : List (String × α)) (m : StringMap α),
      e ∈ (l.foldl (fun m e => m.insert e.1 e.2) m).entries → e ∈ l ∨ e ∈ m.entries := by
    intro l
    induction l with
    | nil => exact fun _ h => .inr h
    | cons a l ih =>
      intro m h
      rcases ih _ h with h | h
      · exact .inl (List.mem_cons_of_mem _ h)
      · rcases mem_insertEntry h with rfl | h
        · exact .inl List.mem_cons_self
        · exact .inr h
  exact (hfold l ∅ h).resolve_right List.not_mem_nil

theorem entries_nodup (m : StringMap α) : (m.entries.map (·.1)).Nodup := by
  rw [List.nodup_iff_pairwise_ne, List.pairwise_map]
  refine m.ascending.imp ?_
  intro a b hlt heq
  exact String.lt_irrefl _ (heq ▸ hlt)

theorem ext_get? {m n : StringMap α} (h : ∀ k, m.get? k = n.get? k) : m = n := by
  obtain ⟨l, hl⟩ := m
  obtain ⟨r, hr⟩ := n
  have hmem : ∀ e, e ∈ l ↔ e ∈ r := fun e => by
    rw [show e ∈ l ↔ _ from mem_entries_iff (m := ⟨l, hl⟩) (k := e.1) (v := e.2), h,
      mem_entries_iff (m := ⟨r, hr⟩) (k := e.1) (v := e.2)]
  congr
  clear h
  induction l generalizing r with
  | nil =>
    cases r with
    | nil => rfl
    | cons b _ => exact absurd ((hmem b).mpr List.mem_cons_self) (by simp)
  | cons a rest ih =>
    cases r with
    | nil => exact absurd ((hmem a).mp List.mem_cons_self) (by simp)
    | cons b more =>
      obtain ⟨ha, hrest⟩ := List.pairwise_cons.mp hl
      obtain ⟨hb, hmore⟩ := List.pairwise_cons.mp hr
      have hab : a = b := by
        rcases List.mem_cons.mp ((hmem a).mp List.mem_cons_self) with h | h
        · exact h
        rcases List.mem_cons.mp ((hmem b).mpr List.mem_cons_self) with h' | h'
        · exact h'.symm
        · exact absurd (ha b h') (String.lt_asymm (hb a h))
      subst hab
      rw [ih hrest more hmore fun e => ?_]
      have := hmem e
      constructor
      · intro he
        rcases List.mem_cons.mp (this.mp (List.mem_cons_of_mem _ he)) with rfl | h
        · exact absurd (ha e he) (String.lt_irrefl _)
        · exact h
      · intro he
        rcases List.mem_cons.mp (this.mpr (List.mem_cons_of_mem _ he)) with rfl | h
        · exact absurd (hb e he) (String.lt_irrefl _)
        · exact h

end StringMap

abbrev StringSet := StringMap Unit

namespace StringSet

def insert (s : StringSet) (k : String) : StringSet := StringMap.insert s k ()

def ofList (keys : List String) : StringSet := keys.foldl insert ∅

def toList (s : StringSet) : List String := s.keys

def union (s t : StringSet) : StringSet := t.toList.foldl insert s

theorem mem_insert {s : StringSet} {k k' : String} : k' ∈ s.insert k ↔ k' = k ∨ k' ∈ s := by
  rw [StringMap.mem_iff, StringMap.mem_iff, insert, StringMap.get?_insert]
  by_cases h : k' = k <;> simp [h]

theorem mem_toList {s : StringSet} {k : String} : k ∈ s.toList ↔ k ∈ s := StringMap.mem_keys_iff

theorem ext_mem {s t : StringSet} (h : ∀ k, k ∈ s ↔ k ∈ t) : s = t := by
  refine StringMap.ext_get? fun k => ?_
  have hk := h k
  rw [StringMap.mem_iff, StringMap.mem_iff] at hk
  cases hs : s.get? k <;> cases ht : t.get? k <;> simp_all

theorem mem_foldl_insert {l : List String} {s : StringSet} {k : String} :
    k ∈ l.foldl insert s ↔ k ∈ s ∨ k ∈ l := by
  induction l generalizing s with
  | nil => simp
  | cons a l ih =>
    rw [List.foldl_cons, ih, mem_insert, List.mem_cons, or_assoc, or_left_comm]

theorem mem_union {s t : StringSet} {k : String} : k ∈ s.union t ↔ k ∈ s ∨ k ∈ t := by
  rw [union, mem_foldl_insert, mem_toList]

end StringSet

end IdentityDirectory
