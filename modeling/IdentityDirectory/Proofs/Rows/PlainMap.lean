import IdentityDirectory.Proofs.Rows.Calls

/-!
A plain map from tables and keys to entries that may end: no versions, no sweeps, no encoded keys.
Main statements: `find?_insert`, `find?_erase`, and `eq_listed`, that a listing is known by its
members and its order.
-/

namespace IdentityDirectory.RowStore

def precedes (a b : RowKey) : Bool :=
  a.partition < b.partition || (a.partition = b.partition && a.clustering ≤ b.clustering)

structure PlainMap where
  now : Int
  entries : List ((Table × RowKey) × Entry)
  distinct : (entries.map (·.1)).Nodup

namespace PlainMap

def empty (now : Int) : PlainMap := ⟨now, [], List.nodup_nil⟩

variable (m : PlainMap) (t : Table) (key : RowKey)

def find? : Option Entry := m.entries.lookup (t, key)

def present : Option Entry := (m.find? t key).filter (·.isPresent m.now)

def listed (p : RowKey → Bool) : List (RowKey × Entry) :=
  ((m.entries.filter fun e => e.1.1 = t && p e.1.2 && e.2.isPresent m.now).map
    fun e => (e.1.2, e.2)).mergeSort fun a b => precedes a.1 b.1

def erase (p : RowKey → Bool) : PlainMap where
  now := m.now
  entries := m.entries.filter fun e => !(e.1.1 = t && p e.1.2)
  distinct := m.distinct.sublist (List.filter_sublist.map _)

theorem notMem_erase : (t, key) ∉ (m.erase t (· = key)).entries.map (·.1) := by
  intro h
  obtain ⟨e, he, heq⟩ := List.mem_map.mp h
  have hne := (List.mem_filter.mp he).2
  simp [heq] at hne

def insert (payload : Payload) (lifetime : Option Int) : PlainMap where
  now := m.now
  entries := ((t, key), ⟨payload, lifetime.map (Lifetime.deadline · m.now)⟩) ::
    (m.erase t (· = key)).entries
  distinct := List.nodup_cons.mpr ⟨m.notMem_erase t key, (m.erase t (· = key)).distinct⟩

/-- A map has no versions, and a sweep does nothing to it. -/
def perform : Call → Answer × PlainMap
  | .put t key payload lifetime => (.done, m.insert t key payload lifetime)
  | .putIfAbsent t key payload lifetime =>
    if (m.present t key).isSome then (.flag false, m)
    else (.flag true, m.insert t key payload lifetime)
  | .putIfVersion .. => (.done, m)
  | .putIfPartitionVacant t key payload lifetime =>
    if (m.listed t fun k => k.partition = key.partition && k ≠ key).isEmpty then
      (.flag true, m.insert t key payload lifetime)
    else (.flag false, m)
  | .get t key => (.entry (m.present t key), m)
  | .take t key => (.entry (m.present t key), m.erase t (· = key))
  | .delete t key => (.flag (m.present t key).isSome, m.erase t (· = key))
  | .deletePartition t partition =>
    (.count (m.listed t (·.partition = partition)).length, m.erase t (·.partition = partition))
  | .scanPartition t partition => (.listed (m.listed t (·.partition = partition)), m)
  | .scanTable t => (.listed (m.listed t fun _ => true), m)
  | .deleteExpired => (.done, m)
  | .moveClock millis => (.done, { m with now := m.now + millis })

def run (m : PlainMap) : List Call → List Answer × PlainMap
  | [] => ([], m)
  | call :: rest =>
    let (answer, m') := m.perform call
    let (answers, m'') := run m' rest
    (answer :: answers, m'')

variable {m t key} {u : Table} {key' : RowKey} {e : Entry} {p : RowKey → Bool}

theorem lookup_eq_some_iff {α β : Type} [BEq α] [LawfulBEq α] {l : List (α × β)}
    (h : (l.map (·.1)).Nodup) {a : α} {b : β} : l.lookup a = some b ↔ (a, b) ∈ l := by
  induction l with
  | nil => simp
  | cons e l ih =>
    obtain ⟨a', b'⟩ := e
    rw [List.map_cons, List.nodup_cons] at h
    rw [List.lookup_cons, List.mem_cons, Prod.mk.injEq]
    by_cases ha : a = a'
    · subst ha
      have hnot : (a, b) ∉ l := fun hmem => h.1 (List.mem_map.mpr ⟨_, hmem, rfl⟩)
      simp [hnot, eq_comm]
    · have hne : (a == a') = false := beq_eq_false_iff_ne.mpr ha
      simp [hne, ha, ih h.2]

theorem find?_eq_some_iff : m.find? t key = some e ↔ ((t, key), e) ∈ m.entries :=
  lookup_eq_some_iff m.distinct

theorem find?_erase :
    (m.erase t p).find? u key = if u = t ∧ p key then none else m.find? u key := by
  refine Option.ext fun e => ?_
  rw [find?_eq_some_iff, erase, List.mem_filter]
  split
  · next h => simp [h]
  · next h =>
    rw [find?_eq_some_iff]
    simp only [Bool.not_eq_true', Bool.and_eq_false_iff, decide_eq_false_iff_not]
    exact and_iff_left ((Decidable.not_and_iff_not_or_not.mp h).imp_right eq_false_of_ne_true)

theorem find?_insert {payload : Payload} {lifetime : Option Int} :
    (m.insert t key payload lifetime).find? u key' =
      if u = t ∧ key' = key then some ⟨payload, lifetime.map (Lifetime.deadline · m.now)⟩
      else m.find? u key' := by
  have hcons : (m.insert t key payload lifetime).find? u key' =
      if (u, key') = (t, key) then some ⟨payload, lifetime.map (Lifetime.deadline · m.now)⟩
      else (m.erase t (· = key)).find? u key' := by
    rw [find?, insert, List.lookup_cons]
    split <;> simp_all [find?]
  rw [hcons, find?_erase]
  simp only [Prod.mk.injEq, decide_eq_true_eq]
  split <;> simp_all

theorem precedes_iff {a b : RowKey} : precedes a b ↔
    a.partition < b.partition ∨ a.partition = b.partition ∧ a.clustering ≤ b.clustering := by
  simp [precedes]

theorem precedes_trans {a b c : RowKey} (hab : precedes a b) (hbc : precedes b c) :
    precedes a c := by
  rw [precedes_iff] at *
  rcases hab with hab | ⟨hab, hab'⟩ <;> rcases hbc with hbc | ⟨hbc, hbc'⟩
  · exact .inl (String.lt_trans hab hbc)
  · exact .inl (hbc ▸ hab)
  · exact .inl (hab ▸ hbc)
  · exact .inr ⟨hab.trans hbc, String.le_trans hab' hbc'⟩

theorem precedes_total (a b : RowKey) : precedes a b || precedes b a := by
  rw [Bool.or_eq_true, precedes_iff, precedes_iff]
  by_cases hlt : a.partition < b.partition
  · exact .inl (.inl hlt)
  by_cases hgt : b.partition < a.partition
  · exact .inr (.inl hgt)
  have heq := String.le_antisymm (String.not_lt.mp hgt) (String.not_lt.mp hlt)
  rcases String.le_total a.clustering b.clustering with h | h
  · exact .inl (.inr ⟨heq, h⟩)
  · exact .inr (.inr ⟨heq.symm, h⟩)

theorem precedes_antisymm {a b : RowKey} (hab : precedes a b) (hba : precedes b a) : a = b := by
  obtain ⟨p, c⟩ := a
  obtain ⟨p', c'⟩ := b
  rw [precedes_iff] at *
  rcases hab with hab | ⟨hab, hab'⟩ <;> rcases hba with hba | ⟨hba, hba'⟩
  · exact absurd hba (String.lt_asymm hab)
  · exact absurd (hba ▸ hab) (String.lt_irrefl _)
  · exact absurd (hab ▸ hba) (String.lt_irrefl _)
  · obtain rfl : p = p' := hab
    obtain rfl : c = c' := String.le_antisymm hab' hba'
    rfl

theorem mem_listed_iff : (key, e) ∈ m.listed t p ↔ p key ∧ m.present t key = some e := by
  rw [listed, List.mem_mergeSort, List.mem_map, present, Option.filter_eq_some_iff,
    find?_eq_some_iff]
  constructor
  · rintro ⟨⟨⟨u, k⟩, e'⟩, hmem, heq⟩
    obtain ⟨rfl, rfl⟩ := Prod.mk.inj heq
    obtain ⟨hentry, hp⟩ := List.mem_filter.mp hmem
    simp only [Bool.and_eq_true, decide_eq_true_eq] at hp
    obtain ⟨⟨rfl, hp⟩, hpresent⟩ := hp
    exact ⟨hp, hentry, hpresent⟩
  · rintro ⟨hp, hmem, hpresent⟩
    refine ⟨((t, key), e), List.mem_filter.mpr ⟨hmem, ?_⟩, rfl⟩
    simp [hp, hpresent]

theorem listed_ordered : (m.listed t p).Pairwise fun a b => precedes a.1 b.1 := by
  have htrans : ∀ a b c : RowKey × Entry,
      precedes a.1 b.1 → precedes b.1 c.1 → precedes a.1 c.1 := fun _ _ _ => precedes_trans
  have htotal : ∀ a b : RowKey × Entry, precedes a.1 b.1 || precedes b.1 a.1 :=
    fun a b => precedes_total a.1 b.1
  exact List.pairwise_mergeSort htrans htotal _

theorem listed_nodup : (m.listed t p).Nodup := by
  refine (List.mergeSort_perm _ _).nodup_iff.mpr ?_
  rw [List.nodup_iff_pairwise_ne, List.pairwise_map]
  have hdistinct : m.entries.Pairwise fun a b => a.1 ≠ b.1 := List.pairwise_map.mp m.distinct
  refine (hdistinct.filter _).imp_of_mem fun {a b} ha hb hne heq => hne ?_
  have hta := (List.mem_filter.mp ha).2
  have htb := (List.mem_filter.mp hb).2
  simp only [Bool.and_eq_true, decide_eq_true_eq] at hta htb
  exact Prod.ext (hta.1.1.trans htb.1.1.symm) (Prod.mk.inj heq).1

theorem eq_listed {found : List (RowKey × Entry)}
    (hmem : ∀ key e, (key, e) ∈ found ↔ p key ∧ m.present t key = some e)
    (hord : found.Pairwise fun a b => precedes a.1 b.1 ∧ a.1 ≠ b.1) : found = m.listed t p := by
  have hnodup : found.Nodup := hord.imp fun {a b} h heq => h.2 (congrArg Prod.fst heq)
  have hperm : found.Perm (m.listed t p) :=
    (List.perm_ext_iff_of_nodup hnodup listed_nodup).mpr fun e =>
      (hmem e.1 e.2).trans mem_listed_iff.symm
  refine hperm.eq_of_pairwise ?_ (hord.imp And.left) listed_ordered
  rintro ⟨k, e⟩ ⟨k', e'⟩ he he' hle hge
  obtain rfl : k = k' := precedes_antisymm hle hge
  have hpresent := ((hmem k e).mp he).2
  rw [(mem_listed_iff.mp he').2] at hpresent
  rw [Option.some.inj hpresent]

end PlainMap

theorem append_cons_lt_iff {sep : Char} (hsep : ∀ c, c ≠ sep → sep < c) {a a' b b' : List Char}
    (ha : sep ∉ a) (ha' : sep ∉ a') (h : a ++ sep :: b < a' ++ sep :: b') :
    a < a' ∨ a = a' ∧ b < b' := by
  induction a generalizing a' with
  | nil =>
    cases a' with
    | nil =>
      refine .inr ⟨rfl, ?_⟩
      rcases List.cons_lt_cons_iff.mp h with hlt | ⟨-, hlt⟩
      · exact absurd hlt (Char.lt_irrefl sep)
      · exact hlt
    | cons d a' => exact .inl (List.nil_lt_cons _ _)
  | cons c a ih =>
    have hc : c ≠ sep := fun heq => ha (heq ▸ List.mem_cons_self)
    cases a' with
    | nil =>
      rcases List.cons_lt_cons_iff.mp h with hlt | ⟨heq, -⟩
      · exact absurd hlt (Char.lt_asymm (hsep c hc))
      · exact absurd heq hc
    | cons d a' =>
      rcases List.cons_lt_cons_iff.mp h with hlt | ⟨rfl, hlt⟩
      · exact .inl (List.cons_lt_cons_iff.mpr (.inl hlt))
      · have hrest := ih (fun hm => ha (List.mem_cons_of_mem _ hm))
          (fun hm => ha' (List.mem_cons_of_mem _ hm)) hlt
        rcases hrest with hhead | ⟨rfl, htail⟩
        · exact .inl (List.cons_lt_cons_iff.mpr (.inr ⟨rfl, hhead⟩))
        · exact .inr ⟨rfl, htail⟩

theorem partitionEnd_lt {c : Char} (h : c ≠ RowKey.partitionEnd) : RowKey.partitionEnd < c := by
  refine Decidable.byContradiction fun hnot => h (Char.le_antisymm (Char.not_lt.mp hnot) ?_)
  exact UInt32.zero_le

theorem precedes_of_encode_lt {k k' : RowKey} (hk : NulFree k.partition)
    (hk' : NulFree k'.partition) (h : k.encode < k'.encode) : precedes k k' ∧ k ≠ k' := by
  refine ⟨?_, fun heq => String.lt_irrefl _ (heq ▸ h)⟩
  have h : k.encode.toList < k'.encode.toList := h
  rw [RowKey.toList_encode, RowKey.toList_encode] at h
  rw [PlainMap.precedes_iff]
  rcases append_cons_lt_iff (fun _ => partitionEnd_lt) hk hk' h with hlt | ⟨heq, hlt⟩
  · exact .inl hlt
  · exact .inr ⟨String.toList_inj.mp heq, String.not_lt.mp (String.lt_asymm hlt)⟩

end IdentityDirectory.RowStore
