import IdentityDirectory.Proofs.Rows.Contents

/-!
Scans, and the operations that go over a whole partition. Main statements: `mem_scan_iff`, what a
partition scan lists, `scan_ascending`, its order, `rowAt_removePartition` and
`putIfPartitionVacant_eq`.
-/

namespace IdentityDirectory.RowStore

variable (s : RowStore) (t : Table)

def rows : List (String × Row) :=
  (s.table t).entries.filterMap fun e => e.2.row?.map (e.1, ·)

def inPartition (partition : String) : List (String × Row) :=
  (s.rows t).filter fun e => (RowKey.lead partition).toList.isPrefixOf e.1.toList

def scan (partition : String) : List (RowKey × Row) := s.live (s.inPartition t partition)

def removePartition (partition : String) : RowStore :=
  (s.inPartition t partition).foldl (fun s e => s.removeRow t e.1 e.2) s

variable {s t} {u : Table} {key : String} {partition : String}

theorem mem_rows_iff {row : Row} : (key, row) ∈ s.rows t ↔ s.rowAt t key = some row := by
  simp only [rows, List.mem_filterMap, Option.map_eq_some_iff, Prod.mk.injEq, rowAt,
    Option.bind_eq_some_iff]
  constructor
  · rintro ⟨⟨k, cell⟩, hmem, r, hcell, rfl, rfl⟩
    exact ⟨cell, StringMap.mem_entries_iff.mp hmem, hcell⟩
  · rintro ⟨cell, hget, hcell⟩
    exact ⟨(key, cell), StringMap.mem_entries_iff.mpr hget, row, hcell, rfl, rfl⟩

theorem rows_ascending : (s.rows t).Pairwise fun a b => a.1 < b.1 := by
  rw [rows, List.pairwise_filterMap]
  refine (s.table t).ascending.imp fun {a b} hab c hc d hd => ?_
  simp only [Option.map_eq_some_iff] at hc hd
  obtain ⟨_, _, rfl⟩ := hc
  obtain ⟨_, _, rfl⟩ := hd
  exact hab

theorem rowsOf_eq {l : List (String × Cell)} (h : ∀ e ∈ l, e.2 ≠ .unreadable) :
    rowsOf l = .ok (l.filterMap fun e => e.2.row?.map (e.1, ·)) := by
  induction l with
  | nil => rfl
  | cons e l ih =>
    have ih := ih fun e he => h e (List.mem_cons_of_mem _ he)
    obtain ⟨k, cell⟩ := e
    cases cell with
    | row r =>
      rw [rowsOf, List.mapM_cons, ← rowsOf, ih]
      rfl
    | unreadable => exact absurd rfl (h _ List.mem_cons_self)

theorem Readable.entries (h : s.Readable t) : ∀ e ∈ (s.table t).entries, e.2 ≠ .unreadable :=
  fun e he hu => h e.1 (StringMap.mem_entries_iff.mp (hu ▸ he))

theorem tableRows_eq (h : s.Readable t) : s.tableRows t = .ok (s.rows t) := rowsOf_eq h.entries

theorem partitionRows_eq (h : s.Readable t) (partition : String) :
    s.partitionRows t partition = .ok (s.inPartition t partition) := by
  rw [partitionRows, StringMap.startingWith_eq_filter,
    rowsOf_eq fun e he => h.entries e (List.mem_filter.mp he).1, inPartition, rows]
  congr 1
  induction (s.table t).entries with
  | nil => rfl
  | cons e l ih =>
    obtain ⟨k, cell⟩ := e
    cases cell <;> by_cases hk : (RowKey.lead partition).toList.isPrefixOf k.toList <;>
      simp_all [Cell.row?]

theorem mem_inPartition_iff {row : Row} : (key, row) ∈ s.inPartition t partition ↔
    s.rowAt t key = some row ∧ (RowKey.lead partition).toList <+: key.toList := by
  rw [inPartition, List.mem_filter, mem_rows_iff, List.isPrefixOf_iff_prefix]

theorem scanPartition_eq (h : s.Readable t) (partition : String) :
    s.scanPartition t partition = .ok (s.scan t partition) := by
  rw [scanPartition, partitionRows_eq h]
  rfl

theorem mem_scan {k : RowKey} {row : Row} : (k, row) ∈ s.scan t partition ↔
    ∃ key, s.rowAt t key = some row ∧ row.isLive s.now ∧ RowKey.decode? key = some k ∧
      (RowKey.lead partition).toList <+: key.toList := by
  simp only [scan, live, List.mem_filterMap, Prod.exists]
  constructor
  · rintro ⟨key, r, hmem, hsome⟩
    obtain ⟨hrow, hlead⟩ := mem_inPartition_iff.mp hmem
    split at hsome
    · next hlive =>
      obtain ⟨k', hk', heq⟩ := Option.map_eq_some_iff.mp hsome
      obtain ⟨rfl, rfl⟩ := Prod.mk.inj heq
      exact ⟨key, hrow, hlive, hk', hlead⟩
    · cases hsome
  · rintro ⟨key, hrow, hlive, hk, hlead⟩
    exact ⟨key, row, mem_inPartition_iff.mpr ⟨hrow, hlead⟩, by simp [hlive, hk]⟩

theorem mem_scan_iff (hp : NulFree partition) {k : RowKey} {row : Row} :
    (k, row) ∈ s.scan t partition ↔
      k.partition = partition ∧ s.rowAt t k.encode = some row ∧ row.isLive s.now := by
  rw [mem_scan]
  constructor
  · rintro ⟨key, hrow, hlive, hk, hlead⟩
    obtain ⟨c, rfl⟩ := RowKey.lead_prefix_iff.mp hlead
    rw [RowKey.decode?_encode (k := ⟨partition, c⟩) hp] at hk
    obtain rfl := Option.some.inj hk
    exact ⟨rfl, hrow, hlive⟩
  · rintro ⟨rfl, hrow, hlive⟩
    exact ⟨k.encode, hrow, hlive, RowKey.decode?_encode hp,
      RowKey.lead_prefix_iff.mpr ⟨k.clustering, rfl⟩⟩

theorem lt_of_append_lt {l a b : List Char} (h : l ++ a < l ++ b) : a < b := by
  induction l with
  | nil => exact h
  | cons c l ih =>
    rw [List.cons_append, List.cons_append, List.cons_lt_cons_iff] at h
    rcases h with h | ⟨-, h⟩
    · exact absurd h (Char.lt_irrefl c)
    · exact ih h

theorem lt_of_encode_lt {partition c c' : String}
    (h : RowKey.encode ⟨partition, c⟩ < RowKey.encode ⟨partition, c'⟩) : c < c' := by
  have h : (RowKey.encode ⟨partition, c⟩).toList < (RowKey.encode ⟨partition, c'⟩).toList := h
  rw [RowKey.toList_encode, RowKey.toList_encode] at h
  exact lt_of_append_lt (l := [RowKey.partitionEnd]) (lt_of_append_lt h)

theorem live_ascending {l : List (String × Row)} (h : l.Pairwise fun a b => a.1 < b.1) :
    (s.live l).Pairwise fun e e' => e.1.encode < e'.1.encode := by
  rw [live, List.pairwise_filterMap]
  have keyed : ∀ {e : String × Row} {f : RowKey × Row},
      (if e.2.isLive s.now then (RowKey.decode? e.1).map (·, e.2) else none) = some f →
      e.1 = f.1.encode := by
    intro e f hsome
    split at hsome
    · obtain ⟨k, hk, rfl⟩ := Option.map_eq_some_iff.mp hsome
      exact (RowKey.eq_of_decode? hk).1
    · cases hsome
  refine h.imp fun {e e'} hlt f hf f' hf' => ?_
  rw [← keyed hf, ← keyed hf']
  exact hlt

theorem scan_encode_ascending :
    (s.scan t partition).Pairwise fun a b => a.1.encode < b.1.encode :=
  live_ascending (rows_ascending.filter _)

theorem scan_ascending (hp : NulFree partition) :
    (s.scan t partition).Pairwise fun a b => a.1.clustering < b.1.clustering := by
  refine scan_encode_ascending.imp_of_mem fun {a b} ha hb hab => ?_
  obtain ⟨⟨p, c⟩, row⟩ := a
  obtain ⟨⟨p', c'⟩, row'⟩ := b
  obtain rfl : p = partition := ((mem_scan_iff hp).mp ha).1
  obtain rfl : p' = p := ((mem_scan_iff hp).mp hb).1
  exact lt_of_encode_lt hab

theorem scan_clustering_nodup (hp : NulFree partition) :
    ((s.scan t partition).map (·.1.clustering)).Nodup := by
  rw [List.nodup_iff_pairwise_ne, List.pairwise_map]
  refine (scan_ascending hp).imp ?_
  intro a b hlt heq
  exact String.lt_irrefl _ (heq ▸ hlt)

theorem length_scan (hp : NulFree partition) :
    (s.scan t partition).length = (s.inPartition t partition).countP (·.2.isLive s.now) := by
  rw [scan, live, List.length_filterMap_eq_countP]
  refine List.countP_congr fun e he => ?_
  obtain ⟨c, hc⟩ := RowKey.lead_prefix_iff.mp (mem_inPartition_iff.mp he).2
  rw [hc, RowKey.decode?_encode (k := ⟨partition, c⟩) hp]
  split <;> simp_all

theorem deletePartition_eq (h : s.Readable t) (partition : String) :
    s.deletePartition t partition =
      .ok ((s.inPartition t partition).countP (·.2.isLive s.now), s.removePartition t partition) := by
  rw [deletePartition, partitionRows_eq h]
  rfl

theorem get?_foldl_removeRow (l : List (String × Row)) (s : RowStore) (u : Table) (key : String) :
    ((l.foldl (fun s e => s.removeRow t e.1 e.2) s).table u).get? key =
      if u = t ∧ key ∈ l.map (·.1) then none else (s.table u).get? key := by
  induction l generalizing s with
  | nil => simp
  | cons e l ih =>
    rw [List.foldl_cons, ih, table_removeRow]
    by_cases hu : u = t
    · subst hu
      simp only [true_and, ↓reduceIte, StringMap.get?_erase, List.map_cons, List.mem_cons]
      by_cases hm : key ∈ l.map (·.1) <;> by_cases hk : key = e.1 <;> simp [hm, hk]
    · simp [hu]

theorem get?_removePartition (s : RowStore) (t : Table) (partition : String) (u : Table)
    (key : String) :
    ((s.removePartition t partition).table u).get? key =
      if u = t ∧ key ∈ (s.inPartition t partition).map (·.1) then none
      else (s.table u).get? key :=
  get?_foldl_removeRow _ _ _ _

theorem rowAt_removePartition (s : RowStore) (t : Table) (partition : String) (u : Table)
    (key : String) :
    (s.removePartition t partition).rowAt u key =
      if u = t ∧ (RowKey.lead partition).toList <+: key.toList then none else s.rowAt u key := by
  rw [rowAt, get?_removePartition]
  by_cases hu : u = t
  · subst hu
    simp only [true_and]
    split
    · next hmem =>
      obtain ⟨⟨k, row⟩, he, rfl⟩ := List.mem_map.mp hmem
      rw [if_pos (mem_inPartition_iff.mp he).2]
      rfl
    · next hmem =>
      split
      · next hlead =>
        cases hrow : s.rowAt u key with
        | none => exact hrow
        | some row =>
          have he := mem_inPartition_iff.mpr ⟨hrow, hlead⟩
          exact absurd (List.mem_map.mpr ⟨_, he, rfl⟩) hmem
      · rfl
  · simp [hu, rowAt]

theorem table_removePartition_of_ne (h : u ≠ t) (partition : String) :
    (s.removePartition t partition).table u = s.table u :=
  StringMap.ext_get? fun key => by rw [get?_removePartition, if_neg fun hu => h hu.1]

theorem now_removePartition (partition : String) : (s.removePartition t partition).now = s.now := by
  rw [removePartition]
  generalize s.inPartition t partition = l
  induction l generalizing s with
  | nil => rfl
  | cons e l ih => exact ih

theorem Readable.removePartition (h : s.Readable u) (partition : String) :
    (s.removePartition t partition).Readable u := by
  intro key
  rw [get?_removePartition]
  split
  · simp
  · exact h key

def Occupied (s : RowStore) (t : Table) (key : RowKey) : Prop :=
  ∃ e ∈ s.inPartition t key.partition, e.1 ≠ key.encode ∧ e.2.isLive s.now

instance (s : RowStore) (t : Table) (key : RowKey) : Decidable (s.Occupied t key) :=
  inferInstanceAs (Decidable (∃ e ∈ _, _))

theorem lookup_inPartition (key : RowKey) :
    (s.inPartition t key.partition).lookup key.encode = s.rowAt t key.encode := by
  have hasc : (s.inPartition t key.partition).Pairwise fun a b => a.1 < b.1 :=
    rows_ascending.filter _
  refine Option.ext fun row => ?_
  rw [show (s.inPartition t key.partition).lookup key.encode = some row ↔ _ from
    (StringMap.mem_entries_iff (m := ⟨_, hasc⟩)).symm, mem_inPartition_iff]
  exact and_iff_left (RowKey.lead_prefix_iff.mpr ⟨key.clustering, rfl⟩)

theorem putIfPartitionVacant_eq (h : s.Readable t) (key : RowKey) (payload : Payload)
    (lifetime : Option Int) :
    s.putIfPartitionVacant t key payload lifetime =
      if s.Occupied t key then .ok (false, s)
      else .ok (true, s.write t key.encode payload lifetime) := by
  have hany : ((s.inPartition t key.partition).any fun e =>
      e.1 ≠ key.encode && e.2.isLive s.now) = decide (s.Occupied t key) := by
    rw [Bool.eq_iff_iff, decide_eq_true_iff]
    simp [Occupied]
  rw [putIfPartitionVacant, partitionRows_eq h]
  simp only [bind, Except.bind, hany, decide_eq_true_eq, lookup_inPartition]
  rfl

theorem occupied_iff {key : RowKey} (hp : NulFree key.partition) : s.Occupied t key ↔
    ∃ c row, c ≠ key.clustering ∧ s.rowAt t (RowKey.encode ⟨key.partition, c⟩) = some row ∧
      row.isLive s.now := by
  simp only [Occupied, Prod.exists]
  constructor
  · rintro ⟨k, row, hmem, hne, hlive⟩
    obtain ⟨hrow, hlead⟩ := mem_inPartition_iff.mp hmem
    obtain ⟨c, rfl⟩ := RowKey.lead_prefix_iff.mp hlead
    exact ⟨c, row, fun h => hne (by rw [h]), hrow, hlive⟩
  · rintro ⟨c, row, hne, hrow, hlive⟩
    refine ⟨_, row, mem_inPartition_iff.mpr ⟨hrow, RowKey.lead_prefix_iff.mpr ⟨c, rfl⟩⟩, ?_, hlive⟩
    exact fun h => hne (congrArg RowKey.clustering
      ((RowKey.encode_inj (k := ⟨key.partition, c⟩) hp hp).mp h))

end IdentityDirectory.RowStore
