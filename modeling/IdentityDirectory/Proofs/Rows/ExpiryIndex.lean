import IdentityDirectory.Proofs.Rows.Calls
import IdentityDirectory.Proofs.Rows.Deadlines

/-!
The expiry index of a store that was written by the calls of the row store alone has one entry for
each row with a deadline. Entries of rows that have expired come first, so a sweep finds them all and
nothing else. Main statements: `Indexed`, kept by every call, `deleteExpired_spec`,
`expiry_index_exact`.
-/

namespace IdentityDirectory.RowStore

variable {s s' : RowStore} {t u : Table} {key key' entry : String} {row : Row} {instant : Int}

def entryAt (s : RowStore) (t : Table) (key : String) : Option String :=
  (s.rowAt t key).bind fun row =>
    row.expiresAt.map fun instant => Deadline.encode ⟨instant, t, key⟩

theorem entryAt_eq_some_iff : s.entryAt t key = some entry ↔ ∃ row instant,
    s.rowAt t key = some row ∧ row.expiresAt = some instant ∧
      Deadline.encode ⟨instant, t, key⟩ = entry := by
  simp only [entryAt, Option.bind_eq_some_iff, Option.map_eq_some_iff]
  exact ⟨fun ⟨row, hrow, instant, h⟩ => ⟨row, instant, hrow, h⟩,
    fun ⟨row, instant, hrow, h⟩ => ⟨row, hrow, instant, h⟩⟩

/-- The entries of the expiry index are those of the rows that have a deadline. -/
structure Indexed (s : RowStore) : Prop where
  readable : ∀ t, s.Readable t
  bounded : ∀ {t key row instant}, s.rowAt t key = some row → row.expiresAt = some instant →
    instant ≤ Time.latest
  entries : ∀ {entry}, entry ∈ s.deadlines ↔ ∃ t key, s.entryAt t key = some entry

theorem Indexed.entryAt_inj (h : s.Indexed) (he : s.entryAt t key = some entry)
    (he' : s.entryAt u key' = some entry) : t = u ∧ key = key' := by
  obtain ⟨row, instant, hrow, hat, rfl⟩ := entryAt_eq_some_iff.mp he
  obtain ⟨row', instant', hrow', hat', heq⟩ := entryAt_eq_some_iff.mp he'
  obtain ⟨-, ht, hk⟩ := (Deadline.encode_inj (h.bounded hrow' hat') (h.bounded hrow hat)).mp heq
  exact ⟨ht.symm, hk.symm⟩

theorem indexed_empty (now : Int) : (empty now).Indexed where
  readable := readable_empty now
  bounded hrow _ := by rw [rowAt_empty] at hrow; cases hrow
  entries {entry} := by
    constructor
    · intro h
      cases h
    · rintro ⟨t, key, h⟩
      rw [entryAt, rowAt_empty] at h
      cases h

theorem Indexed.moved (h : s.Indexed) (now : Int) : { s with now }.Indexed :=
  ⟨h.readable, h.bounded, h.entries⟩

structure Replaced (s s' : RowStore) (t : Table) (key : String) (new : Option Row) : Prop where
  readable : ∀ u, s.Readable u → s'.Readable u
  rows : ∀ u key', s'.rowAt u key' = if u = t ∧ key' = key then new else s.rowAt u key'
  entries : ∀ entry, entry ∈ s'.deadlines ↔
    (∃ row instant, new = some row ∧ row.expiresAt = some instant ∧
      Deadline.encode ⟨instant, t, key⟩ = entry) ∨
    entry ∈ s.deadlines ∧ s.entryAt t key ≠ some entry

theorem Replaced.entryAt_of_ne {new : Option Row} (h : Replaced s s' t key new)
    (hne : ¬ (u = t ∧ key' = key)) : s'.entryAt u key' = s.entryAt u key' := by
  rw [entryAt, entryAt, h.rows, if_neg hne]

theorem Indexed.replaced {new : Option Row} (h : s.Indexed) (hs : Replaced s s' t key new)
    (hnew : ∀ row instant, new = some row → row.expiresAt = some instant →
      instant ≤ Time.latest) : s'.Indexed where
  readable u := hs.readable u (h.readable u)
  bounded {u key' row instant} hrow hat := by
    rw [hs.rows] at hrow
    split at hrow
    · exact hnew row instant hrow hat
    · exact h.bounded hrow hat
  entries {entry} := by
    have hat : s'.rowAt t key = new := by rw [hs.rows, if_pos ⟨rfl, rfl⟩]
    rw [hs.entries, h.entries]
    constructor
    · rintro (⟨row, instant, rfl, hinstant, henc⟩ | ⟨⟨u, key', he⟩, hne⟩)
      · exact ⟨t, key, entryAt_eq_some_iff.mpr ⟨row, instant, hat, hinstant, henc⟩⟩
      · refine ⟨u, key', ?_⟩
        rw [hs.entryAt_of_ne fun hk => hne (hk.1 ▸ hk.2 ▸ he)]
        exact he
    · rintro ⟨u, key', he⟩
      by_cases hk : u = t ∧ key' = key
      · obtain ⟨rfl, rfl⟩ := hk
        obtain ⟨row, instant, hrow, hinstant, henc⟩ := entryAt_eq_some_iff.mp he
        exact .inl ⟨row, instant, hat ▸ hrow, hinstant, henc⟩
      · rw [hs.entryAt_of_ne hk] at he
        -- Another row cannot have the entry of this one.
        exact .inr ⟨⟨u, key', he⟩, fun hsame => hk (h.entryAt_inj he hsame)⟩

theorem mem_dropEntry (hrow : s.rowAt t key = some row) :
    entry ∈ s.dropEntry t key row ↔ entry ∈ s.deadlines ∧ s.entryAt t key ≠ some entry := by
  rw [dropEntry, entryAt, hrow, Option.bind_some]
  cases row.expiresAt with
  | none => simp
  | some instant =>
    rw [StringMap.mem_erase, Option.map_some]
    exact ⟨fun ⟨hne, hmem⟩ => ⟨hmem, fun heq => hne (Option.some.inj heq).symm⟩,
      fun ⟨hmem, hne⟩ => ⟨fun heq => hne (congrArg some heq.symm), hmem⟩⟩

theorem replaced_remove (s : RowStore) (t : Table) (key : String) :
    Replaced s (s.remove t key) t key none where
  readable u hu := hu.remove key
  rows u key' := rowAt_remove s t key u key'
  entries entry := by
    rw [remove]
    cases hrow : s.rowAt t key with
    | none => simp [entryAt, hrow]
    | some row => exact (mem_dropEntry hrow).trans (by simp)

theorem deadlines_write (s : RowStore) (t : Table) (key : String) (payload : Payload)
    (lifetime : Option Int) : (s.write t key payload lifetime).deadlines =
      match (s.successor (s.rowAt t key) payload lifetime).expiresAt with
      | none => (s.remove t key).deadlines
      | some instant => (s.remove t key).deadlines.insert (Deadline.encode ⟨instant, t, key⟩) := by
  rw [write, remove]
  cases s.rowAt t key <;> rfl

theorem replaced_write (s : RowStore) (t : Table) (key : String) (payload : Payload)
    (lifetime : Option Int) : Replaced s (s.write t key payload lifetime) t key
      (some (s.successor (s.rowAt t key) payload lifetime)) where
  readable u hu := hu.write key payload lifetime
  rows u key' := rowAt_write s t key payload lifetime u key'
  entries entry := by
    have hkept := (replaced_remove s t key).entries entry
    simp only [reduceCtorEq, false_and, exists_false, false_or] at hkept
    rw [deadlines_write, ← hkept]
    generalize s.successor (s.rowAt t key) payload lifetime = new
    cases hat : new.expiresAt with
    | none => simp [hat]
    | some instant => simp [StringSet.mem_insert, hat, eq_comm]

theorem Indexed.remove (h : s.Indexed) (t : Table) (key : String) : (s.remove t key).Indexed :=
  h.replaced (replaced_remove s t key) fun _ _ hnew _ => by cases hnew

theorem Indexed.write (h : s.Indexed) (t : Table) (key : String) (payload : Payload)
    (lifetime : Option Int) : (s.write t key payload lifetime).Indexed := by
  refine h.replaced (replaced_write s t key payload lifetime) fun row instant hnew hat => ?_
  obtain rfl := Option.some.inj hnew
  obtain ⟨l, -, rfl⟩ := Option.map_eq_some_iff.mp hat
  exact Int.max_le.mpr ⟨by decide, Int.min_le_left _ _⟩

theorem Indexed.foldl_removeRow {l : List (String × Row)} (h : s.Indexed)
    (hrows : ∀ e ∈ l, s.rowAt t e.1 = some e.2) (hkeys : (l.map (·.1)).Nodup) :
    (l.foldl (fun s e => s.removeRow t e.1 e.2) s).Indexed := by
  induction l generalizing s with
  | nil => exact h
  | cons e l ih =>
    rw [List.map_cons, List.nodup_cons] at hkeys
    have hstep : s.removeRow t e.1 e.2 = s.remove t e.1 := by
      rw [RowStore.remove, hrows e List.mem_cons_self]
    rw [List.foldl_cons, hstep]
    apply ih (h.remove t e.1) _ hkeys.2
    intro e' he'
    have hne : e'.1 ≠ e.1 := fun heq => hkeys.1 (List.mem_map.mpr ⟨e', he', heq⟩)
    rw [rowAt_remove, if_neg fun hk => hne hk.2]
    exact hrows e' (List.mem_cons_of_mem _ he')

theorem Indexed.removePartition (h : s.Indexed) (t : Table) (partition : String) :
    (s.removePartition t partition).Indexed := by
  have hkeys : ((s.inPartition t partition).map (·.1)).Nodup := by
    rw [List.nodup_iff_pairwise_ne, List.pairwise_map]
    refine (rows_ascending.filter _).imp ?_
    intro a b hlt heq
    exact String.lt_irrefl _ (heq ▸ hlt)
  exact h.foldl_removeRow (fun e he => (mem_inPartition_iff.mp he).1) hkeys

def isDue (r : Row) (now : Int) : Bool := r.expiresAt.any (· ≤ now)

theorem dueEntries_eq_filter {now : Int} {l : List String} (hl : l.Pairwise (· < ·))
    (hread : ∀ e ∈ l, ∃ d : Deadline, d.instant ≤ Time.latest ∧ d.encode = e) :
    dueEntries now l = l.filter fun e => (Deadline.decode? e).any (·.instant ≤ now) := by
  induction l with
  | nil => rfl
  | cons e rest ih =>
    obtain ⟨hhead, htail⟩ := List.pairwise_cons.mp hl
    have hrest := fun e he => hread e (List.mem_cons_of_mem _ he)
    obtain ⟨d, hd, rfl⟩ := hread e List.mem_cons_self
    rw [dueEntries, Deadline.decode?_encode hd]
    by_cases hdue : max d.instant 0 ≤ now
    · simp [hdue, Deadline.decode?_encode hd, ih htail hrest]
    · have hlater : ∀ e ∈ rest, ¬ (Deadline.decode? e).any (·.instant ≤ now) := by
        intro e he
        obtain ⟨d', hd', rfl⟩ := hrest e he
        have := Deadline.instant_le_of_encode_lt hd (hhead _ he)
        rw [Deadline.decode?_encode hd']
        simp only [Option.any_some, decide_eq_true_eq]
        omega
      simp only [hdue, ↓reduceIte]
      rw [List.filter_cons_of_neg (by simpa [Deadline.decode?_encode hd] using hdue),
        List.filter_eq_nil_iff.mpr hlater]

theorem Indexed.mem_toList (h : s.Indexed) :
    entry ∈ s.deadlines.toList ↔ ∃ t key, s.entryAt t key = some entry :=
  StringMap.mem_keys_iff.trans h.entries

theorem Indexed.dueEntries_eq (h : s.Indexed) (now : Int) :
    dueEntries now s.deadlines.toList =
      s.deadlines.toList.filter fun e => (Deadline.decode? e).any (·.instant ≤ now) := by
  apply dueEntries_eq_filter
  · exact List.pairwise_map.mpr s.deadlines.ascending
  · intro e he
    obtain ⟨t, key, hat⟩ := h.mem_toList.mp he
    obtain ⟨row, instant, hrow, hinstant, rfl⟩ := entryAt_eq_some_iff.mp hat
    exact ⟨_, h.bounded hrow hinstant, rfl⟩

theorem Indexed.mem_dueEntries_iff (h : s.Indexed) {now : Int} :
    entry ∈ dueEntries now s.deadlines.toList ↔ ∃ t key row instant, s.rowAt t key = some row ∧
      row.expiresAt = some instant ∧ max instant 0 ≤ now ∧
      Deadline.encode ⟨instant, t, key⟩ = entry := by
  -- A sweep takes a negative deadline for zero, as the index has it.
  rw [h.dueEntries_eq, List.mem_filter, h.mem_toList]
  constructor
  · rintro ⟨⟨t, key, hat⟩, hdue⟩
    obtain ⟨row, instant, hrow, hinstant, rfl⟩ := entryAt_eq_some_iff.mp hat
    rw [Deadline.decode?_encode (h.bounded hrow hinstant)] at hdue
    exact ⟨t, key, row, instant, hrow, hinstant, by simpa using hdue, rfl⟩
  · rintro ⟨t, key, row, instant, hrow, hinstant, hdue, rfl⟩
    refine ⟨⟨t, key, entryAt_eq_some_iff.mpr ⟨row, instant, hrow, hinstant, rfl⟩⟩, ?_⟩
    rw [Deadline.decode?_encode (h.bounded hrow hinstant)]
    simpa using hdue

theorem Indexed.dueEntries_nodup (h : s.Indexed) (now : Int) :
    (dueEntries now s.deadlines.toList).Nodup := by
  rw [h.dueEntries_eq]
  exact s.deadlines.entries_nodup.filter _

theorem get?_remove (hrow : s.rowAt t key = some row) (u : Table) (key' : String) :
    ((s.remove t key).table u).get? key' =
      if u = t ∧ key' = key then none else (s.table u).get? key' := by
  rw [remove, hrow, table_removeRow]
  by_cases hu : u = t
  · subst hu
    simp [StringMap.get?_erase]
  · simp [hu]

theorem reclaim_eq (h : s.Indexed) (hrow : s.rowAt t key = some row)
    (hat : row.expiresAt = some instant) (hdue : instant ≤ s.now) :
    s.reclaim (Deadline.encode ⟨instant, t, key⟩) =
      .ok (1, s.setTable t ((s.table t).erase key)) := by
  have hdead : row.isLive s.now = false := by
    simp only [Row.isLive, hat, decide_eq_false_iff_not]
    omega
  rw [reclaim, Deadline.decode?_encode (h.bounded hrow hat)]
  simp only [row?_eq (h.readable t), hrow, bind, Except.bind, hdead]
  rfl

theorem reclaimAll_spec {l : List String} (h : s.Indexed) (hnodup : l.Nodup)
    (hl : ∀ entry ∈ l, ∃ t key row instant, s.rowAt t key = some row ∧
      row.expiresAt = some instant ∧ instant ≤ s.now ∧
      Deadline.encode ⟨instant, t, key⟩ = entry) :
    ∃ s', s.reclaimAll l = .ok (l.length, s') ∧ s'.Indexed ∧ s'.now = s.now ∧
      ∀ u key', (s'.table u).get? key' =
        if (s.entryAt u key').any (· ∈ l) then none else (s.table u).get? key' := by
  induction l generalizing s with
  | nil => exact ⟨s, rfl, h, rfl, fun u key' => by cases s.entryAt u key' <;> rfl⟩
  | cons entry rest ih =>
    obtain ⟨hnot, hrest⟩ := List.nodup_cons.mp hnodup
    obtain ⟨t, key, row, instant, hrow, hat, hdue, henc⟩ := hl entry List.mem_cons_self
    have hentry : s.entryAt t key = some entry :=
      entryAt_eq_some_iff.mpr ⟨row, instant, hrow, hat, henc⟩
    have hsame : ∀ {u key'}, ¬ (u = t ∧ key' = key) →
        (s.remove t key).entryAt u key' = s.entryAt u key' :=
      (replaced_remove s t key).entryAt_of_ne
    have hleft : ∀ entry ∈ rest, ∃ t' key' row instant, (s.remove t key).rowAt t' key' = some row ∧
        row.expiresAt = some instant ∧ instant ≤ (s.remove t key).now ∧
        Deadline.encode ⟨instant, t', key'⟩ = entry := by
      intro other hother
      obtain ⟨u, key', row', instant', hrow', hat', hdue', rfl⟩ := hl other (.tail _ hother)
      refine ⟨u, key', row', instant', ?_, hat', by rwa [now_remove], rfl⟩
      rw [rowAt_remove, if_neg]
      · exact hrow'
      · rintro ⟨rfl, rfl⟩
        obtain rfl := Option.some.inj (hrow.symm.trans hrow')
        obtain rfl := Option.some.inj (hat.symm.trans hat')
        exact hnot (henc ▸ hother)
    obtain ⟨s', hok, hindexed, hnow, hcells⟩ := ih (h.remove t key) hrest hleft
    refine ⟨s', ?_, hindexed, hnow.trans (now_remove ..), fun u key' => ?_⟩
    · -- Dropping the entry completes the removal of the row.
      have hstep : { s.setTable t ((s.table t).erase key) with
          deadlines := (s.setTable t ((s.table t).erase key)).deadlines.erase entry } =
          s.remove t key := by
        rw [remove, hrow]
        simp only [removeRow, dropEntry, hat, henc]
        rfl
      rw [reclaimAll, ← henc, reclaim_eq h hrow hat hdue, henc]
      simp only [bind, Except.bind, hstep, hok, List.length_cons]
      rw [Nat.add_comm]
      rfl
    · rw [hcells, get?_remove hrow]
      by_cases hk : u = t ∧ key' = key
      · obtain ⟨rfl, rfl⟩ := hk
        simp [hentry]
      · rw [hsame hk, if_neg hk]
        have hne : s.entryAt u key' ≠ some entry := fun he =>
          hk ((h.entryAt_inj he hentry).imp_right id)
        cases hu : s.entryAt u key' with
        | none => rfl
        | some other =>
          have : other ≠ entry := fun heq => hne (hu.trans (congrArg some heq))
          simp [this]

theorem deleteExpired_spec (h : s.Indexed) :
    ∃ s', s.deleteExpired = .ok ((dueEntries s.now s.deadlines.toList).length, s') ∧ s'.Indexed ∧
      s'.now = s.now ∧ ∀ u key, (s'.table u).get? key =
        if (s.entryAt u key).any (· ∈ dueEntries s.now s.deadlines.toList) then none
        else (s.table u).get? key := by
  apply reclaimAll_spec h (h.dueEntries_nodup s.now)
  intro entry he
  obtain ⟨t, key, row, instant, hrow, hat, hdue, henc⟩ := h.mem_dueEntries_iff.mp he
  exact ⟨t, key, row, instant, hrow, hat, by omega, henc⟩

def dueRows (s : RowStore) (t : Table) : List (String × Row) :=
  (s.rows t).filter fun e => isDue e.2 s.now

theorem mem_dueRows_iff : (key, row) ∈ s.dueRows t ↔
    s.rowAt t key = some row ∧ ∃ instant, row.expiresAt = some instant ∧ instant ≤ s.now := by
  rw [dueRows, List.mem_filter, mem_rows_iff, isDue, Option.any_eq_true]
  simp

def expiryEntry (t : Table) (e : String × Row) : String :=
  Deadline.encode ⟨e.2.expiresAt.getD 0, t, e.1⟩

theorem length_dueEntries (h : s.Indexed) (hnow : 0 ≤ s.now) :
    (dueEntries s.now s.deadlines.toList).length =
      (Table.all.flatMap s.dueRows).length := by
  have hentry : ∀ {t e}, e ∈ s.dueRows t → s.entryAt t e.1 = some (expiryEntry t e) := by
    intro t e he
    obtain ⟨hrow, instant, hat, -⟩ := mem_dueRows_iff.mp he
    exact entryAt_eq_some_iff.mpr ⟨e.2, instant, hrow, hat, by simp [expiryEntry, hat]⟩
  have hnodup : (Table.all.flatMap fun t => (s.dueRows t).map (expiryEntry t)).Nodup := by
    rw [List.nodup_iff_pairwise_ne, List.pairwise_flatMap]
    constructor
    · intro t _
      rw [List.pairwise_map]
      refine (rows_ascending.filter _).imp_of_mem fun {a b} ha hb hlt heq => ?_
      have hb := hentry hb
      rw [← heq] at hb
      exact String.lt_irrefl _ ((h.entryAt_inj (hentry ha) hb).2 ▸ hlt)
    · have hall : Table.all.Pairwise (· ≠ ·) := by decide
      refine hall.imp fun {t u} hne x hx y hy heq => ?_
      obtain ⟨a, ha, rfl⟩ := List.mem_map.mp hx
      obtain ⟨b, hb, rfl⟩ := List.mem_map.mp hy
      have hb := hentry hb
      rw [← heq] at hb
      exact hne (h.entryAt_inj (hentry ha) hb).1
  have hperm : (dueEntries s.now s.deadlines.toList).Perm
      (Table.all.flatMap fun t => (s.dueRows t).map (expiryEntry t)) := by
    refine (List.perm_ext_iff_of_nodup (h.dueEntries_nodup s.now) hnodup).mpr fun entry => ?_
    rw [h.mem_dueEntries_iff, List.mem_flatMap]
    constructor
    · rintro ⟨t, key, row, instant, hrow, hat, hdue, rfl⟩
      refine ⟨t, Table.mem_all t, List.mem_map.mpr ⟨(key, row), ?_, by simp [expiryEntry, hat]⟩⟩
      exact mem_dueRows_iff.mpr ⟨hrow, instant, hat, by omega⟩
    · rintro ⟨t, -, hmem⟩
      obtain ⟨e, he, rfl⟩ := List.mem_map.mp hmem
      obtain ⟨hrow, instant, hat, hdue⟩ := mem_dueRows_iff.mp he
      exact ⟨t, e.1, e.2, instant, hrow, hat, by omega, by simp [expiryEntry, hat]⟩
  rw [hperm.length_eq, List.length_flatMap, List.length_flatMap]
  simp only [List.length_map]

theorem any_mem_dueEntries (h : s.Indexed) (hnow : 0 ≤ s.now) (t : Table) (key : String) :
    (s.entryAt t key).any (· ∈ dueEntries s.now s.deadlines.toList) =
      (s.rowAt t key).any (isDue · s.now) := by
  rw [Bool.eq_iff_iff, Option.any_eq_true, Option.any_eq_true]
  constructor
  · rintro ⟨entry, hentry, hmem⟩
    obtain ⟨u, key', row, instant, hrow, hat, hdue, henc⟩ :=
      h.mem_dueEntries_iff.mp (of_decide_eq_true hmem)
    obtain ⟨rfl, rfl⟩ :=
      h.entryAt_inj hentry (entryAt_eq_some_iff.mpr ⟨row, instant, hrow, hat, henc⟩)
    refine ⟨row, hrow, (Option.any_eq_true _ _).mpr ⟨instant, hat, ?_⟩⟩
    exact decide_eq_true (by omega)
  · rintro ⟨row, hrow, hdue⟩
    obtain ⟨instant, hat, hle⟩ := (Option.any_eq_true _ _).mp hdue
    have hle : instant ≤ s.now := of_decide_eq_true hle
    refine ⟨_, entryAt_eq_some_iff.mpr ⟨row, instant, hrow, hat, rfl⟩, decide_eq_true ?_⟩
    exact h.mem_dueEntries_iff.mpr ⟨t, key, row, instant, hrow, hat, by omega, rfl⟩

theorem sweep_exact (h : s.Indexed) (hnow : 0 ≤ s.now) :
    ∃ s', s.deleteExpired = .ok ((Table.all.flatMap s.dueRows).length, s') ∧
      s'.now = s.now ∧
      (∀ t key, (s'.table t).get? key =
        if (s.rowAt t key).any (isDue · s.now) then none else (s.table t).get? key) ∧
      ∀ entry, entry ∈ s'.deadlines ↔ entry ∈ s.deadlines ∧
        ∀ t e, e ∈ s.dueRows t → s.entryAt t e.1 ≠ some entry := by
  obtain ⟨s', hok, hindexed, hsame, hcells⟩ := deleteExpired_spec h
  simp only [any_mem_dueEntries h hnow] at hcells
  rw [length_dueEntries h hnow] at hok
  refine ⟨s', hok, hsame, hcells, fun entry => ?_⟩
  have hentry : ∀ t key, s'.entryAt t key =
      if (s.rowAt t key).any (isDue · s.now) then none else s.entryAt t key := by
    intro t key
    rw [entryAt, entryAt, rowAt, hcells]
    split <;> rfl
  rw [hindexed.entries, h.entries]
  constructor
  · rintro ⟨t, key, he⟩
    rw [hentry] at he
    split at he
    · cases he
    · next hnot =>
      refine ⟨⟨t, key, he⟩, fun u e hdue hgone => hnot ?_⟩
      obtain ⟨rfl, rfl⟩ := h.entryAt_inj he hgone
      obtain ⟨hrow, instant, hat, hle⟩ := mem_dueRows_iff.mp hdue
      rw [hrow, Option.any_some, isDue, hat, Option.any_some]
      exact decide_eq_true hle
  · rintro ⟨⟨t, key, he⟩, hkept⟩
    refine ⟨t, key, ?_⟩
    rw [hentry, if_neg]
    · exact he
    · intro hdue
      obtain ⟨row, hrow, hdue⟩ := (Option.any_eq_true _ _).mp hdue
      obtain ⟨instant, hat, hle⟩ := (Option.any_eq_true _ _).mp hdue
      exact hkept t (key, row)
        (mem_dueRows_iff.mpr ⟨hrow, instant, hat, of_decide_eq_true hle⟩) he

theorem Indexed.perform (h : s.Indexed) (call : Call) :
    ∃ answer s', call.perform s = .ok (answer, s') ∧ s'.Indexed := by
  cases call with
  | put t key payload lifetime =>
    rw [Call.perform, put_eq key payload lifetime (h.readable t)]
    exact ⟨_, _, rfl, h.write ..⟩
  | putIfAbsent t key payload lifetime =>
    rw [Call.perform, putIfAbsent_eq (h.readable t)]
    split
    · exact ⟨_, _, rfl, h⟩
    · exact ⟨_, _, rfl, h.write ..⟩
  | putIfVersion t key payload expected lifetime =>
    rw [Call.perform, putIfVersion_eq key payload lifetime (h.readable t)]
    split
    · exact ⟨_, _, rfl, h.write ..⟩
    · exact ⟨_, _, rfl, h⟩
  | putIfPartitionVacant t key payload lifetime =>
    rw [Call.perform, putIfPartitionVacant_eq (h.readable t)]
    split
    · exact ⟨_, _, rfl, h⟩
    · exact ⟨_, _, rfl, h.write ..⟩
  | get t key =>
    rw [Call.perform, get_eq key (h.readable t)]
    exact ⟨_, _, rfl, h⟩
  | take t key =>
    rw [Call.perform, take_eq key (h.readable t)]
    exact ⟨_, _, rfl, h.remove ..⟩
  | delete t key =>
    rw [Call.perform, delete_eq key (h.readable t)]
    exact ⟨_, _, rfl, h.remove ..⟩
  | deletePartition t partition =>
    rw [Call.perform, deletePartition_eq (h.readable t)]
    exact ⟨_, _, rfl, h.removePartition ..⟩
  | scanPartition t partition =>
    rw [Call.perform, scanPartition_eq (h.readable t)]
    exact ⟨_, _, rfl, h⟩
  | scanTable t =>
    rw [Call.perform, scanTable_eq (h.readable t)]
    exact ⟨_, _, rfl, h⟩
  | deleteExpired =>
    obtain ⟨s', hok, hindexed, -⟩ := deleteExpired_spec h
    rw [Call.perform, hok]
    exact ⟨_, _, rfl, hindexed⟩
  | moveClock millis => exact ⟨_, _, rfl, h.moved _⟩

theorem Indexed.run (h : s.Indexed) (calls : List Call) :
    ∃ answers s', Call.run s calls = .ok (answers, s') ∧ s'.Indexed := by
  induction calls generalizing s with
  | nil => exact ⟨[], s, rfl, h⟩
  | cons call rest ih =>
    obtain ⟨answer, s₁, hone, h₁⟩ := h.perform call
    obtain ⟨answers, s', hrest, h'⟩ := ih h₁
    refine ⟨answer :: answers, s', ?_, h'⟩
    rw [Call.run, hone]
    simp only [bind, Except.bind, hrest]
    rfl

/-- Whatever was called and however the clock was moved, the expiry index has the entries of the
stored rows with a deadline and no others, and a sweep takes exactly the rows that are due. -/
theorem expiry_index_exact (start : Int) (calls : List Call) :
    ∃ answers s, Call.run (empty start) calls = .ok (answers, s) ∧ (∀ t, s.Readable t) ∧
      (∀ entry, entry ∈ s.deadlines ↔ ∃ t key row instant, s.rowAt t key = some row ∧
        row.expiresAt = some instant ∧ Deadline.encode ⟨instant, t, key⟩ = entry) ∧
      ∀ now, 0 ≤ now → ∃ swept, { s with now }.deleteExpired =
          .ok ((Table.all.flatMap (dueRows { s with now })).length, swept) ∧
        swept.now = now ∧
        (∀ t key, (swept.table t).get? key =
          if (s.rowAt t key).any (isDue · now) then none else (s.table t).get? key) ∧
        ∀ entry, entry ∈ swept.deadlines ↔ entry ∈ s.deadlines ∧
          ∀ t e, e ∈ dueRows { s with now } t → s.entryAt t e.1 ≠ some entry := by
  obtain ⟨answers, s, hrun, h⟩ := (indexed_empty start).run calls
  refine ⟨answers, s, hrun, h.readable, fun entry => ?_, fun now hnow => ?_⟩
  · simp only [h.entries, entryAt_eq_some_iff]
  · exact sweep_exact (h.moved now) hnow

theorem expiry_index_exact_swept : ∃ answers s swept,
    Call.run (empty 0) [.put .users (.single "ann") (.bytes [1]) (some 5)] = .ok (answers, s) ∧
      { s with now := 5000 }.deleteExpired = .ok (1, swept) ∧
      (swept.table .users).get? (RowKey.single "ann").encode = none := by
  obtain ⟨answers, s, hrun, -, -, hsweep⟩ :=
    expiry_index_exact 0 [.put .users (.single "ann") (.bytes [1]) (some 5)]
  obtain ⟨swept, hswept, -, hcells, -⟩ := hsweep 5000 (by decide)
  refine ⟨answers, s, swept, hrun, ?_, ?_⟩
  · cases hrun
    exact hswept
  · cases hrun
    exact hcells _ _

end IdentityDirectory.RowStore
