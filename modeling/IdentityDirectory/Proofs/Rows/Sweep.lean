import IdentityDirectory.Proofs.Work.Laws

/-!
Sweeps of a store with any content, also one whose expiry index does not fit its rows. Main
statements: `Reclaimed.read_eq`, that no read notices, and `sweep_takes_dead_rows_only`.
-/

namespace IdentityDirectory.RowStore

variable {s s' : RowStore} {time : Int}

inductive Read : Type → Type 1
  | row (t : Table) (key : RowKey) : Read (Option Row)
  | partition (t : Table) (name : String) : Read (List (RowKey × Row))
  | table (t : Table) : Read (List (RowKey × Row))
  | record (α : Type) [Storable α] (t : Table) (key : RowKey) : Read (Option α)
  | records (α : Type) [Storable α] (t : Table) (name : String) : Read (List α)
  | allRecords (α : Type) [Storable α] (t : Table) : Read (List α)

def Read.query {β : Type} : Read β → Query β
  | row t key => .row t key
  | partition t name => .scanPartition t name
  | table t => .ofRows (·.scanTable t)
  | record _ t key => .record t key
  | records α t name => .records α t name
  | allRecords α t => .allRecords α t

theorem map_live_rowsOf_cons (s : RowStore) (key : String) (r : Row) (l : List (String × Cell)) :
    (rowsOf ((key, .row r) :: l)).map s.live = ((rowsOf l).map s.live).map fun rows =>
      (if r.isLive s.now then (RowKey.decode? key).map (·, r) else none).toList ++ rows := by
  rw [rowsOf, List.mapM_cons, ← rowsOf]
  cases rowsOf l with
  | error e => rfl
  | ok rows =>
    change Except.ok (s.live ((key, r) :: rows)) = Except.ok (_ ++ s.live rows)
    rw [live, live, List.filterMap_cons]
    split
    · next hnone => rw [hnone]; rfl
    · next hsome => rw [hsome]; rfl

theorem rowsOf_cons_unreadable (key : String) (l : List (String × Cell)) :
    rowsOf ((key, .unreadable) :: l) = .error .decode := by
  rw [rowsOf, List.mapM_cons]
  rfl

theorem map_live_rowsOf_filter {p : String × Cell → Bool} {l : List (String × Cell)}
    (h : ∀ e ∈ l, ¬ p e → ∃ r, e.2 = .row r ∧ r.isLive s.now = false) :
    (rowsOf (l.filter p)).map s.live = (rowsOf l).map s.live := by
  induction l with
  | nil => rfl
  | cons e l ih =>
    have ih := ih fun e he => h e (List.mem_cons_of_mem _ he)
    obtain ⟨key, cell⟩ := e
    by_cases hp : p (key, cell)
    · rw [List.filter_cons_of_pos hp]
      cases cell with
      | row r => rw [map_live_rowsOf_cons, ih, ← map_live_rowsOf_cons]
      | unreadable => rw [rowsOf_cons_unreadable, rowsOf_cons_unreadable]
    · obtain ⟨r, rfl, hdead⟩ := h _ List.mem_cons_self hp
      rw [List.filter_cons_of_neg hp, ih, map_live_rowsOf_cons, hdead]
      cases rowsOf l <;> rfl

namespace Reclaimed

theorem entries_eq (h : Reclaimed s s') (t : Table) :
    (s'.table t).entries = (s.table t).entries.filter fun e => e.1 ∈ s'.table t := by
  refine eq_of_ascending (f := Prod.fst) (s'.table t).ascending
    ((s.table t).ascending.filter _) fun ⟨key, cell⟩ => ?_
  rw [List.mem_filter, StringMap.mem_entries_iff, StringMap.mem_entries_iff, decide_eq_true_iff,
    StringMap.mem_iff]
  rcases h.cells t key with heq | ⟨hnone, -⟩
  · rw [heq]
    exact ⟨fun hcell => ⟨hcell, by rw [hcell]; rfl⟩, And.left⟩
  · rw [hnone]
    exact iff_of_false nofun fun hcell => by cases hcell.2

theorem dead_of_gone (h : Reclaimed s s') (hle : s.now ≤ time) {e : String × Cell}
    (he : e ∈ (s.table t).entries) (hgone : e.1 ∉ s'.table t) :
    ∃ r, e.2 = .row r ∧ r.isLive time = false := by
  have hcell := StringMap.mem_entries_iff.mp he
  rcases h.cells t e.1 with heq | ⟨-, r, hrow, hdead⟩
  · rw [StringMap.mem_iff, heq, hcell] at hgone
    exact absurd rfl hgone
  · rw [rowAt, hcell, Option.bind_some] at hrow
    have hlater := Row.isLive_eq_false_of_le hle hdead
    cases hc : e.2 with
    | row r' => exact ⟨r, by rw [hc] at hrow; exact congrArg _ (Option.some.inj hrow), hlater⟩
    | unreadable => rw [hc] at hrow; cases hrow

theorem row?_eq (h : Reclaimed s s') (t : Table) (key : String) :
    s'.row? t key = s.row? t key ∨
      s'.row? t key = .ok none ∧ ∃ r, s.row? t key = .ok (some r) ∧ r.isLive s.now = false := by
  rcases h.cells t key with heq | ⟨hnone, r, hrow, hdead⟩
  · exact .inl (by rw [row?, row?, heq])
  · refine .inr ⟨by rw [row?, hnone], r, ?_, hdead⟩
    obtain ⟨cell, hcell, hr⟩ := Option.bind_eq_some_iff.mp hrow
    rw [row?, hcell]
    cases cell with
    | row r' => exact congrArg _ hr
    | unreadable => cases hr

theorem get_eq (h : Reclaimed s s') (hle : s.now ≤ time) (t : Table) (key : RowKey) :
    { s' with now := time }.get t key = { s with now := time }.get t key := by
  change (s'.row? t key.encode >>= fun r => pure (r.filter (·.isLive time))) =
    s.row? t key.encode >>= fun r => pure (r.filter (·.isLive time))
  rcases h.row?_eq t key.encode with heq | ⟨hnone, r, hr, hdead⟩
  · rw [heq]
  · rw [hnone, hr]
    simp [bind, Except.bind, Option.filter, Row.isLive_eq_false_of_le hle hdead]

theorem map_live_rowsOf_eq (h : Reclaimed s s') (hle : s.now ≤ time) (t : Table)
    (p : String × Cell → Bool) :
    (rowsOf ((s'.table t).entries.filter p)).map { s' with now := time }.live =
      (rowsOf ((s.table t).entries.filter p)).map { s with now := time }.live := by
  have hleft : (s'.table t).entries.filter p =
      ((s.table t).entries.filter p).filter fun e => e.1 ∈ s'.table t := by
    rw [h.entries_eq, List.filter_filter, List.filter_filter]
    exact List.filter_congr fun e _ => Bool.and_comm ..
  rw [hleft]
  refine map_live_rowsOf_filter (s := { s' with now := time }) fun e he hgone => ?_
  exact h.dead_of_gone hle (List.mem_filter.mp he).1 fun hmem => hgone (decide_eq_true hmem)

theorem scanTable_eq (h : Reclaimed s s') (hle : s.now ≤ time) (t : Table) :
    { s' with now := time }.scanTable t = { s with now := time }.scanTable t := by
  have hall : ∀ l : List (String × Cell), l.filter (fun _ => true) = l :=
    fun l => List.filter_eq_self.mpr fun _ _ => rfl
  have hsame := h.map_live_rowsOf_eq hle t fun _ => true
  rwa [hall, hall] at hsame

theorem scanPartition_eq (h : Reclaimed s s') (hle : s.now ≤ time) (t : Table)
    (partition : String) : { s' with now := time }.scanPartition t partition =
      { s with now := time }.scanPartition t partition := by
  have hsame := h.map_live_rowsOf_eq hle t fun e =>
    (RowKey.lead partition).toList.isPrefixOf e.1.toList
  rwa [← StringMap.startingWith_eq_filter, ← StringMap.startingWith_eq_filter] at hsame

theorem read_eq (h : Reclaimed s s') (hle : s.now ≤ time) {β : Type} (read : Read β) :
    read.query { s' with now := time } = read.query { s with now := time } := by
  cases read with
  | row t key => simp only [Read.query, Query.row, Query.ofRows, h.get_eq hle]
  | partition t name =>
    simp only [Read.query, Query.scanPartition, Query.ofRows, h.scanPartition_eq hle]
  | table t => simp only [Read.query, Query.ofRows, h.scanTable_eq hle]
  | record α t key => simp only [Read.query, Query.record, Query.ofRows, h.get_eq hle]
  | records α t name =>
    simp only [Read.query, Query.records, Query.ofRows, h.scanPartition_eq hle]
  | allRecords α t => simp only [Read.query, Query.allRecords, Query.ofRows, h.scanTable_eq hle]

end Reclaimed

/-- Whatever the tables and the expiry index hold, a sweep fails at a row that cannot be read and
that an entry names, and then changes nothing; or it takes the rows whose own deadline has come and
that an entry names, counts each of them once however many entries name it, and leaves every other
cell as it is. No read notices, now or later. -/
theorem sweep_takes_dead_rows_only (s : RowStore) :
    let due := dueEntries s.now s.deadlines.toList
    Update.ofRows (·.deleteExpired) s = (.error (.transient .decode), s) ∧
        (∃ t key, Names due t key ∧ (s.table t).get? key = some .unreadable) ∨
      ∃ n s', Update.ofRows (·.deleteExpired) s = (.ok n, s') ∧ s'.now = s.now ∧
        (∀ t key, (s'.table t).get? key = (s.table t).get? key ∨
          (s'.table t).get? key = none ∧ s.Dead t key) ∧
        (∀ t key, key ∈ s.table t ∧ key ∉ s'.table t ↔ s.Dead t key ∧ Names due t key) ∧
        n = (lost s s').length ∧
        (∀ entry, entry ∈ s'.deadlines ↔ entry ∈ s.deadlines ∧ entry ∉ due) ∧
        ∀ time, s.now ≤ time → ∀ {β : Type} (read : Read β),
          read.query { s' with now := time } = read.query { s with now := time } := by
  intro due
  rcases s.reclaimAll_cases due with ⟨herror, hblocked⟩ | ⟨s', hok, hswept⟩
  · refine .inl ⟨?_, hblocked⟩
    rw [Update.ofRows, deleteExpired, herror]
  · refine .inr ⟨_, s', Update.ofRows_of_ok hok, hswept.now, fun t key => ?_, fun t key => ?_, rfl,
      fun entry => hswept.index, fun time hle β read => (reclaimed_reclaimAll hok).read_eq hle read⟩
    · by_cases htaken : s.Dead t key ∧ Names due t key
      · exact .inr ⟨hswept.gone htaken.1 htaken.2, htaken.1⟩
      · exact .inl (hswept.kept htaken)
    · rw [← RowStore.mem_lost_iff, hswept.mem_lost_iff]

/-- Two entries are for the dead row, one is for no row, one gives the live row a deadline that it
does not have, and one is malformed. -/
example :
    let row (expiresAt : Int) : Cell := .row ⟨some expiresAt, 1, .bytes []⟩
    let cells : StringMap Cell := .ofList [("dead", row 40), ("live", row 60)]
    let entries := ["!", Deadline.encode ⟨10, .users, "dead"⟩, Deadline.encode ⟨20, .users, "gone"⟩,
      Deadline.encode ⟨30, .users, "live"⟩, Deadline.encode ⟨40, .users, "dead"⟩,
      Deadline.encode ⟨60, .users, "live"⟩]
    let s : RowStore := { (empty 50).setTable .users cells with deadlines := .ofList entries }
    s.deleteExpired.toOption.map (fun (n, s') => (n, (s'.table .users).keys, s'.deadlines.toList)) =
      some (1, ["live"], [Deadline.encode ⟨60, .users, "live"⟩]) := by
  decide +kernel

end IdentityDirectory.RowStore
