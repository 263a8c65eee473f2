import IdentityDirectory.Proofs.Rows.Partitions
import IdentityDirectory.Proofs.Rows.Reclaim

/-!
What can be seen in a store at an instant, now or later, if nothing is written in between. Main
statements: how a write or a removal changes what is seen at every later instant (`seen_write`,
`seen_remove`, `seen_removePartition`).
-/

namespace IdentityDirectory

def Lifetime.lasts (lifetime : Option Int) (now time : Int) : Bool :=
  match lifetime with
  | none => true
  | some l => time < deadline l now

theorem Row.isLive_of_le {r : Row} {time later : Int} (hle : time ≤ later)
    (h : r.isLive later) : r.isLive time := by
  unfold isLive at h ⊢
  cases hr : r.expiresAt with
  | none => rfl
  | some d =>
    simp only [hr, decide_eq_true_eq] at h ⊢
    omega

theorem Row.isLive_eq_false_of_le {r : Row} {time later : Int} (hle : time ≤ later)
    (h : r.isLive time = false) : r.isLive later = false :=
  Bool.eq_false_iff.mpr fun hlive => Bool.eq_false_iff.mp h (isLive_of_le hle hlive)

namespace RowStore

variable {s s' : RowStore} {t u : Table} {key key' : String} {time later : Int}

def seen (s : RowStore) (t : Table) (key : String) (time : Int) : Option Payload :=
  ((s.rowAt t key).filter (·.isLive time)).map (·.payload)

theorem seen_eq_some_iff {p : Payload} :
    s.seen t key time = some p ↔ ∃ r, s.rowAt t key = some r ∧ r.isLive time ∧ r.payload = p := by
  simp only [seen, Option.map_eq_some_iff, Option.filter_eq_some_iff, and_assoc]

theorem isSome_seen_iff :
    (s.seen t key time).isSome ↔ ∃ r, s.rowAt t key = some r ∧ r.isLive time := by
  simp only [Option.isSome_iff_exists, seen_eq_some_iff]
  exact ⟨fun ⟨_, r, hr, hlive, _⟩ => ⟨r, hr, hlive⟩, fun ⟨r, hr, hlive⟩ => ⟨_, r, hr, hlive, rfl⟩⟩

theorem seen_of_le {p : Payload} (hle : time ≤ later) (h : s.seen t key later = some p) :
    s.seen t key time = some p := by
  obtain ⟨r, hr, hlive, hp⟩ := seen_eq_some_iff.mp h
  exact seen_eq_some_iff.mpr ⟨r, hr, Row.isLive_of_le hle hlive, hp⟩

theorem seen_congr (h : s'.table t = s.table t) (key : String) (time : Int) :
    s'.seen t key time = s.seen t key time := by
  rw [seen, seen, rowAt_congr h]

theorem seen_empty (now : Int) (t : Table) (key : String) (time : Int) :
    (empty now).seen t key time = none := by
  rw [seen, rowAt_empty]
  rfl

theorem isLive_successor (previous : Option Row) (payload : Payload) (lifetime : Option Int) :
    (s.successor previous payload lifetime).isLive time = Lifetime.lasts lifetime s.now time := by
  cases lifetime <;> rfl

theorem seen_write (payload : Payload) (lifetime : Option Int) :
    (s.write t key payload lifetime).seen u key' time =
      if u = t ∧ key' = key then
        if Lifetime.lasts lifetime s.now time then some payload else none
      else s.seen u key' time := by
  rw [seen, rowAt_write]
  split
  · rw [Option.filter_some, isLive_successor]
    split <;> rfl
  · rfl

theorem seen_remove : (s.remove t key).seen u key' time =
    if u = t ∧ key' = key then none else s.seen u key' time := by
  rw [seen, rowAt_remove]
  split <;> rfl

theorem seen_removePartition {partition : String} :
    (s.removePartition t partition).seen u key time =
      if u = t ∧ (RowKey.lead partition).toList <+: key.toList then none
      else s.seen u key time := by
  rw [seen, rowAt_removePartition]
  split <;> rfl

theorem mem_clusterings_scan_iff {partition c : String} (hp : NulFree partition) :
    c ∈ (s.scan t partition).map (·.1.clustering) ↔
      (s.seen t (RowKey.encode ⟨partition, c⟩) s.now).isSome := by
  rw [List.mem_map, isSome_seen_iff]
  constructor
  · rintro ⟨⟨⟨_, c⟩, row⟩, hmem, rfl⟩
    obtain ⟨rfl, hrow⟩ := (mem_scan_iff hp).mp hmem
    exact ⟨row, hrow⟩
  · rintro ⟨row, hrow⟩
    exact ⟨(⟨partition, c⟩, row), (mem_scan_iff hp).mpr ⟨rfl, hrow⟩, rfl⟩

/-- Nothing but dead rows has gone. -/
structure Reclaimed (s s' : RowStore) : Prop where
  now : s'.now = s.now
  cells : ∀ t key, (s'.table t).get? key = (s.table t).get? key ∨
    (s'.table t).get? key = none ∧ ∃ r, s.rowAt t key = some r ∧ r.isLive s.now = false

theorem Reclaimed.refl (s : RowStore) : Reclaimed s s := ⟨rfl, fun _ _ => .inl rfl⟩

theorem Reclaimed.rows (h : Reclaimed s s') (t : Table) (key : String) :
    s'.rowAt t key = s.rowAt t key ∨
      s'.rowAt t key = none ∧ ∃ r, s.rowAt t key = some r ∧ r.isLive s.now = false := by
  rcases h.cells t key with h | ⟨hnone, hdead⟩
  · exact .inl (by rw [rowAt, rowAt, h])
  · exact .inr ⟨by rw [rowAt, hnone]; rfl, hdead⟩

theorem Reclaimed.readable (h : Reclaimed s s') (hr : s.Readable t) : s'.Readable t := by
  intro key hu
  rcases h.cells t key with hkeep | ⟨hnone, -⟩
  · exact hr key (hkeep ▸ hu)
  · rw [hnone] at hu
    cases hu

theorem Reclaimed.seen_eq (h : Reclaimed s s') (hle : s.now ≤ time) :
    s'.seen t key time = s.seen t key time := by
  rcases h.rows t key with heq | ⟨hnone, r, hr, hdead⟩
  · rw [seen, seen, heq]
  · rw [seen, seen, hnone, hr]
    simp [Option.filter, Row.isLive_eq_false_of_le hle hdead]

theorem Swept.reclaimed {entries : List String} (h : Swept entries s s') : Reclaimed s s' where
  now := h.now
  cells t key := by
    by_cases htaken : s.Dead t key ∧ Names entries t key
    · obtain ⟨r, instant, hcell, hexpires, hle⟩ := htaken.1
      have hdead := Row.isLive_eq_false_iff.mpr ⟨instant, hexpires, hle⟩
      refine .inr ⟨h.gone htaken.1 htaken.2, r, ?_, hdead⟩
      rw [rowAt, hcell]
      rfl
    · exact .inl (h.kept htaken)

theorem reclaimed_reclaimAll {entries : List String} {n : Nat}
    (h : s.reclaimAll entries = .ok (n, s')) : Reclaimed s s' := by
  rcases s.reclaimAll_cases entries with ⟨herror, -⟩ | ⟨s₁, hok, hswept⟩
  · rw [herror] at h
    cases h
  · obtain ⟨-, rfl⟩ := Prod.mk.inj (Except.ok.inj (hok.symm.trans h))
    exact hswept.reclaimed

theorem reclaimed_sweep (s : RowStore) : Reclaimed s s.sweep.2 := by
  rw [sweep]
  split
  · next result h => exact reclaimed_reclaimAll h
  · exact .refl s

theorem now_sweep (s : RowStore) : s.sweep.2.now = s.now := s.reclaimed_sweep.now

theorem Readable.sweep (h : s.Readable t) : s.sweep.2.Readable t := s.reclaimed_sweep.readable h

section Records

variable (α : Type) [Storable α]

structure Holds (s : RowStore) (t : Table) : Prop where
  readable : s.Readable t
  payloads : ∀ key r, s.rowAt t key = some r → ∃ a : α, r.payload = Storable.payload a

def recordAt (s : RowStore) (t : Table) (key : RowKey) (time : Int) : Option α :=
  (s.seen t key.encode time).bind Storable.ofPayload?

variable {α}

theorem recordAt_congr (h : s'.table t = s.table t) (key : RowKey) (time : Int) :
    s'.recordAt α t key time = s.recordAt α t key time := by
  rw [recordAt, recordAt, seen_congr h]

theorem recordAt_of_le {key : RowKey} {a : α} (hle : time ≤ later)
    (h : s.recordAt α t key later = some a) : s.recordAt α t key time = some a := by
  obtain ⟨p, hp, ha⟩ := Option.bind_eq_some_iff.mp h
  exact Option.bind_eq_some_iff.mpr ⟨p, seen_of_le hle hp, ha⟩

theorem recordAt_write {key key' : RowKey} (a : α) (lifetime : Option Int) :
    (s.write t key.encode (Storable.payload a) lifetime).recordAt α u key' time =
      if u = t ∧ key'.encode = key.encode then
        if Lifetime.lasts lifetime s.now time then some a else none
      else s.recordAt α u key' time := by
  rw [recordAt, seen_write]
  split
  · split
    · exact Storable.ofPayload?_payload a
    · rfl
  · rfl

theorem recordAt_remove {key key' : RowKey} :
    (s.remove t key.encode).recordAt α u key' time =
      if u = t ∧ key'.encode = key.encode then none else s.recordAt α u key' time := by
  rw [recordAt, seen_remove]
  split <;> rfl

theorem recordAt_removePartition {partition : String} {key : RowKey} :
    (s.removePartition t partition).recordAt α u key time =
      if u = t ∧ (RowKey.lead partition).toList <+: key.encode.toList then none
      else s.recordAt α u key time := by
  rw [recordAt, seen_removePartition]
  split <;> rfl

theorem holds_empty (now : Int) (t : Table) : (empty now).Holds α t :=
  ⟨readable_empty now t, fun key r h => by rw [rowAt_empty] at h; cases h⟩

theorem holds_congr (h : s'.table t = s.table t) (hs : s.Holds α t) : s'.Holds α t :=
  ⟨(readable_congr h).mpr hs.readable, fun key r hr => hs.payloads key r (rowAt_congr h key ▸ hr)⟩

theorem Holds.seen_eq (h : s.Holds α t) (key : RowKey) (time : Int) :
    s.seen t key.encode time = (s.recordAt α t key time).map Storable.payload := by
  rw [recordAt]
  cases hseen : s.seen t key.encode time with
  | none => rfl
  | some p =>
    obtain ⟨r, hr, -, rfl⟩ := seen_eq_some_iff.mp hseen
    obtain ⟨a, ha⟩ := h.payloads _ r hr
    rw [Option.bind_some, ha, Storable.ofPayload?_payload]
    rfl

theorem Holds.write (h : s.Holds α t) (key : String) (a : α) (lifetime : Option Int) :
    (s.write t key (Storable.payload a) lifetime).Holds α t where
  readable := h.readable.write _ _ _
  payloads key' r hr := by
    rw [rowAt_write] at hr
    split at hr
    · obtain rfl := Option.some.inj hr
      exact ⟨a, rfl⟩
    · exact h.payloads key' r hr

theorem Holds.remove (h : s.Holds α t) (u : Table) (key : String) : (s.remove u key).Holds α t where
  readable := h.readable.remove _
  payloads key' r hr := by
    rw [rowAt_remove] at hr
    split at hr
    · cases hr
    · exact h.payloads key' r hr

theorem Holds.removePartition (h : s.Holds α t) (u : Table) (partition : String) :
    (s.removePartition u partition).Holds α t where
  readable := h.readable.removePartition _
  payloads key' r hr := by
    rw [rowAt_removePartition] at hr
    split at hr
    · cases hr
    · exact h.payloads key' r hr

theorem Holds.reclaimed (h : s.Holds α t) (hs : Reclaimed s s') : s'.Holds α t where
  readable := hs.readable h.readable
  payloads key r hr := by
    rcases hs.rows t key with heq | ⟨hnone, -⟩
    · exact h.payloads key r (heq ▸ hr)
    · rw [hnone] at hr
      cases hr

def recordsIn (α : Type) [Storable α] (s : RowStore) (t : Table) (partition : String) : List α :=
  (s.scan t partition).filterMap fun e => Storable.ofPayload? e.2.payload

theorem mem_recordsIn_iff {partition : String} (hp : NulFree partition) {a : α} :
    a ∈ s.recordsIn α t partition ↔ ∃ c, s.recordAt α t ⟨partition, c⟩ s.now = some a := by
  simp only [recordsIn, List.mem_filterMap, Prod.exists, recordAt, Option.bind_eq_some_iff,
    seen_eq_some_iff]
  constructor
  · rintro ⟨⟨p, c⟩, row, hmem, ha⟩
    obtain ⟨hpart, hrow, hlive⟩ := (mem_scan_iff hp).mp hmem
    obtain rfl : p = partition := hpart
    exact ⟨c, row.payload, ⟨row, hrow, hlive, rfl⟩, ha⟩
  · rintro ⟨c, p, ⟨row, hrow, hlive, rfl⟩, ha⟩
    exact ⟨⟨partition, c⟩, row, (mem_scan_iff hp).mpr ⟨rfl, hrow, hlive⟩, ha⟩

theorem pairwise_recordsIn_of_lt {partition : String} (hp : NulFree partition) {Q : α → α → Prop}
    (hQ : ∀ c c' a a', c < c' → s.recordAt α t ⟨partition, c⟩ s.now = some a →
      s.recordAt α t ⟨partition, c'⟩ s.now = some a' → Q a a') :
    (s.recordsIn α t partition).Pairwise Q := by
  rw [recordsIn, List.pairwise_filterMap]
  have found : ∀ {e : RowKey × Row}, e ∈ s.scan t partition → ∀ a : α,
      Storable.ofPayload? e.2.payload = some a →
      s.recordAt α t ⟨partition, e.1.clustering⟩ s.now = some a := by
    rintro ⟨⟨p, c⟩, row⟩ he a ha
    obtain ⟨hpart, hrow, hlive⟩ := (mem_scan_iff hp).mp he
    obtain rfl : p = partition := hpart
    refine Option.bind_eq_some_iff.mpr ⟨row.payload, ?_, ha⟩
    exact seen_eq_some_iff.mpr ⟨row, hrow, hlive, rfl⟩
  refine (scan_ascending hp).imp_of_mem fun {e e'} he he' hlt a ha a' ha' => ?_
  exact hQ e.1.clustering e'.1.clustering a a' hlt (found he a ha) (found he' a' ha')

theorem pairwise_recordsIn {partition : String} (hp : NulFree partition) {Q : α → α → Prop}
    (hQ : ∀ c c' a a', c ≠ c' → s.recordAt α t ⟨partition, c⟩ s.now = some a →
      s.recordAt α t ⟨partition, c'⟩ s.now = some a' → Q a a') :
    (s.recordsIn α t partition).Pairwise Q := by
  refine pairwise_recordsIn_of_lt hp fun c c' a a' hlt => hQ c c' a a' ?_
  rintro rfl
  exact String.lt_irrefl _ hlt

def recordsOf (α : Type) [Storable α] (s : RowStore) (t : Table) : List α :=
  (s.live (s.rows t)).filterMap fun e => Storable.ofPayload? e.2.payload

theorem mem_liveRows {e : RowKey × Row} : e ∈ s.live (s.rows t) ↔
    NulFree e.1.partition ∧ s.rowAt t e.1.encode = some e.2 ∧ e.2.isLive s.now := by
  simp only [live, List.mem_filterMap, Prod.exists]
  constructor
  · rintro ⟨key, row, hmem, hsome⟩
    split at hsome
    · next hlive =>
      obtain ⟨k, hk, rfl⟩ := Option.map_eq_some_iff.mp hsome
      obtain ⟨rfl, hp⟩ := RowKey.eq_of_decode? hk
      exact ⟨hp, mem_rows_iff.mp hmem, hlive⟩
    · cases hsome
  · rintro ⟨hp, hrow, hlive⟩
    refine ⟨e.1.encode, e.2, mem_rows_iff.mpr hrow, ?_⟩
    rw [if_pos hlive, RowKey.decode?_encode hp]
    rfl

theorem liveRows_ascending : (s.live (s.rows t)).Pairwise fun e e' => e.1.encode < e'.1.encode :=
  live_ascending rows_ascending

theorem mem_recordsOf_iff {a : α} : a ∈ s.recordsOf α t ↔
    ∃ k : RowKey, NulFree k.partition ∧ s.recordAt α t k s.now = some a := by
  simp only [recordsOf, List.mem_filterMap, mem_liveRows, recordAt, Option.bind_eq_some_iff,
    seen_eq_some_iff]
  constructor
  · rintro ⟨e, ⟨hp, hrow, hlive⟩, ha⟩
    exact ⟨e.1, hp, e.2.payload, ⟨e.2, hrow, hlive, rfl⟩, ha⟩
  · rintro ⟨k, hp, p, ⟨row, hrow, hlive, rfl⟩, ha⟩
    exact ⟨(k, row), ⟨hp, hrow, hlive⟩, ha⟩

theorem pairwise_recordsOf {Q : α → α → Prop}
    (hQ : ∀ (k k' : RowKey) a a', k.encode ≠ k'.encode → s.recordAt α t k s.now = some a →
      s.recordAt α t k' s.now = some a' → Q a a') : (s.recordsOf α t).Pairwise Q := by
  rw [recordsOf, List.pairwise_filterMap]
  have found : ∀ {e : RowKey × Row}, e ∈ s.live (s.rows t) → ∀ a : α,
      Storable.ofPayload? e.2.payload = some a → s.recordAt α t e.1 s.now = some a := by
    intro e he a ha
    obtain ⟨-, hrow, hlive⟩ := mem_liveRows.mp he
    refine Option.bind_eq_some_iff.mpr ⟨e.2.payload, ?_, ha⟩
    exact seen_eq_some_iff.mpr ⟨e.2, hrow, hlive, rfl⟩
  refine liveRows_ascending.imp_of_mem fun {e e'} he he' hlt a ha a' ha' => ?_
  apply hQ e.1 e'.1 a a' _ (found he a ha) (found he' a' ha')
  intro heq
  rw [heq] at hlt
  exact String.lt_irrefl _ hlt

theorem Reclaimed.recordAt_eq (h : Reclaimed s s') (hle : s.now ≤ time) (key : RowKey) :
    s'.recordAt α t key time = s.recordAt α t key time := by
  rw [recordAt, recordAt, h.seen_eq hle]

end Records

end RowStore

end IdentityDirectory
