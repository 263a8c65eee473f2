import IdentityDirectory.Proofs.Rows.PlainMap
import IdentityDirectory.Proofs.Rows.Snapshot

/-!
The row store answers as the plain map does, as long as no partition holds U+0000. Rows that have
expired stay in the store until they are overwritten, removed or swept; that cannot be told from its
answers. Main statement: `answers_of_plain_map`.
-/

namespace IdentityDirectory.RowStore

variable {s s' : RowStore} {t u : Table} {key key' : String} {time : Int} {m : PlainMap}

def visible (s : RowStore) (t : Table) (key : String) (time : Int) : Option Entry :=
  ((s.rowAt t key).filter (·.isLive time)).map entryOf

theorem visible_eq_some_iff {e : Entry} :
    s.visible t key time = some e ↔ ∃ r, s.rowAt t key = some r ∧ r.isLive time ∧ entryOf r = e := by
  simp only [visible, Option.map_eq_some_iff, Option.filter_eq_some_iff, and_assoc]

theorem map_filter_entryOf (found : Option Row) (time : Int) :
    (found.filter (·.isLive time)).map entryOf =
      (found.map entryOf).filter (·.isPresent time) := by
  cases found with
  | none => rfl
  | some r =>
    rw [Option.map_some, Option.filter_some, Option.filter_some, isPresent_entryOf]
    split <;> rfl

theorem visible_write (payload : Payload) (lifetime : Option Int) :
    (s.write t key payload lifetime).visible u key' time =
      if u = t ∧ key' = key then
        (some ⟨payload, lifetime.map (Lifetime.deadline · s.now)⟩ : Option Entry).filter
          (·.isPresent time)
      else s.visible u key' time := by
  rw [visible, rowAt_write]
  split
  · exact map_filter_entryOf (some _) time
  · rfl

theorem visible_remove : (s.remove t key).visible u key' time =
    if u = t ∧ key' = key then none else s.visible u key' time := by
  rw [visible, rowAt_remove]
  split <;> rfl

theorem visible_removePartition {partition : String} :
    (s.removePartition t partition).visible u key time =
      if u = t ∧ (RowKey.lead partition).toList <+: key.toList then none
      else s.visible u key time := by
  rw [visible, rowAt_removePartition]
  split <;> rfl

theorem Reclaimed.visible_eq (h : Reclaimed s s') (hle : s.now ≤ time) :
    s'.visible t key time = s.visible t key time := by
  rcases h.rows t key with heq | ⟨hnone, r, hr, hdead⟩
  · rw [visible, visible, heq]
  · have hlater : r.isLive time = false :=
      Bool.eq_false_iff.mpr fun hl => by rw [Row.isLive_of_le hle hl] at hdead; cases hdead
    rw [visible, visible, hnone, hr]
    simp [Option.filter, hlater]

theorem reclaimAll_ok (h : ∀ t, s.Readable t) (entries : List String) :
    ∃ n s', s.reclaimAll entries = .ok (n, s') := by
  rcases s.reclaimAll_cases entries with ⟨-, t, key, -, hcell⟩ | ⟨s', hok, -⟩
  · exact absurd hcell (h t key)
  · exact ⟨_, s', hok⟩

structure Represents (s : RowStore) (m : PlainMap) : Prop where
  now : s.now = m.now
  readable : ∀ t, s.Readable t
  placed : ∀ {t key e}, m.find? t key = some e → NulFree key.partition
  visible : ∀ {t key time}, NulFree key.partition → s.now ≤ time →
    s.visible t key.encode time = (m.find? t key).filter (·.isPresent time)

theorem represents_empty (now : Int) : Represents (empty now) (.empty now) where
  now := rfl
  readable := readable_empty now
  placed h := by cases h
  visible _ _ := by rw [RowStore.visible, rowAt_empty]; rfl

namespace Represents

variable {k : RowKey} {payload : Payload} {lifetime : Option Int} {partition : String}

theorem present_eq (h : Represents s m) (hk : NulFree k.partition) :
    ((s.rowAt t k.encode).filter (·.isLive s.now)).map entryOf = m.present t k := by
  rw [PlainMap.present, ← h.now]
  exact h.visible hk (Int.le_refl _)

theorem isSome_present (h : Represents s m) (hk : NulFree k.partition) :
    ((s.rowAt t k.encode).filter (·.isLive s.now)).isSome = (m.present t k).isSome := by
  rw [← h.present_eq hk, Option.isSome_map]

theorem present_iff (h : Represents s m) (hk : NulFree k.partition) {e : Entry} :
    m.present t k = some e ↔ ∃ r, s.rowAt t k.encode = some r ∧ r.isLive s.now ∧ entryOf r = e := by
  rw [← h.present_eq hk, ← visible_eq_some_iff, RowStore.visible]

theorem write (h : Represents s m) (hk : NulFree k.partition) :
    Represents (s.write t k.encode payload lifetime) (m.insert t k payload lifetime) where
  now := h.now
  readable u := (h.readable u).write _ _ _
  placed {u k' e} he := by
    rw [PlainMap.find?_insert] at he
    split at he
    · next heq => exact heq.2 ▸ hk
    · exact h.placed he
  visible {u k' time} hk' hle := by
    simp only [visible_write, PlainMap.find?_insert, RowKey.encode_inj hk' hk, ← h.now]
    split
    · rfl
    · exact h.visible hk' hle

theorem erase (h : Represents s m) {p : RowKey → Bool} (hnow : s'.now = s.now)
    (hread : ∀ u, s'.Readable u)
    (hrows : ∀ u k' time, NulFree k'.partition →
      s'.visible u k'.encode time = if u = t ∧ p k' then none else s.visible u k'.encode time) :
    Represents s' (m.erase t p) where
  now := hnow.trans h.now
  readable := hread
  placed he := by
    rw [PlainMap.find?_erase] at he
    split at he
    · cases he
    · exact h.placed he
  visible {u k' time} hk' hle := by
    rw [hrows u k' time hk', PlainMap.find?_erase]
    split
    · rfl
    · exact h.visible hk' (hnow ▸ hle)

theorem remove (h : Represents s m) (hk : NulFree k.partition) :
    Represents (s.remove t k.encode) (m.erase t (· = k)) := by
  refine h.erase (now_remove ..) (fun u => (h.readable u).remove _) fun u k' time hk' => ?_
  simp only [visible_remove, RowKey.encode_inj hk' hk, decide_eq_true_eq]

theorem removePartition (h : Represents s m) (hp : NulFree partition) :
    Represents (s.removePartition t partition) (m.erase t (·.partition = partition)) := by
  refine h.erase (now_removePartition _) (fun u => (h.readable u).removePartition _)
    fun u k' time hk' => ?_
  simp only [visible_removePartition, RowKey.lead_prefix_encode_iff hk' hp, decide_eq_true_eq]

theorem reclaimed (h : Represents s m) (hs : Reclaimed s s') : Represents s' m where
  now := hs.now.trans h.now
  readable t := hs.readable (h.readable t)
  placed := h.placed
  visible hk hle := by
    rw [hs.now] at hle
    rw [hs.visible_eq hle, h.visible hk hle]

theorem later (h : Represents s m) {millis : Int} (hm : 0 ≤ millis) :
    Represents { s with now := s.now + millis } { m with now := m.now + millis } where
  now := congrArg (· + millis) h.now
  readable := h.readable
  placed := h.placed
  visible hk hle := h.visible hk (by have : s.now + millis ≤ _ := hle; omega)

theorem listed_eq (h : Represents s m) {found : List (RowKey × Row)} {p : RowKey → Bool}
    (hmem : ∀ e, e ∈ found ↔ NulFree e.1.partition ∧ p e.1 ∧ s.rowAt t e.1.encode = some e.2 ∧
      e.2.isLive s.now)
    (hord : found.Pairwise fun a b => a.1.encode < b.1.encode) :
    found.map (fun e => (e.1, entryOf e.2)) = m.listed t p := by
  apply PlainMap.eq_listed
  · intro k e
    rw [List.mem_map]
    constructor
    · rintro ⟨⟨k', r⟩, he, heq⟩
      obtain ⟨rfl, rfl⟩ := Prod.mk.inj heq
      obtain ⟨hk, hp, hrow, hlive⟩ := (hmem _).mp he
      exact ⟨hp, (h.present_iff hk).mpr ⟨r, hrow, hlive, rfl⟩⟩
    · rintro ⟨hp, hpresent⟩
      have hk := h.placed (Option.filter_eq_some_iff.mp hpresent).1
      obtain ⟨r, hrow, hlive, rfl⟩ := (h.present_iff hk).mp hpresent
      exact ⟨(k, r), (hmem _).mpr ⟨hk, hp, hrow, hlive⟩, rfl⟩
  · rw [List.pairwise_map]
    refine hord.imp_of_mem fun {a b} ha hb hlt => ?_
    exact precedes_of_encode_lt ((hmem a).mp ha).1 ((hmem b).mp hb).1 hlt

theorem scan_eq (h : Represents s m) (hp : NulFree partition) :
    (s.scan t partition).map (fun e => (e.1, entryOf e.2)) =
      m.listed t (·.partition = partition) := by
  have hmem : ∀ e, e ∈ s.scan t partition ↔ NulFree e.1.partition ∧
      decide (e.1.partition = partition) ∧ s.rowAt t e.1.encode = some e.2 ∧ e.2.isLive s.now := by
    intro e
    rw [show e ∈ s.scan t partition ↔ _ from mem_scan_iff hp, decide_eq_true_eq]
    exact ⟨fun hin => ⟨hin.1 ▸ hp, hin⟩, And.right⟩
  exact h.listed_eq hmem scan_encode_ascending

theorem scanTable_eq (h : Represents s m) :
    (s.live (s.rows t)).map (fun e => (e.1, entryOf e.2)) = m.listed t fun _ => true := by
  apply h.listed_eq _ liveRows_ascending
  intro e
  rw [mem_liveRows]
  simp

theorem occupied_iff (h : Represents s m) (hk : NulFree k.partition) :
    s.Occupied t k ↔ ∃ e, e ∈ m.listed t fun k' => k'.partition = k.partition && k' ≠ k := by
  rw [RowStore.occupied_iff hk]
  constructor
  · rintro ⟨c, row, hne, hrow, hlive⟩
    refine ⟨(⟨k.partition, c⟩, entryOf row), PlainMap.mem_listed_iff.mpr ⟨?_, ?_⟩⟩
    · have hother : (⟨k.partition, c⟩ : RowKey) ≠ k := fun heq =>
        hne (congrArg RowKey.clustering heq)
      simp [hother]
    · exact (h.present_iff (k := ⟨k.partition, c⟩) hk).mpr ⟨row, hrow, hlive, rfl⟩
  · rintro ⟨⟨k', e⟩, he⟩
    obtain ⟨hp, hpresent⟩ := PlainMap.mem_listed_iff.mp he
    simp only [Bool.and_eq_true, decide_eq_true_eq] at hp
    obtain ⟨hpart, hne⟩ := hp
    obtain ⟨row, hrow, hlive, -⟩ := (h.present_iff (hpart ▸ hk)).mp hpresent
    refine ⟨k'.clustering, row, fun heq => hne ?_, ?_, hlive⟩
    · obtain ⟨p, c⟩ := k
      obtain ⟨p', c'⟩ := k'
      rw [show p' = p from hpart, show c' = c from heq]
    · rw [← hpart]
      exact hrow

theorem countP_inPartition (h : Represents s m) (hp : NulFree partition) :
    (s.inPartition t partition).countP (·.2.isLive s.now) =
      (m.listed t (·.partition = partition)).length := by
  rw [← h.scan_eq hp, List.length_map, length_scan hp]

end Represents

/-- The calls a plain map can answer: of partitions without U+0000, and with a clock that does not go
back. -/
def Call.Plain : Call → Prop
  | .put _ key _ _ => NulFree key.partition
  | .putIfAbsent _ key _ _ => NulFree key.partition
  | .putIfVersion .. => False
  | .putIfPartitionVacant _ key _ _ => NulFree key.partition
  | .get _ key => NulFree key.partition
  | .take _ key => NulFree key.partition
  | .delete _ key => NulFree key.partition
  | .deletePartition _ partition => NulFree partition
  | .scanPartition _ partition => NulFree partition
  | .scanTable _ => True
  | .deleteExpired => True
  | .moveClock millis => 0 ≤ millis

theorem Represents.perform (h : Represents s m) {call : Call} (hc : call.Plain) :
    ∃ s', call.perform s = .ok ((m.perform call).1, s') ∧ Represents s' (m.perform call).2 := by
  cases call with
  | put t key payload lifetime =>
    rw [Call.perform, put_eq key payload lifetime (h.readable t)]
    exact ⟨_, rfl, h.write hc⟩
  | putIfAbsent t key payload lifetime =>
    rw [Call.perform, putIfAbsent_eq (h.readable t), h.isSome_present hc, PlainMap.perform]
    split
    · exact ⟨s, rfl, h⟩
    · exact ⟨_, rfl, h.write hc⟩
  | putIfVersion t key payload expected lifetime => exact hc.elim
  | putIfPartitionVacant t key payload lifetime =>
    rw [Call.perform, putIfPartitionVacant_eq (h.readable t), PlainMap.perform]
    by_cases hocc : s.Occupied t key
    · obtain ⟨e, he⟩ := (h.occupied_iff hc).mp hocc
      rw [if_pos hocc, if_neg fun hnil => List.not_mem_nil (List.isEmpty_iff.mp hnil ▸ he)]
      exact ⟨s, rfl, h⟩
    · have hnil := List.eq_nil_iff_forall_not_mem.mpr fun e he =>
        hocc ((h.occupied_iff hc).mpr ⟨e, he⟩)
      rw [if_neg hocc, hnil]
      exact ⟨_, rfl, h.write hc⟩
  | get t key =>
    rw [Call.perform, get_eq key (h.readable t), PlainMap.perform, ← h.present_eq hc]
    exact ⟨s, rfl, h⟩
  | take t key =>
    rw [Call.perform, take_eq key (h.readable t), PlainMap.perform, ← h.present_eq hc]
    exact ⟨_, rfl, h.remove hc⟩
  | delete t key =>
    rw [Call.perform, delete_eq key (h.readable t), PlainMap.perform, h.isSome_present hc]
    exact ⟨_, rfl, h.remove hc⟩
  | deletePartition t partition =>
    rw [Call.perform, deletePartition_eq (h.readable t), PlainMap.perform, ← h.countP_inPartition hc]
    exact ⟨_, rfl, h.removePartition hc⟩
  | scanPartition t partition =>
    rw [Call.perform, scanPartition_eq (h.readable t), PlainMap.perform, ← h.scan_eq hc]
    exact ⟨s, rfl, h⟩
  | scanTable t =>
    rw [Call.perform, RowStore.scanTable_eq (h.readable t), PlainMap.perform, ← h.scanTable_eq]
    exact ⟨s, rfl, h⟩
  | deleteExpired =>
    obtain ⟨n, s', hok⟩ := reclaimAll_ok h.readable (dueEntries s.now s.deadlines.toList)
    rw [Call.perform, deleteExpired, hok]
    exact ⟨s', rfl, h.reclaimed (reclaimed_reclaimAll hok)⟩
  | moveClock millis => exact ⟨_, rfl, h.later hc⟩

theorem Represents.run (h : Represents s m) {calls : List Call} (hc : ∀ c ∈ calls, c.Plain) :
    ∃ s', Call.run s calls = .ok ((m.run calls).1, s') ∧ Represents s' (m.run calls).2 := by
  induction calls generalizing s m with
  | nil => exact ⟨s, rfl, h⟩
  | cons call rest ih =>
    obtain ⟨s₁, hone, h₁⟩ := h.perform (hc call List.mem_cons_self)
    obtain ⟨s', hrest, h'⟩ := ih h₁ fun c hmem => hc c (List.mem_cons_of_mem _ hmem)
    refine ⟨s', ?_, h'⟩
    rw [Call.run, hone]
    simp only [bind, Except.bind, hrest]
    rfl

/-- Whatever mixture of dead rows and sweeps a run leaves, its answers are those of a plain map. -/
theorem answers_of_plain_map (start : Int) (calls : List Call) (h : ∀ c ∈ calls, c.Plain) :
    (Call.run (empty start) calls).map (·.1) = .ok ((PlainMap.empty start).run calls).1 := by
  obtain ⟨s', hrun, -⟩ := (represents_empty start).run h
  rw [hrun]
  rfl

theorem answers_of_plain_map_after_expiry :
    (Call.run (empty 0) [.put .users ⟨"a", "x"⟩ (.bytes [1]) (some 5),
      .put .users ⟨"ab", "y"⟩ (.bytes [2]) none, .moveClock 5000, .scanPartition .users "a",
      .deleteExpired, .scanTable .users]).map (·.1) =
    .ok [.done, .done, .done, .listed [], .done,
      .listed [(⟨"ab", "y"⟩, ⟨.bytes [2], none⟩)]] := by
  have hdeadline : Lifetime.deadline 5 0 = 5000 := by decide
  rw [answers_of_plain_map 0 _ (by simp [Call.Plain]; decide)]
  simp [PlainMap.run, PlainMap.perform, PlainMap.insert, PlainMap.erase, PlainMap.empty,
    PlainMap.listed, Entry.isPresent, hdeadline]

end IdentityDirectory.RowStore
