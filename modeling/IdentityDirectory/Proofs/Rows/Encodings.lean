import IdentityDirectory.Proofs.Rows.Deadlines
import IdentityDirectory.Proofs.Rows.Partitions
import IdentityDirectory.Proofs.Text.ByteOrder
import Mathlib.Data.List.Basic

/-!
Keys of rows and entries of the expiry index as bytes: each can be read back, and the order of the
bytes is the one that scans and sweeps rely on. Main statements:
`Deadline.entries_read_back_in_order`, and `RowKey.keys_read_back_and_partitions_together`, that the
keys which a walk over a partition passes are those of the partition.
-/

namespace IdentityDirectory

namespace Deadline

/-- Whatever separators the key of the row holds, its entry is read back with a deadline that is not
negative, and an earlier deadline comes first in the index. -/
theorem entries_read_back_in_order {d d' : Deadline} (h : d.instant ≤ Time.latest)
    (h' : d'.instant ≤ Time.latest) :
    decode? d.encode = some ⟨max d.instant 0, d.table, d.rowKey⟩ ∧
      (d.encode = d'.encode ↔
        max d.instant 0 = max d'.instant 0 ∧ d.table = d'.table ∧ d.rowKey = d'.rowKey) ∧
      (max d.instant 0 < max d'.instant 0 → Text.bytes d.encode < Text.bytes d'.encode) :=
  ⟨decode?_encode h, encode_inj h h', fun hlt => Text.bytes_lt_iff.mpr (encode_lt h' hlt)⟩

theorem entries_read_back_in_order_with_separators :
    let d : Deadline := ⟨-5, .users, "r\x00u"⟩
    let d' : Deadline := ⟨Time.latest, .userSessions, "r\x00\x1es\x1eoffline"⟩
    d.instant ≤ Time.latest ∧ d'.instant ≤ Time.latest ∧
      decode? d.encode = some { d with instant := 0 } ∧ decode? d'.encode = some d' ∧
      d.encode ≠ d'.encode ∧ Text.bytes d.encode < Text.bytes d'.encode := by
  intro d d'
  have h : d.instant ≤ Time.latest := by decide
  have h' : d'.instant ≤ Time.latest := by decide
  obtain ⟨hread, hinj, hlt⟩ := entries_read_back_in_order h h'
  refine ⟨h, h', hread, (entries_read_back_in_order h' h).1, ?_, hlt (by decide)⟩
  exact fun heq => absurd (hinj.mp heq).1 (by decide)

end Deadline

namespace RowKey

theorem exists_of_mem {s : String} (h : partitionEnd ∈ s.toList) :
    ∃ k, decode? s = some k ∧ k.encode = s := by
  obtain ⟨a, b, hsplit, ha⟩ := List.eq_append_cons_of_mem h
  have hs : encode ⟨.ofList a, .ofList b⟩ = s := by
    rw [← String.toList_inj, toList_encode, hsplit]
    simp
  refine ⟨_, ?_, hs⟩
  rw [← hs]
  exact decode?_encode (by simpa [NulFree] using ha)

theorem decode?_encode_iff {k : RowKey} : decode? k.encode = some k ↔ NulFree k.partition :=
  ⟨fun h => (eq_of_decode? h).2, decode?_encode⟩

end RowKey

namespace StringMap

variable {α : Type} {m : StringMap α} {lead partition : String}

theorem mem_startingWith_iff {e : String × α} :
    e ∈ m.startingWith lead ↔ e ∈ m.entries ∧ lead.toList <+: e.1.toList := by
  rw [startingWith_eq_filter, List.mem_filter, List.isPrefixOf_iff_prefix]

theorem startingWith_ascending (m : StringMap α) (lead : String) :
    (m.startingWith lead).Pairwise fun a b => a.1 < b.1 := by
  rw [startingWith_eq_filter]
  exact m.ascending.filter _

def partitionKeys (m : StringMap α) (partition : String) : List RowKey :=
  (m.startingWith (RowKey.lead partition)).filterMap fun e => RowKey.decode? e.1

theorem decode?_of_mem_startingWith (hp : NulFree partition) {e : String × α}
    (he : e ∈ m.startingWith (RowKey.lead partition)) :
    ∃ c, e.1 = RowKey.encode ⟨partition, c⟩ ∧ RowKey.decode? e.1 = some ⟨partition, c⟩ := by
  obtain ⟨c, hc⟩ := RowKey.lead_prefix_iff.mp (mem_startingWith_iff.mp he).2
  exact ⟨c, hc, hc ▸ RowKey.decode?_encode (k := ⟨partition, c⟩) hp⟩

theorem map_encode_partitionKeys (hp : NulFree partition) :
    (m.partitionKeys partition).map RowKey.encode =
      (m.startingWith (RowKey.lead partition)).map (·.1) := by
  have hdec : ∀ e ∈ m.startingWith (RowKey.lead partition),
      (RowKey.decode? e.1).map RowKey.encode = some e.1 := by
    intro e he
    obtain ⟨c, hc, hk⟩ := decode?_of_mem_startingWith hp he
    rw [hk, hc, Option.map_some]
  rw [partitionKeys, List.map_filterMap, List.filterMap_congr hdec, List.filterMap_eq_map']

theorem mem_partitionKeys_iff (hp : NulFree partition) {k : RowKey} :
    k ∈ m.partitionKeys partition ↔ k.partition = partition ∧ k.encode ∈ m := by
  rw [partitionKeys, List.mem_filterMap]
  constructor
  · rintro ⟨e, he, hk⟩
    obtain ⟨c, hc, hk'⟩ := decode?_of_mem_startingWith hp he
    obtain rfl := Option.some.inj (hk.symm.trans hk')
    refine ⟨rfl, mem_keys_iff.mp (List.mem_map.mpr ⟨e, (mem_startingWith_iff.mp he).1, hc⟩)⟩
  · rintro ⟨rfl, hmem⟩
    obtain ⟨e, he, hkey⟩ := List.mem_map.mp (mem_keys_iff.mpr hmem)
    refine ⟨e, mem_startingWith_iff.mpr ⟨he, ?_⟩, hkey ▸ RowKey.decode?_encode hp⟩
    exact RowKey.lead_prefix_iff.mpr ⟨k.clustering, hkey⟩

theorem partitionKeys_ascending (hp : NulFree partition) :
    (m.partitionKeys partition).Pairwise fun a b => a.clustering < b.clustering := by
  have hkeys : ((m.partitionKeys partition).map RowKey.encode).Pairwise (· < ·) := by
    rw [map_encode_partitionKeys hp, List.pairwise_map]
    exact startingWith_ascending m _
  refine (List.pairwise_map.mp hkeys).imp_of_mem fun {a b} ha hb hlt => ?_
  obtain ⟨p, c⟩ := a
  obtain ⟨p', c'⟩ := b
  obtain rfl : p = partition := ((mem_partitionKeys_iff hp).mp ha).1
  obtain rfl : p' = p := ((mem_partitionKeys_iff hp).mp hb).1
  exact RowStore.lt_of_encode_lt hlt

end StringMap

namespace RowKey

open StringMap

/-- A text is a key if it has a separator, and a key is read back as it was unless its partition has
one. A walk from the lead of a partition to the first key without it passes all keys that start
with the lead, and they are the keys of the partition in the order of their clustering keys. -/
theorem keys_read_back_and_partitions_together :
    (∀ s : String, partitionEnd ∈ s.toList → ∃ k, decode? s = some k ∧ k.encode = s) ∧
      (∀ k : RowKey, decode? k.encode = some k ↔ NulFree k.partition) ∧
      ∀ {α : Type} (m : StringMap α) (partition : String),
        (∀ e, e ∈ m.startingWith (lead partition) ↔
          e ∈ m.entries ∧ (lead partition).toList <+: e.1.toList) ∧
        ((m.startingWith (lead partition)).Pairwise fun a b => Text.bytes a.1 < Text.bytes b.1) ∧
        (NulFree partition →
          (m.startingWith (lead partition)).map (·.1) = (m.partitionKeys partition).map encode ∧
          (∀ k, k ∈ m.partitionKeys partition ↔ k.partition = partition ∧ k.encode ∈ m) ∧
          (m.partitionKeys partition).Pairwise fun a b =>
            Text.bytes a.clustering < Text.bytes b.clustering) := by
  refine ⟨fun s => exists_of_mem, fun k => decode?_encode_iff, fun m partition => ⟨?_, ?_, ?_⟩⟩
  · exact fun e => mem_startingWith_iff
  · exact (startingWith_ascending m _).imp Text.bytes_lt_iff.mpr
  · intro hp
    refine ⟨(map_encode_partitionKeys hp).symm, fun k => mem_partitionKeys_iff hp, ?_⟩
    exact (partitionKeys_ascending hp).imp Text.bytes_lt_iff.mpr

theorem keys_read_back_and_partitions_together_of_prefixes :
    let m : StringSet := .ofList ["", "r", "r\x00b", "r\x00a\x00b", "r2\x00c", "q\x00r\x00d"]
    NulFree "r" ∧ (m.startingWith "r\x00").map (·.1) = ["r\x00a\x00b", "r\x00b"] ∧
      m.partitionKeys "r" = [⟨"r", "a\x00b"⟩, ⟨"r", "b"⟩] ∧
      (m.partitionKeys "r").Pairwise fun a b =>
        Text.bytes a.clustering < Text.bytes b.clustering := by
  intro m
  have hp : NulFree "r" := by decide
  obtain ⟨hkeys, -, hord⟩ := (keys_read_back_and_partitions_together.2.2 m "r").2.2 hp
  have hrun : m.partitionKeys "r" = [⟨"r", "a\x00b"⟩, ⟨"r", "b"⟩] := by decide +kernel
  refine ⟨hp, hkeys.trans ?_, hrun, hord⟩
  rw [hrun]
  decide

end RowKey

end IdentityDirectory
