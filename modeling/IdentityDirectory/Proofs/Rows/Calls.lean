import IdentityDirectory.Proofs.Rows.Partitions

/-!
The calls of the row store as data, and runs of them.
-/

namespace IdentityDirectory.RowStore

inductive Call where
  | put (t : Table) (key : RowKey) (payload : Payload) (lifetime : Option Int)
  | putIfAbsent (t : Table) (key : RowKey) (payload : Payload) (lifetime : Option Int)
  | putIfVersion (t : Table) (key : RowKey) (payload : Payload) (expected : Option Nat)
      (lifetime : Option Int)
  | putIfPartitionVacant (t : Table) (key : RowKey) (payload : Payload) (lifetime : Option Int)
  | get (t : Table) (key : RowKey)
  | take (t : Table) (key : RowKey)
  | delete (t : Table) (key : RowKey)
  | deletePartition (t : Table) (partition : String)
  | scanPartition (t : Table) (partition : String)
  | scanTable (t : Table)
  | deleteExpired
  | moveClock (millis : Int)

structure Entry where
  payload : Payload
  deadline : Option Int
  deriving DecidableEq

def Entry.isPresent (e : Entry) (now : Int) : Bool := e.deadline.all (now < ·)

def entryOf (r : Row) : Entry := ⟨r.payload, r.expiresAt⟩

theorem isPresent_entryOf (r : Row) (now : Int) : (entryOf r).isPresent now = r.isLive now := by
  obtain ⟨deadline, _, _⟩ := r
  cases deadline <;> rfl

/-- What a caller learns, apart from version numbers and from how many rows a sweep reclaimed. -/
inductive Answer where
  | done
  | flag (value : Bool)
  | count (value : Nat)
  | entry (found : Option Entry)
  | listed (found : List (RowKey × Entry))
  deriving DecidableEq

namespace Call

def perform (s : RowStore) : Call → Except StorageFault (Answer × RowStore)
  | put t key payload lifetime => (s.put t key payload lifetime).map fun r => (.done, r.2)
  | putIfAbsent t key payload lifetime =>
    (s.putIfAbsent t key payload lifetime).map fun r => (.flag r.1, r.2)
  | putIfVersion t key payload expected lifetime =>
    (s.putIfVersion t key payload expected lifetime).map fun r => (.flag r.1.isApplied, r.2)
  | putIfPartitionVacant t key payload lifetime =>
    (s.putIfPartitionVacant t key payload lifetime).map fun r => (.flag r.1, r.2)
  | get t key => (s.get t key).map fun found => (.entry (found.map entryOf), s)
  | take t key => (s.take t key).map fun r => (.entry (r.1.map entryOf), r.2)
  | delete t key => (s.delete t key).map fun r => (.flag r.1, r.2)
  | deletePartition t partition =>
    (s.deletePartition t partition).map fun r => (.count r.1, r.2)
  | scanPartition t partition =>
    (s.scanPartition t partition).map fun found =>
      (.listed (found.map fun e => (e.1, entryOf e.2)), s)
  | scanTable t =>
    (s.scanTable t).map fun found => (.listed (found.map fun e => (e.1, entryOf e.2)), s)
  | deleteExpired => s.deleteExpired.map fun r => (.done, r.2)
  | moveClock millis => .ok (.done, { s with now := s.now + millis })

def run (s : RowStore) : List Call → Except StorageFault (List Answer × RowStore)
  | [] => .ok ([], s)
  | call :: rest => do
    let (answer, s') ← call.perform s
    let (answers, s'') ← run s' rest
    return (answer :: answers, s'')

end Call

theorem scanTable_eq {s : RowStore} {t : Table} (h : s.Readable t) :
    s.scanTable t = .ok (s.live (s.rows t)) := by
  rw [scanTable, tableRows_eq h]
  rfl

theorem putIfAbsent_eq {s : RowStore} {t : Table} (h : s.Readable t) (key : RowKey)
    (payload : Payload) (lifetime : Option Int) :
    s.putIfAbsent t key payload lifetime =
      if ((s.rowAt t key.encode).filter (·.isLive s.now)).isSome then .ok (false, s)
      else .ok (true, s.write t key.encode payload lifetime) := by
  rw [putIfAbsent, putIfVersion_eq key payload lifetime h]
  cases (s.rowAt t key.encode).filter (·.isLive s.now) <;> rfl

end IdentityDirectory.RowStore
