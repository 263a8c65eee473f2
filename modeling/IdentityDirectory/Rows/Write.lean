import IdentityDirectory.Rows.Store

/-!
Writes to the row store. Each takes effect as a whole or, when stored content it depends on cannot
be read, not at all. Every write of a row moves its entry in the expiry index along.
-/

namespace IdentityDirectory.RowStore

variable (s : RowStore) (t : Table)

def dropEntry (key : String) (row : Row) : StringSet :=
  match row.expiresAt with
  | none => s.deadlines
  | some instant => s.deadlines.erase (Deadline.encode ⟨instant, t, key⟩)

def successor (previous : Option Row) (payload : Payload) (lifetime : Option Int) : Row where
  expiresAt := lifetime.map (Lifetime.deadline · s.now)
  version := match previous with
    | none => 1
    | some row => row.version + 1
  payload := payload

def replaceRow (key : String) (previous : Option Row) (row : Row) : RowStore :=
  let kept := match previous with
    | none => s.deadlines
    | some old => s.dropEntry t key old
  let deadlines := match row.expiresAt with
    | none => kept
    | some instant => kept.insert (Deadline.encode ⟨instant, t, key⟩)
  { s.setTable t ((s.table t).insert key (.row row)) with deadlines }

def removeRow (key : String) (row : Row) : RowStore :=
  { s.setTable t ((s.table t).erase key) with deadlines := s.dropEntry t key row }

/-- Writes a row; a lifetime of zero or less writes one that is absent from the start. -/
def put (key : RowKey) (payload : Payload) (lifetime : Option Int) :
    Except StorageFault (Nat × RowStore) := do
  let previous ← s.row? t key.encode
  let row := s.successor previous payload lifetime
  return (row.version, s.replaceRow t key.encode previous row)

def take (key : RowKey) : Except StorageFault (Option Row × RowStore) := do
  match ← s.row? t key.encode with
  | none => return (none, s)
  | some row =>
    return ((some row).filter (·.isLive s.now), s.removeRow t key.encode row)

def delete (key : RowKey) : Except StorageFault (Bool × RowStore) := do
  let (row, s') ← s.take t key
  return (row.isSome, s')

def deletePartition (partition : String) : Except StorageFault (Nat × RowStore) := do
  let rows ← s.partitionRows t partition
  return (rows.countP (·.2.isLive s.now), rows.foldl (fun s e => s.removeRow t e.1 e.2) s)

inductive ConditionalWrite where
  | applied (version : Nat)
  | rejected (current : Option Nat)
  deriving DecidableEq

def ConditionalWrite.isApplied : ConditionalWrite → Bool
  | applied _ => true
  | rejected _ => false

def putIfVersion (key : RowKey) (payload : Payload) (expected : Option Nat)
    (lifetime : Option Int) : Except StorageFault (ConditionalWrite × RowStore) := do
  let previous ← s.row? t key.encode
  let current := (previous.filter (·.isLive s.now)).map (·.version)
  if current = expected then
    let row := s.successor previous payload lifetime
    return (.applied row.version, s.replaceRow t key.encode previous row)
  else return (.rejected current, s)

def putIfAbsent (key : RowKey) (payload : Payload) (lifetime : Option Int) :
    Except StorageFault (Bool × RowStore) := do
  let (outcome, s') ← s.putIfVersion t key payload none lifetime
  return (outcome.isApplied, s')

def putIfPartitionVacant (key : RowKey) (payload : Payload) (lifetime : Option Int) :
    Except StorageFault (Bool × RowStore) := do
  let rows ← s.partitionRows t key.partition
  if rows.any fun e => e.1 ≠ key.encode && e.2.isLive s.now then return (false, s)
  else
    let previous := rows.lookup key.encode
    return (true, s.replaceRow t key.encode previous (s.successor previous payload lifetime))

end IdentityDirectory.RowStore
