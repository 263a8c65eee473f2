import IdentityDirectory.Rows.Write

/-!
The sweep removes rows whose deadline has come. It follows the expiry index in the order of
deadlines and trusts only the deadline of the row itself, so an entry that points astray does no
harm.
-/

namespace IdentityDirectory.RowStore

/-- The entries up to the first deadline still to come, malformed ones among them included. -/
def dueEntries (now : Int) : List String → List String
  | [] => []
  | entry :: rest =>
    match Deadline.decode? entry with
    | none => entry :: dueEntries now rest
    | some d => if d.instant ≤ now then entry :: dueEntries now rest else []

def reclaim (s : RowStore) (entry : String) : Except StorageFault (Nat × RowStore) := do
  match Deadline.decode? entry with
  | none => return (0, s)
  | some d =>
    match ← s.row? d.table d.rowKey with
    | none => return (0, s)
    | some row =>
      if row.isLive s.now then return (0, s)
      else return (1, s.setTable d.table ((s.table d.table).erase d.rowKey))

def reclaimAll (s : RowStore) : List String → Except StorageFault (Nat × RowStore)
  | [] => .ok (0, s)
  | entry :: rest => do
    let (n, s') ← s.reclaim entry
    let (m, s'') ← reclaimAll { s' with deadlines := s'.deadlines.erase entry } rest
    return (n + m, s'')

def deleteExpired (s : RowStore) : Except StorageFault (Nat × RowStore) :=
  s.reclaimAll (dueEntries s.now s.deadlines.toList)

/-- A sweep in the background: a failed one removes nothing and counts as zero. -/
def sweep (s : RowStore) : Nat × RowStore :=
  match s.deleteExpired with
  | .ok result => result
  | .error _ => (0, s)

end IdentityDirectory.RowStore
