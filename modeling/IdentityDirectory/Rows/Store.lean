import IdentityDirectory.Rows.Deadline
import IdentityDirectory.Rows.Key
import IdentityDirectory.Rows.Payload
import IdentityDirectory.StringMap
import IdentityDirectory.Time

/-!
The row store: tables of rows by encoded key, the expiry index, and the time on the clock. A row
whose deadline has come stays in its table until it is overwritten, removed or swept, but counts as
absent.
-/

namespace IdentityDirectory

inductive StorageFault where
  | decode
  | io
  deriving DecidableEq

structure Row where
  expiresAt : Option Int
  version : Nat
  payload : Payload
  deriving DecidableEq

namespace Row

def isLive (r : Row) (now : Int) : Bool :=
  match r.expiresAt with
  | none => true
  | some deadline => now < deadline

def read {α : Type} [Storable α] (r : Row) : Except StorageFault α :=
  match Storable.ofPayload? r.payload with
  | some a => .ok a
  | none => .error .decode

end Row

inductive Cell where
  | row (row : Row)
  | unreadable
  deriving DecidableEq

def Cell.read : Cell → Except StorageFault Row
  | row r => .ok r
  | unreadable => .error .decode

structure RowStore where
  tables : Vector (StringMap Cell) 19
  deadlines : StringSet
  now : Int

namespace RowStore

def empty (now : Int) : RowStore := ⟨.replicate 19 ∅, ∅, now⟩

inductive Location where
  | directory
  | plainFile

/-- A plain file cannot hold a store. -/
def openAt (location : Location) (now : Int) : Except StorageFault RowStore :=
  match location with
  | .directory => .ok (empty now)
  | .plainFile => .error .io

def table (s : RowStore) (t : Table) : StringMap Cell := s.tables[t.index]

def setTable (s : RowStore) (t : Table) (m : StringMap Cell) : RowStore :=
  { s with tables := s.tables.set t.index m }

theorem table_empty (now : Int) (t : Table) : (empty now).table t = ∅ := by
  simp [empty, table]

theorem table_setTable (s : RowStore) (t u : Table) (m : StringMap Cell) :
    (s.setTable t m).table u = if u = t then m else s.table u := by
  by_cases h : u = t
  · subst h
    simp [table, setTable]
  · have hne : t.index.val ≠ u.index.val := fun hv => h (Table.index_injective (Fin.ext hv)).symm
    simp [table, setTable, h, Vector.getElem_set_ne _ _ hne]

theorem ext_table {s s' : RowStore} (ht : ∀ t, s.table t = s'.table t)
    (hd : s.deadlines = s'.deadlines) (hn : s.now = s'.now) : s = s' := by
  obtain ⟨tables, deadlines, now⟩ := s
  obtain ⟨tables', deadlines', now'⟩ := s'
  have hv : tables = tables' := by
    apply Vector.ext
    intro i hi
    obtain ⟨t, rfl⟩ : ∃ t : Table, t.index.val = i := by
      obtain ⟨t, h⟩ := Table.exists_index ⟨i, hi⟩
      exact ⟨t, congrArg Fin.val h⟩
    simpa [table] using ht t
  simp only at hd hn
  rw [hv, hd, hn]

variable (s : RowStore) (t : Table)

def row? (key : String) : Except StorageFault (Option Row) :=
  match (s.table t).get? key with
  | none => .ok none
  | some cell => cell.read.map some

def rowsOf : List (String × Cell) → Except StorageFault (List (String × Row)) :=
  List.mapM fun e => return (e.1, ← e.2.read)

def partitionRows (partition : String) : Except StorageFault (List (String × Row)) :=
  rowsOf ((s.table t).startingWith (RowKey.lead partition))

def tableRows : Except StorageFault (List (String × Row)) := rowsOf (s.table t).entries

def live (rows : List (String × Row)) : List (RowKey × Row) :=
  rows.filterMap fun e =>
    if e.2.isLive s.now then (RowKey.decode? e.1).map (·, e.2) else none

def get (key : RowKey) : Except StorageFault (Option Row) := do
  return (← s.row? t key.encode).filter (·.isLive s.now)

def scanPartition (partition : String) : Except StorageFault (List (RowKey × Row)) := do
  return s.live (← s.partitionRows t partition)

def scanTable : Except StorageFault (List (RowKey × Row)) := do
  return s.live (← s.tableRows t)

end RowStore

end IdentityDirectory
