import IdentityDirectory.Error
import IdentityDirectory.Identifier
import IdentityDirectory.Rows.Write

/-!
The three kinds of computation, each including the one before it: a `Query` reads the rows, an
`Update` also writes them, and a `Work` also draws identifiers and keeps a state of its own between
calls. What an `Update` or a `Work` did before it failed stays done.
-/

namespace IdentityDirectory

abbrev Query := ReaderT RowStore (Except StoreError)

abbrev Update := ExceptT StoreError (StateM RowStore)

/-- Where work is done: the rows, the source of identifiers, and what the worker holds. -/
structure Desk (σ : Type) where
  rows : RowStore
  draws : Draws
  held : σ

abbrev Work (σ : Type) := ExceptT StoreError (StateM (Desk σ))

variable {α β σ τ : Type}

namespace Query

def ofRows (f : RowStore → Except StorageFault α) : Query α := fun s =>
  (f s).mapError .transient

def now : Query Int := fun s => .ok s.now

end Query

namespace Update

def ofRows (f : RowStore → Except StorageFault (α × RowStore)) : Update α := fun s =>
  match f s with
  | .ok (a, s') => (.ok a, s')
  | .error fault => (.error (.transient fault), s)

def ofQuery (q : Query α) : Update α := fun s => (q s, s)

instance : MonadLift Query Update := ⟨ofQuery⟩

end Update

namespace Work

def ofUpdate (u : Update α) : Work σ α := fun d =>
  let (result, rows) := u d.rows
  (result, { d with rows })

instance : MonadLift Update (Work σ) := ⟨ofUpdate⟩

def held : Work σ σ := fun d => (.ok d.held, d)

def modifyHeld (f : σ → σ) : Work σ Unit := fun d => (.ok (), { d with held := f d.held })

def newId : Work σ String := fun d =>
  (.ok (Identifier.hyphenated (d.draws.value d.draws.next)),
    { d with draws := { d.draws with next := d.draws.next + 1 } })

def nextId : Work σ String := fun d => (.ok (Identifier.hyphenated (d.draws.value d.draws.next)), d)

/-- An identifier counts as drawn only once the work with it is done. -/
def withNewId (f : String → Work σ α) : Work σ α := do
  let a ← f (← nextId)
  let _ ← newId
  return a

def countTrue (act : α → Work σ Bool) : List α → Work σ Nat
  | [] => return 0
  | a :: rest => do
    let done ← act a
    return (if done then 1 else 0) + (← countTrue act rest)

end Work

structure Part (σ τ : Type) where
  get : σ → τ
  set : τ → σ → σ
  get_set (t : τ) (s : σ) : get (set t s) = t := by intros; rfl
  set_get (s : σ) : set (get s) s = s := by intros; rfl

def Work.on (part : Part σ τ) (work : Work τ α) : Work σ α := fun d =>
  let (result, d') := work { d with held := part.get d.held }
  (result, { d' with held := part.set d'.held d.held })

namespace Query

def row (t : Table) (key : RowKey) : Query (Option Row) := ofRows (·.get t key)

def record [Storable α] (t : Table) (key : RowKey) : Query (Option α) :=
  ofRows fun s => do
    match ← s.get t key with
    | none => return none
    | some row => return some (← row.read)

def scanPartition (t : Table) (partition : String) : Query (List (RowKey × Row)) :=
  ofRows (·.scanPartition t partition)

def records (α : Type) [Storable α] (t : Table) (partition : String) : Query (List α) :=
  ofRows fun s => do (← s.scanPartition t partition).mapM (·.2.read)

def allRecords (α : Type) [Storable α] (t : Table) : Query (List α) :=
  ofRows fun s => do (← s.scanTable t).mapM (·.2.read)

end Query

namespace Update

def put [Storable α] (t : Table) (key : RowKey) (record : α) (lifetime : Option Int := none) :
    Update Nat :=
  ofRows (·.put t key (Storable.payload record) lifetime)

def putExpirable [Storable α] [Expirable α] (t : Table) (key : RowKey) (record : α) :
    Update (Option Int) := do
  let lifetime := Lifetime.of record (← Query.now)
  let _ ← put t key record lifetime
  return lifetime

def putIfVersion [Storable α] (t : Table) (key : RowKey) (record : α) (expected : Option Nat) :
    Update RowStore.ConditionalWrite :=
  ofRows (·.putIfVersion t key (Storable.payload record) expected none)

def delete (t : Table) (key : RowKey) : Update Bool := ofRows (·.delete t key)

def deletePartition (t : Table) (partition : String) : Update Nat :=
  ofRows (·.deletePartition t partition)

def take (t : Table) (key : RowKey) : Update (Option Row) := ofRows (·.take t key)

def putIfAbsent [Storable α] (t : Table) (key : RowKey) (record : α)
    (lifetime : Option Int := none) : Update Bool :=
  ofRows (·.putIfAbsent t key (Storable.payload record) lifetime)

end Update

end IdentityDirectory
