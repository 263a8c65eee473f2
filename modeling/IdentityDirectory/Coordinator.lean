import IdentityDirectory.Work.Basic

/-!
Deferred write-back of containers. A container is one row that holds a whole collection of a tenant.
A unit of work loads it once, changes its own copy, and writes it back at most once, when it
completes. A tenant marked as deleted is never written back.
-/

namespace IdentityDirectory

class Aggregate (α : Type) extends Storable α where
  table : Table
  kind : ContainerKind
  empty : String → α

structure Loaded (α : Type) where
  value : α
  version : Option Nat

/-- With `linearizable`, a container is written back only over the version it was loaded at. -/
structure Coordinator (α : Type) where
  linearizable : Bool
  loaded : StringMap (Loaded α) := ∅
  changed : StringSet := ∅
  deleted : StringSet := ∅

namespace Coordinator

variable {α β : Type}

def key (tenant : String) : RowKey := .single tenant

def pendingWrites (c : Coordinator α) : List String :=
  c.changed.toList.filter fun t => t ∉ c.deleted && t ∈ c.loaded

def closed (c : Coordinator α) : Coordinator α := { linearizable := c.linearizable }

def markChanged (tenant : String) : Work (Coordinator α) Unit :=
  Work.modifyHeld fun c => { c with changed := c.changed.insert tenant }

def markDeleted (tenant : String) : Work (Coordinator α) Unit :=
  Work.modifyHeld fun c => { c with deleted := c.deleted.insert tenant }

def keep (tenant : String) (container : Loaded α) : Work (Coordinator α) Unit :=
  Work.modifyHeld fun c => { c with loaded := c.loaded.insert tenant container }

def close : Work (Coordinator α) Unit := Work.modifyHeld closed

variable [Aggregate α]

def stored (tenant : String) : Query (Loaded α) := do
  match ← Query.row (Aggregate.table α) (key tenant) with
  | none => return ⟨Aggregate.empty tenant, none⟩
  | some row => return ⟨← Query.ofRows fun _ => row.read, some row.version⟩

def load (tenant : String) : Work (Coordinator α) (Loaded α) := do
  match (← Work.held).loaded.get? tenant with
  | some container => return container
  | none =>
    let container ← (stored tenant : Query (Loaded α))
    keep tenant container
    return container

def read (tenant : String) (f : α → β) : Work (Coordinator α) β := do
  return f (← load tenant).value

/-- A change that refuses leaves the container as it is and the tenant unmarked. -/
def tryUpdate (tenant : String) (f : α → Except StoreError (β × α)) : Work (Coordinator α) β := do
  let container ← load tenant
  let (result, value) ← f container.value
  keep tenant { container with value }
  markChanged tenant
  return result

def update (tenant : String) (f : α → β × α) : Work (Coordinator α) β :=
  tryUpdate tenant fun value => return f value

def delete (tenant : String) : Work (Coordinator α) Bool := do
  let removed ← Update.delete (Aggregate.table α) (key tenant)
  Work.modifyHeld fun (c : Coordinator α) => { c with loaded := c.loaded.erase tenant }
  markDeleted tenant
  return removed

def putBack (linearizable : Bool) (tenant : String) (container : Loaded α) : Update Nat := do
  if linearizable then
    match ← Update.putIfVersion (Aggregate.table α) (key tenant) container.value
      container.version with
    | .applied version => return version
    | .rejected _ => throw (.concurrentModification (Aggregate.kind α) tenant)
  else Update.put (Aggregate.table α) (key tenant) container.value

def writeBack (tenant : String) : Work (Coordinator α) Bool := do
  let c ← (Work.held : Work (Coordinator α) (Coordinator α))
  if tenant ∈ c.deleted then return false
  match c.loaded.get? tenant with
  | none => return false
  | some container =>
    let version ← putBack c.linearizable tenant container
    keep tenant { container with version := some version }
    return true

/-- Writes back every changed container, in ascending order of tenants, up to the first failure. -/
def flush : Work (Coordinator α) Nat := do
  let tenants := (← (Work.held : Work (Coordinator α) (Coordinator α))).changed.toList
  Work.modifyHeld fun (c : Coordinator α) => { c with changed := ∅ }
  Work.countTrue writeBack tenants

end Coordinator

end IdentityDirectory
