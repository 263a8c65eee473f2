import IdentityDirectory.Work.Basic

/-!
Attributes of entities, indexed both ways. The forward row of an attribute holds its values; a
reverse row for each value names the entity. Forward and reverse rows are written one after the
other, and the values in the forward row tell which reverse rows to withdraw.
-/

namespace IdentityDirectory

inductive AttributeIndex where
  | realms
  | clients
  | users
  | userSessions
  deriving DecidableEq

namespace AttributeIndex

def forward : AttributeIndex → Table
  | realms => .realmAttributes
  | clients => .clientAttributes
  | users => .userAttributes
  | userSessions => .userSessionAttributes

def reverse : AttributeIndex → Table
  | realms => .attributeRealms
  | clients => .attributeClients
  | users => .attributeUsers
  | userSessions => .attributeUserSessions

def entityPartition (scope entity : String) : String := RowKey.composite [scope, entity]

def valuePartition (scope name value : String) : String := RowKey.composite [scope, name, value]

def forwardKey (scope entity name : String) : RowKey := ⟨entityPartition scope entity, name⟩

def reverseKey (scope entity name value : String) : RowKey :=
  ⟨valuePartition scope name value, entity⟩

def distinct (values : List String) : List String :=
  values.foldl (fun kept v => if v ∈ kept then kept else kept ++ [v]) []

variable (ix : AttributeIndex) (scope entity name : String)

def valuesOf : Query (List String) := do
  return (← Query.record ix.forward (forwardKey scope entity name)).getD []

def findBy (value : String) : Query (List String) := do
  return (← Query.scanPartition ix.reverse (valuePartition scope name value)).map
    (·.1.clustering)

def findUnique (value : String) : Query (Option String) := do
  match ← ix.findBy scope name value with
  | [] => return none
  | [owner] => return some owner
  | owners => throw (.indexInconsistency name value owners)

def attributesOf : Query (StringMap (List String)) := do
  let rows ← Query.scanPartition ix.forward (entityPartition scope entity)
  let attributes ← Query.ofRows fun _ => rows.mapM fun e => return (e.1.clustering, ← e.2.read)
  return .ofList attributes

def withdraw (values : List String) : Update Unit :=
  values.forM fun v => discard (Update.delete ix.reverse (reverseKey scope entity name v))

def putForward (values : List String) (lifetime : Option Int) : Update Unit :=
  discard (Update.put ix.forward (forwardKey scope entity name) values lifetime)

def removeAttribute : Update Bool := do
  let previous ← ix.valuesOf scope entity name
  let removed ← Update.delete ix.forward (forwardKey scope entity name)
  ix.withdraw scope entity name previous
  return removed

def setAttribute (values : List String) (lifetime : Option Int) : Update Unit := do
  match distinct values with
  | [] => discard (ix.removeAttribute scope entity name)
  | current =>
    let previous ← ix.valuesOf scope entity name
    ix.putForward scope entity name current lifetime
    ix.withdraw scope entity name (previous.filter (· ∉ current))
    current.forM fun v => discard <| Update.ofRows
      (·.put ix.reverse (reverseKey scope entity name v) (.bytes []) lifetime)

def removeAttributesOf : Update Nat := do
  let attributes ← ix.attributesOf scope entity
  attributes.entries.forM fun (name, values) => ix.withdraw scope entity name values
  let _ ← Update.deletePartition ix.forward (entityPartition scope entity)
  return attributes.size

def refreshLifetime (lifetime : Option Int) : Update Unit := do
  (← ix.attributesOf scope entity).entries.forM fun (name, values) =>
    ix.setAttribute scope entity name values lifetime

/-! A unique value is claimed by its reverse row before the record that carries it is written, and
committed by the forward row afterwards. -/

/-- A younger claim is not dropped, since its owner may be about to write the record. -/
def claimGrace : Int := 30000

/-- A reverse row without an instant counts as claimed before all time. -/
def claimedAt (row : Row) : Int :=
  match (row.read : Except StorageFault Int) with
  | .ok instant => instant
  | .error _ => Time.earliest

def staleClaims (holds : String → Query Bool) : List (RowKey × Row) → Query (Option (List RowKey))
  | [] => return some []
  | (key, row) :: rest => do
    if key.clustering = entity then staleClaims holds rest
    else if Time.sub (← Query.now) (claimedAt row) < claimGrace then return none
    else if ← holds key.clustering then return none
    else return (← staleClaims holds rest).map (key :: ·)

def dropStaleClaims (value : String) (holds : String → Query Bool) : Update Bool := do
  let claims ← Query.scanPartition ix.reverse (valuePartition scope name value)
  match ← staleClaims entity holds claims with
  | none => return false
  | some stale =>
    stale.forM fun key => discard (Update.delete ix.reverse key)
    return true

def tryClaim (value : String) (lifetime : Option Int) : Update Bool := do
  let now ← Query.now
  Update.ofRows
    (·.putIfPartitionVacant ix.reverse (reverseKey scope entity name value) (.stamp now) lifetime)

def claimUnique (kind : UniqueKind) (value : String) (lifetime : Option Int)
    (holds : String → Query Bool) : Update Unit := do
  if ← ix.tryClaim scope entity name value lifetime then return
  if ← ix.dropStaleClaims scope entity name value holds then
    if ← ix.tryClaim scope entity name value lifetime then return
  throw (.duplicateKey kind value)

def releaseClaim (value : String) : Update Bool :=
  Update.delete ix.reverse (reverseKey scope entity name value)

def commitUnique (value : Option String) (lifetime : Option Int) : Update Unit := do
  match value with
  | none => discard (ix.removeAttribute scope entity name)
  | some v =>
    let previous ← ix.valuesOf scope entity name
    ix.putForward scope entity name [v] lifetime
    ix.withdraw scope entity name (previous.filter (· ≠ v))

end AttributeIndex

end IdentityDirectory
