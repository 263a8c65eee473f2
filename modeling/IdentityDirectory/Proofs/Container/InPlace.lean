import IdentityDirectory.Proofs.Isolation.Containers

/-!
Changes made in place. A change is handed the container that is held, and nothing would undo what it
had done to it before it refused. The changes that can refuse make all their checks first, so that each
is the same as one that gives a new container or none. Main statements:
`Coordinator.tryUpdateInPlace_eq`, and `Request.inPlace?_eq` for roles, groups and client scopes.
-/

namespace IdentityDirectory

variable {α β : Type} {b : String}

/-- A change made to a container where it is held. What it did before it refused stays done. -/
abbrev InPlace (α : Type) := ExceptT StoreError (StateM α)

namespace InPlace

def outcome (a : α) : Except StoreError (β × α) → Except StoreError β × α
  | .ok (b, a') => (.ok b, a')
  | .error e => (.error e, a)

/-- The change does what a function says and, where that refuses, nothing. -/
def Follows (m : InPlace α β) (f : α → Except StoreError (β × α)) : Prop :=
  ∀ a, m a = outcome a (f a)

@[simp] theorem get_bind_apply (m : α → InPlace α β) (a : α) : (get >>= m) a = m a a := rfl

theorem checked {a : α} {check : InPlace α Unit} {required : Except StoreError Unit}
    {m : InPlace α β} {result : Except StoreError (β × α)} (hcheck : check a = (required, a))
    (h : m a = outcome a result) :
    (check >>= fun _ => m) a = outcome a (required >>= fun _ => result) := by
  cases required with
  | ok _ => exact (run_bind_of_ok hcheck _).trans h
  | error e => exact run_bind_of_error hcheck _

end InPlace

namespace Coordinator

/-- The container is kept as the change leaves it, but the tenant is marked only if that is done. -/
def tryUpdateInPlace [Aggregate α] (tenant : String) (change : InPlace α β) :
    Work (Coordinator α) β := do
  let container ← load tenant
  let (result, value) := change container.value
  keep tenant { container with value }
  let result ← result
  markChanged tenant
  return result

theorem insert_held {c : Coordinator α} {tenant : String} {x : Loaded α}
    (h : c.loaded.get? tenant = some x) :
    { c with loaded := c.loaded.insert tenant x } = c := by
  have hsame : c.loaded.insert tenant x = c.loaded := by
    apply StringMap.ext_get?
    intro t
    rw [StringMap.get?_insert]
    split
    · next heq => rw [heq, h]
    · rfl
  rw [hsame]

variable {k : ContainerKind} {tenant : String} {d d' : Desk (Coordinator (Container k))}

theorem held_of_load {x : Loaded (Container k)} (h : load tenant d = (.ok x, d')) :
    d'.held.loaded.get? tenant = some x := by
  cases hheld : d.held.loaded.get? tenant with
  | some y =>
    rw [load_of_held hheld] at h
    obtain ⟨hx, rfl⟩ := Prod.mk.inj h
    rw [hheld, Except.ok.inj hx]
  | none =>
    cases hstored : (stored tenant : Query (Loaded (Container k))) d.rows with
    | error e =>
      rw [load_of_error hheld hstored] at h
      cases (Prod.mk.inj h).1
    | ok y =>
      rw [load_of_stored hheld hstored] at h
      obtain ⟨hx, rfl⟩ := Prod.mk.inj h
      rw [StringMap.get?_insert, if_pos rfl, Except.ok.inj hx]

theorem tryUpdateInPlace_eq {change : InPlace (Container k) β}
    {f : Container k → Except StoreError (β × Container k)} (h : change.Follows f)
    (tenant : String) : tryUpdateInPlace tenant change = tryUpdate tenant f := by
  funext d
  cases hload : load tenant d with
  | mk loaded d' =>
    cases loaded with
    | error e => rw [tryUpdateInPlace, tryUpdate, Work.bind_of_error hload, Work.bind_of_error hload]
    | ok x =>
      rw [tryUpdateInPlace, tryUpdate, Work.bind_of_ok hload, Work.bind_of_ok hload, h x.value]
      cases f x.value with
      | ok changed => rfl
      | error e =>
        have hheld := insert_held (held_of_load hload)
        exact congrArg (fun c => (Except.error e, { d' with held := c })) hheld

end Coordinator

open Coordinator (tryUpdateInPlace tryUpdateInPlace_eq)

namespace Roles

def addInPlace (role : Role) : InPlace RealmRoles Role := do
  if ((← get).find? role.id).isSome then throw (.duplicateKey .roleId role.id)
  if ((← get).findNamed? role.clientId role.name).isSome then
    throw (.duplicateKey .role role.name)
  modify fun c => { c with roles := c.roles ++ [role] }
  return role

theorem addInPlace_follows (role : Role) :
    (addInPlace role).Follows fun c => return (role, ← c.add role) := by
  intro c
  simp only [addInPlace, InPlace.get_bind_apply, RealmRoles.add]
  split
  · rfl
  · simp only [InPlace.get_bind_apply]
    split
    · rfl
    · rfl

def updateInPlace (updated : Role) : InPlace RealmRoles Bool := do
  if ((← get).findNamed? updated.clientId updated.name).any (·.id ≠ updated.id) then
    throw (.duplicateKey .role updated.name)
  if ((← get).find? updated.id).isSome then
    modify fun c => c.modify updated.id fun r =>
      { r with
        name := updated.name
        description := updated.description
        attributes := updated.attributes }
    return true
  else return false

theorem updateInPlace_follows (updated : Role) :
    (updateInPlace updated).Follows (·.update updated) := by
  intro c
  simp only [updateInPlace, InPlace.get_bind_apply, RealmRoles.update]
  split
  · rfl
  · simp only [InPlace.get_bind_apply]
    split
    · rfl
    · rfl

def addCompositeInPlace (id childId : String) : InPlace RealmRoles Bool := do
  if ((← get).find? childId).isNone then throw (.invalidArgument (.missingRole childId))
  let some role := (← get).find? id | return false
  modify fun c => c.modify id fun r =>
    { r with compositeRoleIds := r.compositeRoleIds.insert childId }
  return childId ∉ role.compositeRoleIds

theorem addCompositeInPlace_follows (id childId : String) :
    (addCompositeInPlace id childId).Follows (·.addComposite id childId) := by
  intro c
  simp only [addCompositeInPlace, InPlace.get_bind_apply, RealmRoles.addComposite]
  split
  · rfl
  · simp only [InPlace.get_bind_apply]
    cases c.find? id with
    | none => rfl
    | some role => rfl

/-- Requests that check something before they change anything, and may refuse. -/
def Request.canRefuse : Request α → Bool
  | addRole _ | addRealmRole _ | addClientRole _ _ | updateRole _ | addComposite _ _ => true
  | _ => false

def Request.inPlace? (b : String) : Request α → Option (Work α)
  | addRole role => some (tryUpdateInPlace b (addInPlace role))
  | addRealmRole name => some do
    let id ← Work.newId
    tryUpdateInPlace b (addInPlace { id, name })
  | addClientRole clientId name => some do
    let id ← Work.newId
    tryUpdateInPlace b (addInPlace { id, name, clientId := some clientId })
  | updateRole role => some (tryUpdateInPlace b (updateInPlace role))
  | addComposite id childId => some (tryUpdateInPlace b (addCompositeInPlace id childId))
  | _ => none

theorem Request.inPlace?_eq (b : String) {request : Request α} (h : request.canRefuse = true) :
    request.inPlace? b = some (request.perform b) := by
  have hadd := fun role => tryUpdateInPlace_eq (k := .roles) (addInPlace_follows role) b
  cases request with
  | addRole role => exact congrArg some (hadd role)
  | addRealmRole name =>
    exact congrArg some (congrArg (Work.newId >>= ·) (funext fun _ => hadd _))
  | addClientRole clientId name =>
    exact congrArg some (congrArg (Work.newId >>= ·) (funext fun _ => hadd _))
  | updateRole role =>
    exact congrArg some (tryUpdateInPlace_eq (k := .roles) (updateInPlace_follows role) b)
  | addComposite id childId =>
    exact congrArg some (tryUpdateInPlace_eq (k := .roles) (addCompositeInPlace_follows id childId) b)
  | _ => cases h

end Roles

namespace Groups

def requireParentInPlace : Option String → InPlace RealmGroups Unit
  | none => return
  | some parent => do
    if ((← get).find? parent).isNone then throw (.invalidArgument (.missingParentGroup parent))

theorem requireParentInPlace_apply (parentId : Option String) (c : RealmGroups) :
    requireParentInPlace parentId c = (c.requireParent parentId, c) := by
  cases parentId with
  | none => rfl
  | some parent =>
    simp only [requireParentInPlace, InPlace.get_bind_apply, RealmGroups.requireParent]
    cases c.find? parent with
    | none => rfl
    | some group => rfl

def createInPlace (id name : String) (parentId : Option String) : InPlace RealmGroups Group := do
  requireParentInPlace parentId
  if ((← get).sibling? parentId name).isSome then throw (.duplicateKey .group name)
  let group : Group := { id, name, parentId }
  modify fun c => { c with groups := c.groups ++ [group] }
  return group

theorem createInPlace_follows (id name : String) (parentId : Option String) :
    (createInPlace id name parentId).Follows (·.create id name parentId) := by
  intro c
  refine InPlace.checked (requireParentInPlace_apply parentId c) ?_
  simp only [InPlace.get_bind_apply]
  split
  · rfl
  · rfl

def moveInPlace (id : String) (parentId : Option String) : InPlace RealmGroups Bool := do
  match (← get).find? id with
  | none => return false
  | some group =>
    requireParentInPlace parentId
    if (← get).isTaken id group.name parentId then throw (.duplicateKey .group group.name)
    modify fun c => c.modify id fun g => { g with parentId }
    return true

theorem moveInPlace_follows (id : String) (parentId : Option String) :
    (moveInPlace id parentId).Follows (·.move id parentId) := by
  intro c
  simp only [moveInPlace, InPlace.get_bind_apply, RealmGroups.move]
  cases c.find? id with
  | none => rfl
  | some group =>
    refine InPlace.checked (requireParentInPlace_apply parentId c) ?_
    simp only [InPlace.get_bind_apply]
    split
    · rfl
    · rfl

def renameInPlace (id name : String) : InPlace RealmGroups Bool := do
  match (← get).find? id with
  | none => return false
  | some group =>
    if (← get).isTaken id name group.parentId then throw (.duplicateKey .group name)
    modify fun c => c.modify id fun g => { g with name }
    return true

theorem renameInPlace_follows (id name : String) :
    (renameInPlace id name).Follows (·.rename id name) := by
  intro c
  simp only [renameInPlace, InPlace.get_bind_apply, RealmGroups.rename]
  cases c.find? id with
  | none => rfl
  | some group =>
    simp only [InPlace.get_bind_apply]
    split
    · rfl
    · rfl

def Request.canRefuse : Request α → Bool
  | createGroup _ _ | moveGroup _ _ | renameGroup _ _ => true
  | _ => false

def Request.inPlace? (b : String) : Request α → Option (Work α)
  | createGroup name parentId =>
    some (Work.withNewId fun id => tryUpdateInPlace b (createInPlace id name parentId))
  | moveGroup id parentId => some (tryUpdateInPlace b (moveInPlace id parentId))
  | renameGroup id name => some (tryUpdateInPlace b (renameInPlace id name))
  | _ => none

theorem Request.inPlace?_eq (b : String) {request : Request α} (h : request.canRefuse = true) :
    request.inPlace? b = some (request.perform b) := by
  cases request with
  | createGroup name parentId =>
    have hcreate := fun id =>
      tryUpdateInPlace_eq (k := .groups) (createInPlace_follows id name parentId) b
    exact congrArg some (congrArg Work.withNewId (funext hcreate))
  | moveGroup id parentId =>
    exact congrArg some (tryUpdateInPlace_eq (k := .groups) (moveInPlace_follows id parentId) b)
  | renameGroup id name =>
    exact congrArg some (tryUpdateInPlace_eq (k := .groups) (renameInPlace_follows id name) b)
  | _ => cases h

end Groups

namespace ClientScopes

def addInPlace (id name : String) (protocol : Option String) :
    InPlace RealmClientScopes ClientScope := do
  if ((← get).findNamed? name).isSome then throw (.duplicateKey .clientScope name)
  let scope : ClientScope :=
    { id, name, protocol := protocol.getD RealmClientScopes.defaultProtocol }
  modify fun c => { c with scopes := c.scopes ++ [scope] }
  return scope

theorem addInPlace_follows (id name : String) (protocol : Option String) :
    (addInPlace id name protocol).Follows (·.add id name protocol) := by
  intro c
  simp only [addInPlace, InPlace.get_bind_apply, RealmClientScopes.add]
  split
  · rfl
  · rfl

def updateInPlace (updated : ClientScope) : InPlace RealmClientScopes Bool := do
  if ((← get).findNamed? updated.name).any (·.id ≠ updated.id) then
    throw (.duplicateKey .clientScope updated.name)
  if ((← get).find? updated.id).isSome then
    modify fun c => c.modify updated.id fun _ => updated
    return true
  else return false

theorem updateInPlace_follows (updated : ClientScope) :
    (updateInPlace updated).Follows (·.update updated) := by
  intro c
  simp only [updateInPlace, InPlace.get_bind_apply, RealmClientScopes.update]
  split
  · rfl
  · simp only [InPlace.get_bind_apply]
    split
    · rfl
    · rfl

def Request.canRefuse : Request α → Bool
  | addClientScope _ _ | updateClientScope _ => true
  | _ => false

def Request.inPlace? (b : String) : Request α → Option (Work α)
  | addClientScope name protocol =>
    some (Work.withNewId fun id => tryUpdateInPlace b (addInPlace id name protocol))
  | updateClientScope scope => some (tryUpdateInPlace b (updateInPlace scope))
  | _ => none

theorem Request.inPlace?_eq (b : String) {request : Request α} (h : request.canRefuse = true) :
    request.inPlace? b = some (request.perform b) := by
  cases request with
  | addClientScope name protocol =>
    have hadd := fun id =>
      tryUpdateInPlace_eq (k := .clientScopes) (addInPlace_follows id name protocol) b
    exact congrArg some (congrArg Work.withNewId (funext hadd))
  | updateClientScope scope =>
    exact congrArg some (tryUpdateInPlace_eq (k := .clientScopes) (updateInPlace_follows scope) b)
  | _ => cases h

end ClientScopes

end IdentityDirectory
