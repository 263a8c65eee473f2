import IdentityDirectory.Error
import IdentityDirectory.FirstMatch
import IdentityDirectory.Links
import IdentityDirectory.Role.Record
import IdentityDirectory.Text.Search

/-!
The roles of a realm. A composite role names its parts by their ids; an id that no role has counts
for nothing, and parts may contain each other in circles.
-/

namespace IdentityDirectory

def Role.isComposite (r : Role) : Bool := !r.compositeRoleIds.isEmpty

def Role.isClientRole (r : Role) : Bool := r.clientId.isSome

namespace RealmRoles

variable (c : RealmRoles)

def find? (id : String) : Option Role := c.roles.find? (·.id = id)

def findNamed? (clientId : Option String) (name : String) : Option Role :=
  c.roles.find? fun r => r.clientId = clientId && r.name = name

def add (role : Role) : Except StoreError RealmRoles :=
  if (c.find? role.id).isSome then throw (.duplicateKey .roleId role.id)
  else if (c.findNamed? role.clientId role.name).isSome then throw (.duplicateKey .role role.name)
  else return { c with roles := c.roles ++ [role] }

def remove (id : String) : RealmRoles := { c with roles := c.roles.eraseP (·.id = id) }

def removeOfClient (clientId : String) : RealmRoles :=
  { c with roles := c.roles.filter (·.clientId ≠ some clientId) }

def modify (id : String) (f : Role → Role) : RealmRoles :=
  { c with roles := modifyFirst (·.id = id) f c.roles }

def update (updated : Role) : Except StoreError (Bool × RealmRoles) :=
  if (c.findNamed? updated.clientId updated.name).any (·.id ≠ updated.id) then
    throw (.duplicateKey .role updated.name)
  else if (c.find? updated.id).isSome then
    return (true, c.modify updated.id fun r =>
      { r with
        name := updated.name
        description := updated.description
        attributes := updated.attributes })
  else return (false, c)

def addComposite (id childId : String) : Except StoreError (Bool × RealmRoles) :=
  if (c.find? childId).isNone then throw (.invalidArgument (.missingRole childId))
  else
    match c.find? id with
    | none => return (false, c)
    | some role =>
      return (childId ∉ role.compositeRoleIds, c.modify id fun r =>
        { r with compositeRoleIds := r.compositeRoleIds.insert childId })

def removeComposite (id childId : String) : Bool × RealmRoles :=
  match c.find? id with
  | none => (false, c)
  | some role =>
    (childId ∈ role.compositeRoleIds, c.modify id fun r =>
      { r with compositeRoleIds := r.compositeRoleIds.erase childId })

def list (clientId search : Option String) (page : Page) : List Role :=
  page.of (c.roles.filter fun r => r.clientId = clientId && Text.matchesSearch r.name search)

def resolve (ids : List String) : List Role := ids.filterMap c.find?

def composites (id : String) (search : Option String) (page : Page) : List Role :=
  match c.find? id with
  | none => []
  | some role =>
    page.of ((c.resolve role.compositeRoleIds.toList).filter (Text.matchesSearch ·.name search))

def links : Links where
  nodes := c.roles.map (·.id)
  next id := match c.find? id with
    | none => []
    | some role => role.compositeRoleIds.toList

def expand (id : String) : StringSet := c.links.walk ∅ [id]

/-- Follows one grant after the other, none of them over ground already covered. -/
def hasRoleFrom (id : String) (visited : StringSet) : List String → Bool
  | [] => false
  | grant :: rest =>
    let visited := c.links.walk visited [grant]
    if id ∈ visited then true else hasRoleFrom id visited rest

def hasRole (granted : List String) (id : String) : Bool := c.hasRoleFrom id ∅ granted

end RealmRoles

end IdentityDirectory
