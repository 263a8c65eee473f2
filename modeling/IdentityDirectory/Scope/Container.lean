import IdentityDirectory.Error
import IdentityDirectory.FirstMatch
import IdentityDirectory.Scope.Record

/-! The client scopes of a realm; their names are unique. -/

namespace IdentityDirectory.RealmClientScopes

variable (c : RealmClientScopes)

def defaultProtocol : String := "openid-connect"

def find? (id : String) : Option ClientScope := c.scopes.find? (·.id = id)

def findNamed? (name : String) : Option ClientScope := c.scopes.find? (·.name = name)

def add (id name : String) (protocol : Option String) :
    Except StoreError (ClientScope × RealmClientScopes) :=
  if (c.findNamed? name).isSome then throw (.duplicateKey .clientScope name)
  else
    let scope : ClientScope := { id, name, protocol := protocol.getD defaultProtocol }
    return (scope, { c with scopes := c.scopes ++ [scope] })

def remove (id : String) : RealmClientScopes :=
  { c with scopes := c.scopes.eraseP (·.id = id) }

def modify (id : String) (f : ClientScope → ClientScope) : RealmClientScopes :=
  { c with scopes := modifyFirst (·.id = id) f c.scopes }

def update (updated : ClientScope) : Except StoreError (Bool × RealmClientScopes) :=
  if (c.findNamed? updated.name).any (·.id ≠ updated.id) then
    throw (.duplicateKey .clientScope updated.name)
  else if (c.find? updated.id).isSome then
    return (true, c.modify updated.id fun _ => updated)
  else return (false, c)

def addRole (id roleId : String) : Bool × RealmClientScopes :=
  match c.find? id with
  | none => (false, c)
  | some scope =>
    (roleId ∉ scope.roleIds, c.modify id fun s => { s with roleIds := s.roleIds.insert roleId })

end IdentityDirectory.RealmClientScopes
