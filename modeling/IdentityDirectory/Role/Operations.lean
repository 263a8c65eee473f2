import IdentityDirectory.Coordinator
import IdentityDirectory.Role.Container

/-! Roles of a realm within a unit of work. -/

namespace IdentityDirectory

instance : Aggregate RealmRoles where
  table := .realmRoles
  kind := .roles
  empty realmId := { realmId }

namespace Roles

abbrev Work := IdentityDirectory.Work (Coordinator RealmRoles)

variable (realmId : String)

def addRole (role : Role) : Work Role :=
  Coordinator.tryUpdate realmId fun c => return (role, ← c.add role)

def addRealmRole (name : String) : Work Role := do
  addRole realmId { id := ← Work.newId, name }

def addClientRole (clientId name : String) : Work Role := do
  addRole realmId { id := ← Work.newId, name, clientId := some clientId }

def getRole (id : String) : Work (Option Role) := Coordinator.read realmId (·.find? id)

def getRealmRole (name : String) : Work (Option Role) :=
  Coordinator.read realmId (·.findNamed? none name)

def getClientRole (clientId name : String) : Work (Option Role) :=
  Coordinator.read realmId (·.findNamed? (some clientId) name)

def realmRoles (search : Option String) (page : Page) : Work (List Role) :=
  Coordinator.read realmId (·.list none search page)

def clientRoles (clientId : String) (search : Option String) (page : Page) : Work (List Role) :=
  Coordinator.read realmId (·.list (some clientId) search page)

def updateRole (role : Role) : Work Bool := Coordinator.tryUpdate realmId (·.update role)

def removeRole (id : String) : Work Bool :=
  Coordinator.update realmId fun c => ((c.find? id).isSome, c.remove id)

def removeClientRoles (clientId : String) : Work Nat :=
  Coordinator.update realmId fun c =>
    (c.roles.countP (·.clientId = some clientId), c.removeOfClient clientId)

def addComposite (id childId : String) : Work Bool :=
  Coordinator.tryUpdate realmId (·.addComposite id childId)

def removeComposite (id childId : String) : Work Bool :=
  Coordinator.update realmId (·.removeComposite id childId)

def composites (id : String) (search : Option String) (page : Page) : Work (List Role) :=
  Coordinator.read realmId (·.composites id search page)

def hasRole (granted : StringSet) (id : String) : Work Bool :=
  Coordinator.read realmId (·.hasRole granted.toList id)

def resolve (ids : StringSet) : Work (List Role) :=
  Coordinator.read realmId (·.resolve ids.toList)

end Roles

end IdentityDirectory
