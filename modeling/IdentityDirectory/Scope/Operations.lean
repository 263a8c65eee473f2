import IdentityDirectory.Coordinator
import IdentityDirectory.Scope.Container

/-! Client scopes of a realm within a unit of work. -/

namespace IdentityDirectory

instance : Aggregate RealmClientScopes where
  table := .realmClientScopes
  kind := .clientScopes
  empty realmId := { realmId }

namespace ClientScopes

abbrev Work := IdentityDirectory.Work (Coordinator RealmClientScopes)

variable (realmId : String)

def addClientScope (name : String) (protocol : Option String) : Work ClientScope :=
  Work.withNewId fun id => Coordinator.tryUpdate realmId (·.add id name protocol)

def getClientScope (id : String) : Work (Option ClientScope) :=
  Coordinator.read realmId (·.find? id)

def getClientScopeByName (name : String) : Work (Option ClientScope) :=
  Coordinator.read realmId (·.findNamed? name)

def clientScopes : Work (List ClientScope) := Coordinator.read realmId (·.scopes)

def updateClientScope (scope : ClientScope) : Work Bool :=
  Coordinator.tryUpdate realmId (·.update scope)

def removeClientScope (id : String) : Work Bool :=
  Coordinator.update realmId fun c => ((c.find? id).isSome, c.remove id)

def addScopeRole (id roleId : String) : Work Bool :=
  Coordinator.update realmId (·.addRole id roleId)

end ClientScopes

end IdentityDirectory
