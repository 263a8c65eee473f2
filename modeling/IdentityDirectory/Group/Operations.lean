import IdentityDirectory.Coordinator
import IdentityDirectory.Group.Container

/-! Groups of a realm within a unit of work. -/

namespace IdentityDirectory

instance : Aggregate RealmGroups where
  table := .realmGroups
  kind := .groups
  empty realmId := { realmId }

namespace Groups

abbrev Work := IdentityDirectory.Work (Coordinator RealmGroups)

variable (realmId : String)

def createGroup (name : String) (parentId : Option String) : Work Group :=
  Work.withNewId fun id => Coordinator.tryUpdate realmId (·.create id name parentId)

def getGroup (id : String) : Work (Option Group) := Coordinator.read realmId (·.find? id)

def groupPath (id : String) : Work (Option String) := Coordinator.read realmId (·.path? id)

def subGroups (id : String) (search : Option String) (page : Page) : Work (List Group) :=
  Coordinator.read realmId (·.subGroups (some id) search page)

def topLevelGroups (search : Option String) (page : Page) : Work (List Group) :=
  Coordinator.read realmId (·.subGroups none search page)

def searchGroups (search : Option String) (page : Page) : Work (List Group) :=
  Coordinator.read realmId (·.search search page)

def moveGroup (id : String) (parentId : Option String) : Work Bool :=
  Coordinator.tryUpdate realmId (·.move id parentId)

def renameGroup (id name : String) : Work Bool :=
  Coordinator.tryUpdate realmId (·.rename id name)

def setGroupAttribute (id name : String) (values : List String) : Work Bool :=
  Coordinator.update realmId (·.setAttribute id name values)

def removeGroup (id : String) : Work StringSet := Coordinator.update realmId (·.remove id)

def grantGroupRole (id roleId : String) : Work Bool :=
  Coordinator.update realmId (·.grantRole id roleId)

def revokeGroupRole (id roleId : String) : Work Bool :=
  Coordinator.update realmId (·.revokeRole id roleId)

def resolveGroups (ids : StringSet) : Work (List Group) :=
  Coordinator.read realmId (·.resolve ids.toList)

def inheritedRoleIds (groupIds : StringSet) : Work StringSet :=
  Coordinator.read realmId (·.inheritedRoleIds groupIds.toList)

end Groups

end IdentityDirectory
