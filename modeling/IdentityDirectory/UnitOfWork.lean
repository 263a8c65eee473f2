import IdentityDirectory.Client.Repository
import IdentityDirectory.Group.Operations
import IdentityDirectory.Login.Attempts
import IdentityDirectory.Login.Failures
import IdentityDirectory.Realm.Repository
import IdentityDirectory.Role.Operations
import IdentityDirectory.Scope.Operations
import IdentityDirectory.Session.Repository
import IdentityDirectory.Transaction
import IdentityDirectory.User.Repository

/-!
A unit of work: the scope in which queries are remembered and containers are kept for one
write-back. Records are written at once; containers are written when the unit of work commits.
-/

namespace IdentityDirectory

structure UnitOfWork where
  id : String
  roles : Coordinator RealmRoles
  groups : Coordinator RealmGroups
  clientScopes : Coordinator RealmClientScopes
  realms : RealmCache
  clients : ClientCache
  users : UserCache
  userSessions : SessionCache

namespace UnitOfWork

/-- With `linearizable`, a commit refuses to overwrite what others have changed in between; with
`caching`, queries are remembered. -/
def start (id : String) (linearizable caching : Bool) : UnitOfWork where
  id := id
  roles := { linearizable }
  groups := { linearizable }
  clientScopes := { linearizable }
  realms := { enabled := caching }
  clients := ⟨{ enabled := caching }, { enabled := caching }⟩
  users := ⟨{ enabled := caching }, { enabled := caching }⟩
  userSessions := { enabled := caching }

def rolesPart : Part UnitOfWork (Coordinator RealmRoles) where
  get := roles
  set c u := { u with roles := c }

def groupsPart : Part UnitOfWork (Coordinator RealmGroups) where
  get := groups
  set c u := { u with groups := c }

def clientScopesPart : Part UnitOfWork (Coordinator RealmClientScopes) where
  get := clientScopes
  set c u := { u with clientScopes := c }

def realmsPart : Part UnitOfWork RealmCache where
  get := realms
  set c u := { u with realms := c }

def clientsPart : Part UnitOfWork ClientCache where
  get := clients
  set c u := { u with clients := c }

def usersPart : Part UnitOfWork UserCache where
  get := users
  set c u := { u with users := c }

def userSessionsPart : Part UnitOfWork SessionCache where
  get := userSessions
  set c u := { u with userSessions := c }

def nothing : Part UnitOfWork Unit where
  get _ := ()
  set _ u := u

def closing {α : Type} (part : Part UnitOfWork (Coordinator α)) :
    StateM (Desk UnitOfWork) Unit :=
  modify fun d => { d with held := part.set (part.get d.held).closed d.held }

/-- Writes the changed containers back; they are forgotten even if that fails. -/
def completing {α : Type} [Aggregate α] (part : Part UnitOfWork (Coordinator α)) :
    Work UnitOfWork Unit := fun d =>
  let (result, d') := Work.on part Coordinator.flush d
  (result.map fun _ => (), (closing part d').2)

def attach {α : Type} [Aggregate α] (t : Transaction (Desk UnitOfWork))
    (part : Part UnitOfWork (Coordinator α)) : Transaction (Desk UnitOfWork) :=
  (t.onComplete (completing part)).onAbort (closing part)

def transaction : Transaction (Desk UnitOfWork) :=
  attach (attach (attach {} rolesPart) groupsPart) clientScopesPart

def commit : Work UnitOfWork Unit := transaction.commit

def abort : StateM (Desk UnitOfWork) Unit := transaction.abort

def removeRealm (realmId : String) : Work UnitOfWork Bool := do
  match ← Work.on realmsPart (Realms.findById realmId) with
  | none => return false
  | some _ =>
    let _ ← Work.on userSessionsPart (UserSessions.removeAll realmId)
    let _ ← (LoginAttempts.removeAll realmId : Update Nat)
    let _ ← (LoginFailures.removeAll realmId : Update Nat)
    let _ ← Work.on usersPart (Users.removeAll realmId)
    let _ ← Work.on clientsPart (Clients.removeAll realmId)
    let _ ← Work.on rolesPart (Coordinator.delete realmId)
    let _ ← Work.on groupsPart (Coordinator.delete realmId)
    let _ ← Work.on clientScopesPart (Coordinator.delete realmId)
    let _ ← Work.on realmsPart (Realms.remove realmId)
    return true

def removeClient (realm : Realm) (id : String) : Work UnitOfWork Bool := do
  match ← Work.on clientsPart (Clients.findById realm.id id) with
  | none => return false
  | some _ =>
    let _ ← Work.on rolesPart (Roles.removeClientRoles realm.id id)
    let _ ← Work.on userSessionsPart (UserSessions.detachClientEverywhere realm id)
    Work.on clientsPart (Clients.remove realm.id id)

def removeUser (realmId id : String) : Work UnitOfWork Bool := do
  let _ ← Work.on userSessionsPart (UserSessions.removeByUser realmId id)
  let _ ← (LoginFailures.remove realmId id : Update Bool)
  Work.on usersPart (Users.remove realmId id)

def userGroups (realmId : String) (user : User) : Work UnitOfWork (List Group) :=
  Work.on groupsPart (Groups.resolveGroups realmId user.groupIds)

def userRoleMappings (realmId : String) (user : User) : Work UnitOfWork (List Role) :=
  Work.on rolesPart (Roles.resolve realmId user.roleIds)

def userHasRole (realmId : String) (user : User) (roleId : String) : Work UnitOfWork Bool := do
  let inherited ← Work.on groupsPart (Groups.inheritedRoleIds realmId user.groupIds)
  Work.on rolesPart (Roles.hasRole realmId (user.roleIds.union inherited) roleId)

end UnitOfWork

end IdentityDirectory
