import IdentityDirectory.AttributeIndex
import IdentityDirectory.QueryCache
import IdentityDirectory.Realm.Record
import IdentityDirectory.Text.Search

/-!
The users of a realm. The username, the service account and, unless the realm allows duplicates, the
email belong to one user at most; every such value is claimed before anything else changes.
-/

namespace IdentityDirectory

inductive UserLookup where
  | byId (realmId id : String)
  | byUsername (realmId username : String)
  | byEmail (realmId email : String)
  deriving DecidableEq

inductive UserListing where
  | all (realmId : String)
  | byAttribute (realmId name value : String)
  deriving DecidableEq

structure UserCache where
  lookups : QueryCache UserLookup (Option User)
  lists : QueryCache UserListing (List User)

inductive UniqueField where
  | username
  | email
  | serviceAccount
  deriving DecidableEq

namespace UniqueField

def attributeName : UniqueField → String
  | username => "$username"
  | email => "$email"
  | serviceAccount => "$service_account_client"

def kind : UniqueField → UniqueKind
  | username => .user
  | email => .email
  | serviceAccount => .serviceAccount

def value? : UniqueField → User → Option String
  | username, u => some u.username
  | email, u => u.email
  | serviceAccount, u => u.serviceAccountClientLink

end UniqueField

namespace Users

def federationLinkAttribute : String := "$federation_link"

/-- Attribute names of the directory itself are hidden from callers. -/
def isInternal (name : String) : Bool := name.toList.head? = some '$'

def key (realmId id : String) : RowKey := ⟨realmId, id⟩

def load (realmId id : String) : Query (Option User) := Query.record .users (key realmId id)

def resolve (realmId : String) (ids : List String) : Query (List User) := do
  return (← ids.mapM (load realmId)).filterMap id

def holds (realmId : String) (field : UniqueField) (value owner : String) : Query Bool := do
  return (← load realmId owner).any fun u => field.value? u = some value

abbrev Claim := UniqueField × String

def release (realmId id : String) (claims : List Claim) : Update Unit :=
  claims.forM fun (field, value) =>
    discard (AttributeIndex.users.releaseClaim realmId id field.attributeName value)

def claimFrom (realmId id : String) (taken : List Claim) : List Claim → Update Unit
  | [] => return
  | (field, value) :: rest => do
    try
      AttributeIndex.users.claimUnique realmId id field.attributeName field.kind value none
        (holds realmId field value)
    catch e =>
      release realmId id taken
      throw e
    claimFrom realmId id (taken ++ [(field, value)]) rest

def claimAll (realmId id : String) (claims : List Claim) : Update Unit :=
  claimFrom realmId id [] claims

def put (user : User) : Update Unit :=
  discard (Update.put .users (key user.realmId user.id) user)

def putClaimed (user : User) (claims : List Claim) : Update Unit :=
  try put user
  catch e =>
    release user.realmId user.id claims
    throw e

def commit (user : User) (field : UniqueField) : Update Unit :=
  AttributeIndex.users.commitUnique user.realmId user.id field.attributeName (field.value? user)
    none

def insert (user : User) : Update User := do
  let claims := [(UniqueField.username, user.username)]
  claimAll user.realmId user.id claims
  putClaimed user claims
  commit user .username
  return user

def normalize (realm : Realm) (user : User) : User :=
  { user with
    realmId := realm.id
    username := Text.lowercase user.username
    email := user.email.map Text.lowercase }

def changed (field : UniqueField) (previous user : User) : Bool :=
  field.value? previous ≠ field.value? user

def claimsOf (field : UniqueField) (previous user : User) : List Claim :=
  if changed field previous user then (field.value? user).toList.map (field, ·) else []

def newClaims (realm : Realm) (previous user : User) : List Claim :=
  claimsOf .username previous user
    ++ (if realm.duplicateEmailsAllowed then [] else claimsOf .email previous user)
    ++ claimsOf .serviceAccount previous user

def setIndexed (user : User) (name : String) (value : Option String) : Update Unit :=
  AttributeIndex.users.setAttribute user.realmId user.id name value.toList none

def reindex (realm : Realm) (previous user : User) : Update Unit := do
  if changed .username previous user then commit user .username
  if changed .email previous user then
    if realm.duplicateEmailsAllowed then
      setIndexed user UniqueField.email.attributeName user.email
    else commit user .email
  if previous.federationLink ≠ user.federationLink then
    setIndexed user federationLinkAttribute user.federationLink
  if changed .serviceAccount previous user then commit user .serviceAccount

def replace (realm : Realm) (user : User) : Update Bool := do
  match ← load realm.id user.id with
  | none => return false
  | some previous =>
    let user := normalize realm user
    let claims := newClaims realm previous user
    claimAll realm.id user.id claims
    putClaimed user claims
    reindex realm previous user
    return true

def alter (realmId id : String) (change : User → Option User) : Update Bool := do
  match (← load realmId id).bind change with
  | none => return false
  | some user =>
    let _ ← Update.put .users (key realmId id) user
    return true

def added (member : String) (s : StringSet) : Option StringSet :=
  if member ∈ s then none else some (s.insert member)

def without (member : String) (s : StringSet) : Option StringSet :=
  if member ∈ s then some (s.erase member) else none

def withGroups (f : StringSet → Option StringSet) (u : User) : Option User :=
  (f u.groupIds).map fun s => { u with groupIds := s }

def withRoles (f : StringSet → Option StringSet) (u : User) : Option User :=
  (f u.roleIds).map fun s => { u with roleIds := s }

def withActions (f : StringSet → Option StringSet) (u : User) : Option User :=
  (f u.requiredActions).map fun s => { u with requiredActions := s }

def putAttribute (realmId id name : String) (values : List String) : Update Bool := do
  if (← load realmId id).isNone then return false
  AttributeIndex.users.setAttribute realmId id name values none
  return true

def delete (realmId id : String) : Update Bool := do
  let removed ← Update.delete .users (key realmId id)
  let _ ← AttributeIndex.users.removeAttributesOf realmId id
  return removed

def deleteAll (realmId : String) : Update Nat := do
  let users ← Query.records User .users realmId
  users.forM fun u => discard (AttributeIndex.users.removeAttributesOf realmId u.id)
  let _ ← Update.deletePartition .users realmId
  return users.length

def loadByUsername (realmId username : String) : Query (Option User) := do
  match ← AttributeIndex.users.findUnique realmId UniqueField.username.attributeName username with
  | none => return none
  | some id => return (← load realmId id).filter (·.username = username)

/-- An email that several users share is nobody's where duplicates are allowed, else an error. -/
def loadByEmail (realm : Realm) (email : String) : Query (Option User) := do
  let name := UniqueField.email.attributeName
  let owners ←
    if realm.duplicateEmailsAllowed then AttributeIndex.users.findBy realm.id name email
    else Option.toList <$> AttributeIndex.users.findUnique realm.id name email
  match (← resolve realm.id owners).filter (·.email = some email) with
  | [user] => return some user
  | _ => return none

def loadByAttribute (realmId name value : String) : Query (List User) := do
  resolve realmId (← AttributeIndex.users.findBy realmId name value)

def loadAll (realmId : String) : Query (List User) := do
  return (← Query.records User .users realmId).mergeSort fun a b => a.username ≤ b.username

def lookups : Part UserCache (QueryCache UserLookup (Option User)) where
  get := UserCache.lookups
  set c s := { s with lookups := c }

def lists : Part UserCache (QueryCache UserListing (List User)) where
  get := UserCache.lists
  set c s := { s with lists := c }

def invalidate : Work UserCache Unit :=
  Work.modifyHeld fun c => ⟨c.lookups.forget, c.lists.forget⟩

def create (realm : Realm) (username : String) : Work UserCache User := do
  invalidate
  insert
    { realmId := realm.id
      id := ← Work.newId
      username := Text.lowercase username
      createdTimestamp := ← Query.now }

def findById (realmId id : String) : Work UserCache (Option User) :=
  Work.cached lookups (.byId realmId id) (load realmId id)

def findByUsername (realmId username : String) : Work UserCache (Option User) :=
  let username := Text.lowercase username
  Work.cached lookups (.byUsername realmId username) (loadByUsername realmId username)

def findByEmail (realm : Realm) (email : String) : Work UserCache (Option User) :=
  let email := Text.lowercase email
  Work.cached lookups (.byEmail realm.id email) (loadByEmail realm email)

def findByAttribute (realmId name value : String) : Work UserCache (List User) :=
  Work.cached lists (.byAttribute realmId name value) (loadByAttribute realmId name value)

def findByFederationLink (realmId link : String) : Query (List User) :=
  loadByAttribute realmId federationLinkAttribute link

def findByServiceAccountClient (realmId clientId : String) : Query (Option User) := do
  match ← AttributeIndex.users.findUnique realmId UniqueField.serviceAccount.attributeName
    clientId with
  | none => return none
  | some id => load realmId id

def all (realmId : String) : Work UserCache (List User) :=
  Work.cached lists (.all realmId) (loadAll realmId)

def list (realmId : String) (page : Page) : Work UserCache (List User) := do
  return page.of (← all realmId)

def isMatch (term : String) (u : User) : Bool :=
  (u.username :: [u.email, u.firstName, u.lastName].filterMap id).any
    (Text.matchesSearch · (some term))

def search (realmId term : String) (page : Page) : Work UserCache (List User) := do
  return page.of ((← all realmId).filter (isMatch term))

def count (realmId : String) : Work UserCache Nat := do
  return (← all realmId).length

/-- Every new unique value is claimed before anything is withdrawn, so a refused update changes
nothing. -/
def update (realm : Realm) (user : User) : Work UserCache Bool := do
  invalidate
  replace realm user

def modify (realmId id : String) (change : User → Option User) : Work UserCache Bool := do
  invalidate
  alter realmId id change

def joinGroup (realmId id groupId : String) : Work UserCache Bool :=
  modify realmId id (withGroups (added groupId))

def leaveGroup (realmId id groupId : String) : Work UserCache Bool :=
  modify realmId id (withGroups (without groupId))

def grantRole (realmId id roleId : String) : Work UserCache Bool :=
  modify realmId id (withRoles (added roleId))

def revokeRole (realmId id roleId : String) : Work UserCache Bool :=
  modify realmId id (withRoles (without roleId))

def addRequiredAction (realmId id action : String) : Work UserCache Bool :=
  modify realmId id (withActions (added action))

def removeRequiredAction (realmId id action : String) : Work UserCache Bool :=
  modify realmId id (withActions (without action))

def refuseInternal (name : String) : Work UserCache Unit :=
  if isInternal name then throw (.invalidArgument (.reservedAttribute name)) else return

def setAttribute (realmId id name : String) (values : List String) : Work UserCache Bool := do
  refuseInternal name
  invalidate
  putAttribute realmId id name values

def removeAttribute (realmId id name : String) : Work UserCache Bool := do
  refuseInternal name
  invalidate
  AttributeIndex.users.removeAttribute realmId id name

def attributes (realmId id : String) : Query (StringMap (List String)) := do
  return (← AttributeIndex.users.attributesOf realmId id).filterKeys (!isInternal ·)

def remove (realmId id : String) : Work UserCache Bool := do
  invalidate
  delete realmId id

def removeAll (realmId : String) : Work UserCache Nat := do
  invalidate
  deleteAll realmId

end Users

end IdentityDirectory
