import IdentityDirectory.AttributeIndex
import IdentityDirectory.QueryCache
import IdentityDirectory.Session.Expiration
import IdentityDirectory.Text.Search

/-!
The sessions of a realm. Every write of a user session computes its expiration anew, and the row and
all its index rows get the lifetime that this expiration leaves.
-/

namespace IdentityDirectory

structure SessionLookup where
  realmId : String
  entity : String
  deriving DecidableEq

abbrev SessionCache := QueryCache SessionLookup (Option UserSession)

namespace UserSessions

def userAttribute : String := "user_id"

def brokerSessionAttribute : String := "broker_session_id"

def brokerUserAttribute : String := "broker_user_id"

def clientAttribute : String := "client_id"

def entity (id : String) (offline : Bool) : String :=
  if offline then RowKey.composite [id, "offline"] else id

def key (realmId entity : String) : RowKey := ⟨realmId, entity⟩

def clientSessionKey (realmId id : String) : RowKey := ⟨realmId, id⟩

def loadEntity (realmId entity : String) : Query (Option UserSession) :=
  Query.record .userSessions (key realmId entity)

def load (realmId id : String) (offline : Bool) : Query (Option UserSession) :=
  loadEntity realmId (entity id offline)

def loadClientSession (realmId id : String) : Query (Option ClientSession) :=
  Query.record .clientSessions (clientSessionKey realmId id)

def resolve (realmId : String) (entities : List String) : Query (List UserSession) := do
  return (← entities.mapM (loadEntity realmId)).filterMap id

def startsBefore (a b : UserSession) : Bool :=
  a.started < b.started || a.started = b.started && a.id ≤ b.id

def findIndexed (realmId name value : String) (offline : Bool) : Query (List UserSession) := do
  let entities ← AttributeIndex.userSessions.findBy realmId name value
  return ((← resolve realmId entities).filter (·.offline = offline)).mergeSort startsBefore

def findByUser (realmId userId : String) (offline : Bool) : Query (List UserSession) :=
  findIndexed realmId userAttribute userId offline

def findByBrokerSession (realmId brokerSessionId : String) (offline : Bool) :
    Query (Option UserSession) := do
  return (← findIndexed realmId brokerSessionAttribute brokerSessionId offline).head?

def findByBrokerUser (realmId brokerUserId : String) (offline : Bool) :
    Query (List UserSession) :=
  findIndexed realmId brokerUserAttribute brokerUserId offline

def findByClient (realmId clientId : String) (offline : Bool) (page : Page) :
    Query (List UserSession) := do
  return page.of (← findIndexed realmId clientAttribute clientId offline)

def countByClient (realmId clientId : String) (offline : Bool) : Query Nat := do
  return (← findIndexed realmId clientAttribute clientId offline).length

def findClientSession (realmId : String) (session : UserSession) (clientId : String) :
    Query (Option ClientSession) :=
  match session.clientSessions.get? clientId with
  | none => return none
  | some id => loadClientSession realmId id

def clientSessions (realmId : String) (session : UserSession) : Query (List ClientSession) := do
  return (← session.clientSessions.values.mapM (loadClientSession realmId)).filterMap id

def deleteClientSession (realmId id : String) : Update Unit :=
  discard (Update.delete .clientSessions (clientSessionKey realmId id))

def expirationOf (realm : Realm) (session : UserSession) : Int :=
  SessionTimes.expiration realm.timeouts none
    { started := session.started
      lastRefresh := session.lastSessionRefresh
      rememberMe := session.rememberMe
      offline := session.offline }

def clientExpirationOf (realm : Realm) (client : Client) (session : UserSession)
    (clientSession : ClientSession) : Int :=
  SessionTimes.expiration realm.timeouts (some client.timeouts)
    { started := session.started
      lastRefresh := clientSession.timestamp
      rememberMe := session.rememberMe
      offline := clientSession.offline }

def indexed (session : UserSession) : List (String × List String) :=
  [(userAttribute, [session.userId]),
    (brokerSessionAttribute, session.brokerSessionId.toList),
    (brokerUserAttribute, session.brokerUserId.toList),
    (clientAttribute, session.clientSessions.keys)]

def put (realm : Realm) (session : UserSession) : Update UserSession := do
  let session := { session with expiration := some (expirationOf realm session) }
  let entity := entity session.id session.offline
  let lifetime ← Update.putExpirable .userSessions (key realm.id entity) session
  (indexed session).forM fun (name, values) =>
    AttributeIndex.userSessions.setAttribute realm.id entity name values lifetime
  return session

def putClientSession (realm : Realm) (client : Client) (session : UserSession)
    (clientSession : ClientSession) : Update ClientSession := do
  let expiration := clientExpirationOf realm client session clientSession
  let clientSession := { clientSession with expiration := some expiration }
  let _ ← Update.putExpirable .clientSessions (clientSessionKey realm.id clientSession.id)
    clientSession
  return clientSession

def delete (realmId id : String) (offline : Bool) : Update Bool := do
  let entity := entity id offline
  match ← Update.take .userSessions (key realmId entity) with
  | none =>
    let _ ← AttributeIndex.userSessions.removeAttributesOf realmId entity
    return false
  | some row =>
    let session : UserSession ← Query.ofRows fun _ => row.read
    session.clientSessions.values.forM (deleteClientSession realmId)
    let _ ← AttributeIndex.userSessions.removeAttributesOf realmId entity
    return true

def deleteAll (realmId : String) : Update Nat := do
  let rows ← Query.scanPartition .userSessions realmId
  rows.forM fun (key, _) =>
    discard (AttributeIndex.userSessions.removeAttributesOf realmId key.clustering)
  let _ ← Update.deletePartition .userSessions realmId
  let _ ← Update.deletePartition .clientSessions realmId
  return rows.length

def whole : Part SessionCache SessionCache := { get := id, set := fun c _ => c }

def invalidate : Work SessionCache Unit := Work.modifyHeld QueryCache.forget

def write (realm : Realm) (session : UserSession) : Work SessionCache UserSession := do
  invalidate
  put realm session

/-- A remembered session may have ended since it was loaded. -/
def findById (realmId id : String) (offline : Bool) : Work SessionCache (Option UserSession) := do
  let now ← Query.now
  let session ← Work.cached whole ⟨realmId, entity id offline⟩ (load realmId id offline)
  return session.filter fun s => s.expiration.all (now < ·)

def create (realm : Realm) (session : UserSession) : Work SessionCache UserSession := do
  let now ← Query.now
  let id ← if session.id.isEmpty then Work.newId else pure session.id
  if (← load realm.id id session.offline).isSome then throw (.duplicateKey .userSession id)
  write realm { session with id, realmId := realm.id, started := now, lastSessionRefresh := now }

def refresh (realm : Realm) (id : String) (offline : Bool) :
    Work SessionCache (Option UserSession) := do
  match ← load realm.id id offline with
  | none => return none
  | some session =>
    some <$> write realm { session with lastSessionRefresh := ← Query.now }

def update (realm : Realm) (session : UserSession) : Work SessionCache Bool := do
  if (← load realm.id session.id session.offline).isNone then return false
  let _ ← write realm session
  return true

def attachClientSession (realm : Realm) (client : Client) (id : String) (offline : Bool) :
    Work SessionCache (Option ClientSession) := do
  match ← load realm.id id offline with
  | none => return none
  | some session =>
    let clientSession ← putClientSession realm client session
      { realmId := realm.id
        id := ← Work.newId
        userSessionId := session.id
        clientId := client.id
        timestamp := ← Query.now
        offline := session.offline }
    (session.clientSessions.get? client.id).toList.forM fun previous =>
      (deleteClientSession realm.id previous : Update Unit)
    let _ ← write realm
      { session with clientSessions := session.clientSessions.insert client.id clientSession.id }
    return some clientSession

def refreshClientSession (realm : Realm) (client : Client) (session : UserSession) :
    Update (Option ClientSession) := do
  match ← findClientSession realm.id session client.id with
  | none => return none
  | some clientSession =>
    some <$> putClientSession realm client session
      { clientSession with timestamp := ← Query.now }

def detachClientSession (realm : Realm) (id : String) (offline : Bool) (clientId : String) :
    Work SessionCache Bool := do
  match ← load realm.id id offline with
  | none => return false
  | some session =>
    match session.clientSessions.get? clientId with
    | none => return false
    | some clientSessionId =>
      deleteClientSession realm.id clientSessionId
      let _ ← write realm
        { session with clientSessions := session.clientSessions.erase clientId }
      return true

def detachClientEverywhere (realm : Realm) (clientId : String) : Work SessionCache Nat := do
  let detach (offline : Bool) : Work SessionCache Nat := do
    let sessions ← findIndexed realm.id clientAttribute clientId offline
    Work.countTrue (fun s => detachClientSession realm s.id offline clientId) sessions
  return (← detach false) + (← detach true)

def createOfflineCopy (realm : Realm) (session : UserSession) : Work SessionCache UserSession :=
  create realm { session with offline := true, clientSessions := ∅ }

def remove (realmId id : String) (offline : Bool) : Work SessionCache Bool := do
  invalidate
  delete realmId id offline

def removeByUser (realmId userId : String) : Work SessionCache Nat := do
  let entities ← AttributeIndex.userSessions.findBy realmId userAttribute userId
  Work.countTrue (fun s => remove realmId s.id s.offline) (← resolve realmId entities)

def removeAll (realmId : String) : Work SessionCache Nat := do
  invalidate
  deleteAll realmId

end UserSessions

end IdentityDirectory
