import IdentityDirectory.Proofs.Isolation.Accesses
import IdentityDirectory.Session.Repository

/-!
Sessions of one realm: what is asked and changed there stays there. The entity of an offline session
and the client sessions that a record names may contain separators; they are still looked up under
the realm's id.
-/

namespace IdentityDirectory.UserSessions

open AttributeIndex

variable {b : String} {α : Type}

theorem userSessions_ne_realms : AttributeIndex.userSessions ≠ .realms := by decide

theorem local_loadEntity (entity : String) : Query.Local b (loadEntity b entity) :=
  Query.local_record rfl (RowKey.ofRealm b entity)

theorem local_load (id : String) (offline : Bool) : Query.Local b (load b id offline) :=
  local_loadEntity _

theorem local_loadClientSession (id : String) : Query.Local b (loadClientSession b id) :=
  Query.local_record rfl (RowKey.ofRealm b id)

theorem local_resolve (entities : List String) : Query.Local b (resolve b entities) :=
  .bind (.mapM fun entity _ => local_loadEntity entity) fun _ => .pure _

theorem local_findIndexed (name value : String) (offline : Bool) :
    Query.Local b (findIndexed b name value offline) := by
  refine .bind (local_findBy userSessions_ne_realms name value) fun entities => ?_
  exact .bind (local_resolve entities) fun _ => .pure _

theorem local_findClientSession (session : UserSession) (clientId : String) :
    Query.Local b (findClientSession b session clientId) := by
  rw [findClientSession]
  split
  · exact .pure none
  · exact local_loadClientSession _

theorem local_clientSessions (session : UserSession) :
    Query.Local b (clientSessions b session) :=
  .bind (.mapM fun id _ => local_loadClientSession id) fun _ => .pure _

theorem isolated_deleteClientSession (id : String) :
    Update.Isolated b (deleteClientSession b id) :=
  .discard (Update.isolated_delete rfl (RowKey.ofRealm b id))

theorem isolated_put (realm : Realm) (session : UserSession) :
    Update.Isolated realm.id (put realm session) := by
  refine .bind (Update.isolated_putExpirable rfl (RowKey.ofRealm _ _) _) fun lifetime => ?_
  refine .bind (.forM fun e _ => ?_) fun _ => .pure _
  exact isolated_setAttribute userSessions_ne_realms _ e.1 e.2 lifetime

theorem isolated_putClientSession (realm : Realm) (client : Client) (session : UserSession)
    (clientSession : ClientSession) :
    Update.Isolated realm.id (putClientSession realm client session clientSession) :=
  .bind (Update.isolated_putExpirable rfl (RowKey.ofRealm _ _) _) fun _ => .pure _

theorem isolated_delete (id : String) (offline : Bool) :
    Update.Isolated b (delete b id offline) := by
  have hindex := isolated_removeAttributesOf (b := b) userSessions_ne_realms (entity id offline)
  refine .bind (Update.isolated_take rfl (RowKey.ofRealm b _)) fun taken => ?_
  cases taken with
  | none => exact .bind hindex fun _ => .pure false
  | some row =>
    refine .bind (Query.Local.ofRows fun _ _ _ => rfl).update fun session => ?_
    refine .bind (.forM fun id _ => isolated_deleteClientSession id) fun _ => ?_
    exact .bind hindex fun _ => .pure true

theorem isolated_deleteAll : Update.Isolated b (deleteAll b) := by
  refine .bind (Query.local_scanPartition rfl owned_lead).update fun rows => ?_
  refine .bind (.forM fun row _ => .discard ?_) fun _ => ?_
  · exact isolated_removeAttributesOf userSessions_ne_realms row.1.clustering
  refine .bind (Update.isolated_deletePartition rfl owned_lead) fun _ => ?_
  exact .bind (Update.isolated_deletePartition rfl owned_lead) fun _ => .pure rows.length

theorem isolated_refreshClientSession (realm : Realm) (client : Client) (session : UserSession) :
    Update.Isolated realm.id (refreshClientSession realm client session) := by
  refine .bind (local_findClientSession session client.id).update fun found => ?_
  cases found with
  | none => exact .pure none
  | some clientSession =>
    refine .bind Query.Local.now.update fun now => ?_
    exact .map (isolated_putClientSession realm client session _) some

theorem isolated_invalidate : Work.Isolated b (fun _ => True) invalidate :=
  Work.Isolated.modifyHeld fun _ _ => trivial

theorem isolated_write (realm : Realm) (session : UserSession) :
    Work.Isolated realm.id (fun _ => True) (write realm session) :=
  .bind isolated_invalidate fun _ => (isolated_put realm session).work

theorem isolated_findById (id : String) (offline : Bool) :
    Work.Isolated b (fun _ => True) (findById b id offline) := by
  refine .bind Query.Local.now.work fun now => ?_
  exact .bind (Work.Isolated.cached _ (local_load id offline)) fun _ => .pure _

theorem isolated_create (realm : Realm) (session : UserSession) :
    Work.Isolated realm.id (fun _ => True) (create realm session) := by
  refine .bind Query.Local.now.work fun now => ?_
  refine .ite (.bind Work.Isolated.newId fun id => ?_) (.bind (.pure session.id) fun id => ?_)
  all_goals
    refine .bind (local_load id session.offline).work fun found => ?_
    exact .optional (.throw _) (isolated_write realm _)

theorem isolated_refresh (realm : Realm) (id : String) (offline : Bool) :
    Work.Isolated realm.id (fun _ => True) (refresh realm id offline) := by
  refine .bind (local_load id offline).work fun found => ?_
  cases found with
  | none => exact .pure none
  | some session =>
    refine .bind Query.Local.now.work fun now => ?_
    exact .map (isolated_write realm _) some

theorem isolated_update (realm : Realm) (session : UserSession) :
    Work.Isolated realm.id (fun _ => True) (update realm session) := by
  refine .bind (local_load session.id session.offline).work fun found => ?_
  exact .ite (.pure false) (.bind (isolated_write realm session) fun _ => .pure true)

theorem isolated_attachClientSession (realm : Realm) (client : Client) (id : String)
    (offline : Bool) :
    Work.Isolated realm.id (fun _ => True) (attachClientSession realm client id offline) := by
  refine .bind (local_load id offline).work fun found => ?_
  cases found with
  | none => exact .pure none
  | some session =>
    refine .bind Work.Isolated.newId fun newId => .bind Query.Local.now.work fun now => ?_
    refine .bind (isolated_putClientSession realm client session _).work fun clientSession => ?_
    refine .bind (.forM fun previous _ => (isolated_deleteClientSession previous).work) fun _ => ?_
    exact .bind (isolated_write realm _) fun _ => .pure _

theorem isolated_detachClientSession (realm : Realm) (id : String) (offline : Bool)
    (clientId : String) :
    Work.Isolated realm.id (fun _ => True) (detachClientSession realm id offline clientId) := by
  refine .bind (local_load id offline).work fun found => ?_
  cases found with
  | none => exact .pure false
  | some session =>
    dsimp only
    split
    · exact .pure false
    · refine .bind (isolated_deleteClientSession _).work fun _ => ?_
      exact .bind (isolated_write realm _) fun _ => .pure true

theorem isolated_detachClientEverywhere (realm : Realm) (clientId : String) :
    Work.Isolated realm.id (fun _ => True) (detachClientEverywhere realm clientId) := by
  refine .bind (.bind (local_findIndexed clientAttribute clientId false).work fun online => ?_) ?_
  · exact .countTrue fun s _ => isolated_detachClientSession realm s.id false clientId
  intro online
  refine .bind (.bind (local_findIndexed clientAttribute clientId true).work fun offline => ?_) ?_
  · exact .countTrue fun s _ => isolated_detachClientSession realm s.id true clientId
  exact fun _ => .pure _

theorem isolated_remove (id : String) (offline : Bool) :
    Work.Isolated b (fun _ => True) (remove b id offline) :=
  .bind isolated_invalidate fun _ => (isolated_delete id offline).work

theorem isolated_removeByUser (userId : String) :
    Work.Isolated b (fun _ => True) (removeByUser b userId) := by
  refine .bind (local_findBy userSessions_ne_realms userAttribute userId).work fun entities => ?_
  refine .bind (local_resolve entities).work fun sessions => ?_
  exact .countTrue fun s _ => isolated_remove s.id s.offline

inductive Request : Type → Type
  | create (session : UserSession) : Request UserSession
  | findById (id : String) (offline : Bool) : Request (Option UserSession)
  | findByUser (userId : String) (offline : Bool) : Request (List UserSession)
  | findByBrokerSession (brokerSessionId : String) (offline : Bool) : Request (Option UserSession)
  | findByBrokerUser (brokerUserId : String) (offline : Bool) : Request (List UserSession)
  | findByClient (clientId : String) (offline : Bool) (page : Page) : Request (List UserSession)
  | countByClient (clientId : String) (offline : Bool) : Request Nat
  | refresh (id : String) (offline : Bool) : Request (Option UserSession)
  | update (session : UserSession) : Request Bool
  | attachClientSession (client : Client) (id : String) (offline : Bool) :
      Request (Option ClientSession)
  | findClientSession (session : UserSession) (clientId : String) : Request (Option ClientSession)
  | clientSessions (session : UserSession) : Request (List ClientSession)
  | refreshClientSession (client : Client) (session : UserSession) : Request (Option ClientSession)
  | detachClientSession (id : String) (offline : Bool) (clientId : String) : Request Bool
  | detachClientEverywhere (clientId : String) : Request Nat
  | createOfflineCopy (session : UserSession) : Request UserSession
  | remove (id : String) (offline : Bool) : Request Bool
  | removeByUser (userId : String) : Request Nat
  | removeAll : Request Nat

def Request.perform (realm : Realm) : Request α → Work SessionCache α
  | create session => UserSessions.create realm session
  | findById id offline => UserSessions.findById realm.id id offline
  | findByUser userId offline => liftM (UserSessions.findByUser realm.id userId offline)
  | findByBrokerSession brokerSessionId offline =>
    liftM (UserSessions.findByBrokerSession realm.id brokerSessionId offline)
  | findByBrokerUser brokerUserId offline =>
    liftM (UserSessions.findByBrokerUser realm.id brokerUserId offline)
  | findByClient clientId offline page =>
    liftM (UserSessions.findByClient realm.id clientId offline page)
  | countByClient clientId offline => liftM (UserSessions.countByClient realm.id clientId offline)
  | refresh id offline => UserSessions.refresh realm id offline
  | update session => UserSessions.update realm session
  | attachClientSession client id offline =>
    UserSessions.attachClientSession realm client id offline
  | findClientSession session clientId =>
    liftM (UserSessions.findClientSession realm.id session clientId)
  | clientSessions session => liftM (UserSessions.clientSessions realm.id session)
  | refreshClientSession client session =>
    liftM (UserSessions.refreshClientSession realm client session)
  | detachClientSession id offline clientId =>
    UserSessions.detachClientSession realm id offline clientId
  | detachClientEverywhere clientId => UserSessions.detachClientEverywhere realm clientId
  | createOfflineCopy session => UserSessions.createOfflineCopy realm session
  | remove id offline => UserSessions.remove realm.id id offline
  | removeByUser userId => UserSessions.removeByUser realm.id userId
  | removeAll => UserSessions.removeAll realm.id

theorem Request.isolated (realm : Realm) (request : Request α) :
    Work.Isolated realm.id (fun _ => True) (request.perform realm) := by
  cases request with
  | create session => exact isolated_create realm session
  | findById id offline => exact isolated_findById id offline
  | findByUser userId offline => exact (local_findIndexed _ userId offline).work
  | findByBrokerSession brokerSessionId offline =>
    exact (Query.Local.map (local_findIndexed _ brokerSessionId offline) _).work
  | findByBrokerUser brokerUserId offline => exact (local_findIndexed _ brokerUserId offline).work
  | findByClient clientId offline page =>
    exact (Query.Local.map (local_findIndexed _ clientId offline) _).work
  | countByClient clientId offline =>
    exact (Query.Local.map (local_findIndexed _ clientId offline) _).work
  | refresh id offline => exact isolated_refresh realm id offline
  | update session => exact isolated_update realm session
  | attachClientSession client id offline =>
    exact isolated_attachClientSession realm client id offline
  | findClientSession session clientId => exact (local_findClientSession session clientId).work
  | clientSessions session => exact (local_clientSessions session).work
  | refreshClientSession client session =>
    exact (isolated_refreshClientSession realm client session).work
  | detachClientSession id offline clientId =>
    exact isolated_detachClientSession realm id offline clientId
  | detachClientEverywhere clientId => exact isolated_detachClientEverywhere realm clientId
  | createOfflineCopy session => exact isolated_create realm _
  | remove id offline => exact isolated_remove id offline
  | removeByUser userId => exact isolated_removeByUser userId
  | removeAll => exact .bind isolated_invalidate fun _ => isolated_deleteAll.work

end IdentityDirectory.UserSessions
