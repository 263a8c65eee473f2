import IdentityDirectory.Login.Attempts
import IdentityDirectory.Login.Failures
import IdentityDirectory.Proofs.Isolation.Accesses

/-!
Logins in progress and failed logins of one realm: what is asked and changed there stays there.
-/

namespace IdentityDirectory

variable {α : Type}

namespace LoginAttempts

variable {b : String}

theorem local_findRoot (id : String) : Query.Local b (findRoot b id) :=
  Query.local_record rfl (RowKey.ofRealm b id)

theorem local_findChild (rootId clientId tabId : String) :
    Query.Local b (findChild b rootId clientId tabId) :=
  .bind (local_findRoot rootId) fun _ => .pure _

theorem isolated_put (realm : Realm) (root : RootAuthenticationSession) :
    Update.Isolated realm.id (put realm root) := by
  refine .bind Query.Local.now.update fun now => ?_
  exact .bind (Update.isolated_putExpirable rfl (RowKey.ofRealm _ _) _) fun _ => .pure _

theorem isolated_newTabId (used : StringMap AuthenticationSession) :
    Work.Isolated b (fun _ => True) (newTabId used) := by
  rintro d d' ⟨hagree, hdraws, hheld⟩
  -- Both runs look for an unused id among the same ones and have the same draws for it.
  rw [newTabId, newTabId, hdraws]
  cases unusedTabId? used d'.draws d'.draws.patience with
  | none => exact ⟨rfl, ⟨hagree, hdraws, hheld⟩, .refl b d.rows⟩
  | some found => exact ⟨rfl, ⟨hagree, rfl, hheld⟩, .refl b d.rows⟩

theorem isolated_createRoot (realm : Realm) (id : Option String) :
    Work.Isolated realm.id (fun _ => True) (createRoot realm id) := by
  cases id with
  | none => exact .bind Work.Isolated.newId fun _ => (isolated_put realm _).work
  | some id => exact (isolated_put realm _).work

theorem isolated_createChild (realm : Realm) (rootId clientId : String) :
    Work.Isolated realm.id (fun _ => True) (createChild realm rootId clientId) := by
  refine .bind (local_findRoot rootId).work fun found => ?_
  cases found with
  | none => exact .pure none
  | some root =>
    refine .bind (isolated_newTabId root.sessions) fun tabId => ?_
    refine .bind Query.Local.now.work fun now => ?_
    exact .bind (isolated_put realm _).work fun _ => .pure _

theorem isolated_updateChild (realm : Realm) (rootId : String) (child : AuthenticationSession) :
    Update.Isolated realm.id (updateChild realm rootId child) := by
  refine .bind (local_findRoot rootId).update fun found => ?_
  cases found with
  | none => exact .pure false
  | some root =>
    refine .ite ?_ (.pure false)
    refine .bind Query.Local.now.update fun now => ?_
    exact .bind (isolated_put realm _) fun _ => .pure true

theorem isolated_removeRoot (id : String) : Update.Isolated b (removeRoot b id) :=
  Update.isolated_delete rfl (RowKey.ofRealm b id)

theorem isolated_removeChild (realm : Realm) (rootId tabId : String) :
    Update.Isolated realm.id (removeChild realm rootId tabId) := by
  refine .bind (local_findRoot rootId).update fun found => ?_
  cases found with
  | none => exact .pure false
  | some root =>
    refine .ite (.ite ?_ ?_) (.pure false)
    · exact .bind (.discard (isolated_removeRoot rootId)) fun _ => .pure true
    · exact .bind (.discard (isolated_put realm _)) fun _ => .pure true

inductive Request : Type → Type
  | createRoot (id : Option String) : Request RootAuthenticationSession
  | findRoot (id : String) : Request (Option RootAuthenticationSession)
  | createChild (rootId clientId : String) : Request (Option AuthenticationSession)
  | findChild (rootId clientId tabId : String) : Request (Option AuthenticationSession)
  | updateChild (rootId : String) (child : AuthenticationSession) : Request Bool
  | removeChild (rootId tabId : String) : Request Bool
  | removeRoot (id : String) : Request Bool
  | removeAll : Request Nat

def Request.perform (realm : Realm) : Request α → Work Unit α
  | createRoot id => LoginAttempts.createRoot realm id
  | findRoot id => liftM (LoginAttempts.findRoot realm.id id)
  | createChild rootId clientId => LoginAttempts.createChild realm rootId clientId
  | findChild rootId clientId tabId =>
    liftM (LoginAttempts.findChild realm.id rootId clientId tabId)
  | updateChild rootId child => liftM (LoginAttempts.updateChild realm rootId child)
  | removeChild rootId tabId => liftM (LoginAttempts.removeChild realm rootId tabId)
  | removeRoot id => liftM (LoginAttempts.removeRoot realm.id id)
  | removeAll => liftM (LoginAttempts.removeAll realm.id)

theorem Request.isolated (realm : Realm) (request : Request α) :
    Work.Isolated realm.id (fun _ => True) (request.perform realm) := by
  cases request with
  | createRoot id => exact isolated_createRoot realm id
  | findRoot id => exact (local_findRoot id).work
  | createChild rootId clientId => exact isolated_createChild realm rootId clientId
  | findChild rootId clientId tabId => exact (local_findChild rootId clientId tabId).work
  | updateChild rootId child => exact (isolated_updateChild realm rootId child).work
  | removeChild rootId tabId => exact (isolated_removeChild realm rootId tabId).work
  | removeRoot id => exact (isolated_removeRoot id).work
  | removeAll => exact (Update.isolated_deletePartition rfl owned_lead).work

end LoginAttempts

namespace LoginFailures

variable {b : String} (userId : String)

theorem local_get : Query.Local b (get b userId) :=
  Query.local_record rfl (RowKey.ofRealm b userId)

theorem isolated_put (failure : LoginFailure) : Update.Isolated b (put b userId failure) :=
  .discard (Update.isolated_put rfl (RowKey.ofRealm b userId) failure none)

theorem isolated_record (ipAddress : Option String) :
    Update.Isolated b (record b userId ipAddress) := by
  refine .bind (local_get userId).update fun found => ?_
  refine .bind Query.Local.now.update fun now => ?_
  exact .bind (isolated_put userId _) fun _ => .pure _

theorem isolated_alter (change : LoginFailure → LoginFailure) :
    Update.Isolated b (alter b userId change) := by
  refine .bind (local_get userId).update fun found => ?_
  cases found with
  | none => exact .pure false
  | some failure => exact .bind (isolated_put userId _) fun _ => .pure true

inductive Request : Type → Type
  | get (userId : String) : Request (Option LoginFailure)
  | record (userId : String) (ipAddress : Option String) : Request LoginFailure
  | setNotBefore (userId : String) (notBefore : Int) : Request Bool
  | clear (userId : String) : Request Bool
  | remove (userId : String) : Request Bool
  | removeAll : Request Nat

def Request.perform (realmId : String) : Request α → Update α
  | get userId => liftM (LoginFailures.get realmId userId)
  | record userId ipAddress => LoginFailures.record realmId userId ipAddress
  | setNotBefore userId notBefore => LoginFailures.setNotBefore realmId userId notBefore
  | clear userId => LoginFailures.clear realmId userId
  | remove userId => LoginFailures.remove realmId userId
  | removeAll => LoginFailures.removeAll realmId

theorem Request.isolated (request : Request α) : Update.Isolated b (request.perform b) := by
  cases request with
  | get userId => exact (local_get userId).update
  | record userId ipAddress => exact isolated_record userId ipAddress
  | setNotBefore userId notBefore => exact isolated_alter userId _
  | clear userId => exact isolated_alter userId _
  | remove userId => exact Update.isolated_delete rfl (RowKey.ofRealm b userId)
  | removeAll => exact Update.isolated_deletePartition rfl owned_lead

end LoginFailures

end IdentityDirectory
