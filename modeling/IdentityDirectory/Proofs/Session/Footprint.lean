import IdentityDirectory.Proofs.Isolation.Sessions
import IdentityDirectory.Proofs.Session.Backing

/-!
What the operations on sessions may write, whatever the strings: rows of sessions and of their index.
Main statements: `Request.writes` and, for operations that go by the rows alone,
`heldIndependent_detachClientEverywhere` and `heldIndependent_removeAll`.
-/

namespace IdentityDirectory.UserSessions

open RowStore (within)
open AttributeIndex (userSessions)
open Work (HeldIndependent)

variable {α : Type}

theorem open_within (scope : String) (lifetime : Option Int) :
    userSessions.Open (within sessionTables) scope lifetime where
  cleared _ t _ ht _ := by
    rcases ht with rfl | rfl <;> exact show _ ∈ sessionTables by decide
  written _ t _ _ ht _ _ := by
    rcases ht with rfl | rfl <;> exact show _ ∈ sessionTables by decide

theorem within_deleteClientSession (r id : String) :
    Update.Writes (within sessionTables) (deleteClientSession r id) :=
  .discard (Update.writes_delete fun _ => show Table.clientSessions ∈ sessionTables by decide)

theorem within_put (realm : Realm) (session : UserSession) :
    Update.Writes (within sessionTables) (put realm session) := by
  have hrow : Table.userSessions ∈ sessionTables := by decide
  refine .bind (Update.writes_putExpirable fun _ _ => hrow) fun lifetime => ?_
  refine .bind (.forM fun e _ => ?_) fun _ => .pure _
  exact AttributeIndex.writes_setAttribute ((open_within realm.id lifetime).owns _ e.1) e.2

theorem within_putClientSession (realm : Realm) (client : Client) (session : UserSession)
    (clientSession : ClientSession) :
    Update.Writes (within sessionTables) (putClientSession realm client session clientSession) :=
  .bind (Update.writes_putExpirable fun _ _ => show Table.clientSessions ∈ sessionTables by decide)
    fun _ => .pure _

theorem within_delete (r id : String) (offline : Bool) :
    Update.Writes (within sessionTables) (delete r id offline) := by
  have hrow : Table.userSessions ∈ sessionTables := by decide
  have hindex := AttributeIndex.writes_removeAttributesOf
    ((open_within r none).clearable (entity id offline))
  refine .bind (Update.writes_take fun _ => hrow) fun taken => ?_
  cases taken with
  | none => exact .bind hindex fun _ => .pure false
  | some row =>
    refine .bind (Update.writes_query _) fun session => ?_
    refine .bind (.forM fun clientId _ => within_deleteClientSession r clientId) fun _ => ?_
    exact .bind hindex fun _ => .pure true

theorem within_deleteAll (r : String) : Update.Writes (within sessionTables) (deleteAll r) := by
  have hsessions : Table.userSessions ∈ sessionTables := by decide
  have hclients : Table.clientSessions ∈ sessionTables := by decide
  refine .bind (Update.writes_query _) fun rows => ?_
  refine .bind (AttributeIndex.writes_removeEach (open_within r none).clearable rows _) fun _ => ?_
  refine .bind (Update.writes_deletePartition fun _ _ _ => hsessions) fun _ => ?_
  exact .bind (Update.writes_deletePartition fun _ _ _ => hclients) fun _ => .pure _

theorem heldIndependent_write (realm : Realm) (session : UserSession) :
    HeldIndependent (within sessionTables) (write realm session) :=
  .bind (HeldIndependent.modifyHeld _) fun _ => HeldIndependent.update (within_put realm session)

theorem heldIndependent_detachClientSession (realm : Realm) (id : String) (offline : Bool)
    (clientId : String) :
    HeldIndependent (within sessionTables) (detachClientSession realm id offline clientId) := by
  refine .bind (HeldIndependent.query _) fun found => ?_
  cases found with
  | none => exact .pure false
  | some session =>
    dsimp only
    split
    · exact .pure false
    · refine .bind (HeldIndependent.update (within_deleteClientSession realm.id _)) fun _ => ?_
      exact .bind (heldIndependent_write realm _) fun _ => .pure true

theorem heldIndependent_detachClientEverywhere (realm : Realm) (clientId : String) :
    HeldIndependent (within sessionTables) (detachClientEverywhere realm clientId) := by
  have hdetach : ∀ offline, HeldIndependent (within sessionTables) (do
      let sessions ← findIndexed realm.id clientAttribute clientId offline
      Work.countTrue (fun s => detachClientSession realm s.id offline clientId) sessions) := by
    intro offline
    refine .bind (HeldIndependent.query _) fun sessions => .countTrue fun s _ => ?_
    exact heldIndependent_detachClientSession realm s.id offline clientId
  exact .bind (hdetach false) fun _ => .bind (hdetach true) fun _ => .pure _

theorem heldIndependent_removeAll (r : String) : HeldIndependent (within sessionTables) (removeAll r) :=
  .bind (HeldIndependent.modifyHeld _) fun _ => HeldIndependent.update (within_deleteAll r)

theorem heldIndependent_remove (r id : String) (offline : Bool) :
    HeldIndependent (within sessionTables) (remove r id offline) :=
  .bind (HeldIndependent.modifyHeld _) fun _ => HeldIndependent.update (within_delete r id offline)

theorem heldIndependent_removeByUser (r userId : String) :
    HeldIndependent (within sessionTables) (removeByUser r userId) := by
  refine .bind (HeldIndependent.query _) fun entities => ?_
  refine .bind (HeldIndependent.query _) fun sessions => ?_
  exact .countTrue fun s _ => heldIndependent_remove r s.id s.offline

theorem writes_create (realm : Realm) (session : UserSession) :
    Work.Writes (within sessionTables) (create realm session) := by
  refine .bind (Work.writes_query _) fun now => ?_
  refine .ite (.bind Work.writes_newId fun id => ?_) (.bind (.pure session.id) fun id => ?_)
  all_goals
    refine .bind (Work.writes_query _) fun found => ?_
    exact .optional (.throw _) (heldIndependent_write realm _).writes

theorem writes_attachClientSession (realm : Realm) (client : Client) (id : String)
    (offline : Bool) :
    Work.Writes (within sessionTables) (attachClientSession realm client id offline) := by
  refine .bind (Work.writes_query _) fun found => ?_
  cases found with
  | none => exact .pure none
  | some session =>
    refine .bind Work.writes_newId fun newId => .bind (Work.writes_query _) fun now => ?_
    refine .bind (Work.writes_update (within_putClientSession realm client session _)) ?_
    intro clientSession
    refine .bind (.forM fun previous _ => ?_) fun _ => ?_
    · exact Work.writes_update (within_deleteClientSession realm.id previous)
    · exact .bind (heldIndependent_write realm _).writes fun _ => .pure _

theorem Request.writes (realm : Realm) (request : Request α) :
    Work.Writes (within sessionTables) (request.perform realm) := by
  cases request with
  | create session => exact writes_create realm session
  | findById id offline =>
    exact .bind (Work.writes_query _) fun now => .bind (Work.writes_cached _ _ _) fun _ => .pure _
  | findByUser | findByBrokerSession | findByBrokerUser | findByClient | countByClient =>
    exact Work.writes_query _
  | findClientSession | clientSessions => exact Work.writes_query _
  | refresh id offline =>
    refine .bind (Work.writes_query _) fun found => ?_
    cases found with
    | none => exact .pure none
    | some session =>
      exact .bind (Work.writes_query _) fun now => .map (heldIndependent_write realm _).writes _
  | update session =>
    refine .bind (Work.writes_query _) fun found => .ite (.pure false) ?_
    exact .bind (heldIndependent_write realm session).writes fun _ => .pure true
  | attachClientSession client id offline =>
    exact writes_attachClientSession realm client id offline
  | refreshClientSession client session =>
    refine Work.writes_update (.bind (Update.writes_query _) fun found => ?_)
    cases found with
    | none => exact .pure none
    | some clientSession =>
      refine .bind (Update.writes_query _) fun now => ?_
      exact .map (within_putClientSession realm client session _) _
  | detachClientSession id offline clientId =>
    exact (heldIndependent_detachClientSession realm id offline clientId).writes
  | detachClientEverywhere clientId =>
    exact (heldIndependent_detachClientEverywhere realm clientId).writes
  | createOfflineCopy session => exact writes_create realm _
  | remove id offline => exact (heldIndependent_remove realm.id id offline).writes
  | removeByUser userId => exact (heldIndependent_removeByUser realm.id userId).writes
  | removeAll => exact (heldIndependent_removeAll realm.id).writes

end IdentityDirectory.UserSessions
