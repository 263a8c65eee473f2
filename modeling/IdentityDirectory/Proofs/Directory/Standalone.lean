import IdentityDirectory.Login.Tokens
import IdentityDirectory.Proofs.Container.Footprint
import IdentityDirectory.Proofs.Isolation.Containers
import IdentityDirectory.Proofs.Isolation.Logins

/-!
Work beside the registries and the sessions: logins, tokens, containers and whatever only reads. It
leaves all tables of records and of their index rows as they are.
-/

namespace IdentityDirectory

variable {α σ : Type} {s s' : RowStore} {k : ContainerKind}
  {admits : Int → Table → String → Option Cell → Prop}

namespace Directory

/-- The tables on which no other table depends. -/
def standaloneTables : List Table :=
  [.authSessions, .loginFailures, .singleUseObjects, .realmRoles, .realmGroups, .realmClientScopes]

def standalone (_ : Int) (t : Table) (_ : String) (cell : Option Cell) : Prop :=
  t ∈ standaloneTables ∧ cell ≠ some .unreadable

abbrev WritesStandalone (work : Work σ α) : Prop := Work.Writes standalone work

theorem onlyIn_standalone (h : RowStore.Wrote standalone s s') :
    RowStore.OnlyIn standaloneTables s s' :=
  h.onlyIn fun _ _ _ _ hnew => hnew.1

theorem readable_standalone (h : RowStore.Wrote standalone s s') {t : Table} (hs : s.Readable t) :
    s'.Readable t := by
  intro key hcell
  rcases h.cells t key with hsame | hnew
  · exact hs key (hsame ▸ hcell)
  · exact hnew.2 hcell

theorem allows_standalone {t : Table} (ht : t ∈ standaloneTables) : RowStore.Allows standalone t :=
  fun _ _ _ hcell => ⟨ht, hcell⟩

theorem standalone_deletePartition {t : Table} (ht : t ∈ standaloneTables) (partition : String) :
    Update.Writes standalone (Update.deletePartition t partition) :=
  Update.writes_deletePartition fun now key _ => (allows_standalone ht).clears now key

end Directory

open Directory (WritesStandalone standalone allows_standalone)
open RowStore (Allows)

namespace LoginAttempts

section Writes

variable (h : Allows admits .authSessions)
include h

theorem writes_put (realm : Realm) (root : RootAuthenticationSession) :
    Update.Writes admits (put realm root) := by
  refine .bind (Update.writes_query _) fun now => ?_
  exact .bind (Update.writes_putExpirable fun now => h.puts now _ _ _) fun _ => .pure _

theorem writes_removeRoot (r id : String) : Update.Writes admits (removeRoot r id) :=
  Update.writes_delete fun now => h.clears now _

omit h in
theorem writes_newTabId (used : StringMap AuthenticationSession) :
    Work.Writes admits (newTabId used) := by
  apply Work.writes_of_rows
  intro d
  rw [newTabId]
  split <;> rfl

theorem Request.writes (realm : Realm) (request : Request α) :
    Work.Writes admits (request.perform realm) := by
  have hput := writes_put h realm
  cases request with
  | findRoot id => exact Work.writes_query _
  | findChild rootId clientId tabId => exact Work.writes_query _
  | createRoot id =>
    cases id with
    | none => exact .bind Work.writes_newId fun id => Work.writes_update (hput _)
    | some id => exact Work.writes_update (hput _)
  | createChild rootId clientId =>
    refine .bind (Work.writes_query _) fun found => ?_
    cases found with
    | none => exact .pure none
    | some root =>
      refine .bind (writes_newTabId root.sessions) fun tabId => ?_
      refine .bind (Work.writes_query _) fun now => ?_
      exact .bind (Work.writes_update (hput _)) fun _ => .pure _
  | updateChild rootId child =>
    refine Work.writes_update (.bind (Update.writes_query _) fun found => ?_)
    cases found with
    | none => exact .pure false
    | some root =>
      refine .ite (.bind (Update.writes_query _) fun now => ?_) (.pure false)
      exact .bind (hput _) fun _ => .pure true
  | removeChild rootId tabId =>
    refine Work.writes_update (.bind (Update.writes_query _) fun found => ?_)
    cases found with
    | none => exact .pure false
    | some root =>
      refine .ite (.ite ?_ ?_) (.pure false)
      · exact .bind (.discard (writes_removeRoot h realm.id rootId)) fun _ => .pure true
      · exact .bind (.discard (hput _)) fun _ => .pure true
  | removeRoot id => exact Work.writes_update (writes_removeRoot h realm.id id)
  | removeAll =>
    exact Work.writes_update (Update.writes_deletePartition fun now key _ => h.clears now key)

end Writes

theorem Request.standalone (realm : Realm) (request : Request α) :
    WritesStandalone (request.perform realm) :=
  request.writes (allows_standalone (by decide)) realm

end LoginAttempts

namespace LoginFailures

section Writes

variable (h : Allows admits .loginFailures)
include h

theorem writes_put (r userId : String) (failure : LoginFailure) :
    Update.Writes admits (put r userId failure) :=
  .discard (Update.writes_put fun now => h.puts now _ _ _)

theorem writes_alter (r userId : String) (change : LoginFailure → LoginFailure) :
    Update.Writes admits (alter r userId change) := by
  refine .bind (Update.writes_query _) fun found => ?_
  cases found with
  | none => exact .pure false
  | some failure => exact .bind (writes_put h r userId _) fun _ => .pure true

theorem Request.writes (r : String) (request : Request α) :
    Update.Writes admits (request.perform r) := by
  cases request with
  | get userId => exact Update.writes_query _
  | record userId ipAddress =>
    refine .bind (Update.writes_query _) fun found => .bind (Update.writes_query _) fun now => ?_
    exact .bind (writes_put h r userId _) fun _ => .pure _
  | setNotBefore userId notBefore => exact writes_alter h r userId _
  | clear userId => exact writes_alter h r userId _
  | remove userId => exact Update.writes_delete fun now => h.clears now _
  | removeAll => exact Update.writes_deletePartition fun now key _ => h.clears now key

end Writes

theorem Request.standalone (r : String) (request : Request α) :
    Update.Writes standalone (request.perform r) :=
  request.writes (allows_standalone (by decide)) r

end LoginFailures

namespace Tokens

theorem operations_writes (h : Allows admits .singleUseObjects) (key : String) :
    (∀ lifespan notes, Update.Writes admits (put key lifespan notes)) ∧
    (∀ lifespan, Update.Writes admits (putIfAbsent key lifespan)) ∧
    (∀ notes, Update.Writes admits (replace key notes)) ∧
    Update.Writes admits (redeem key) := by
  have hput : ∀ object : SingleUseObject,
      Update.Writes admits (Update.putExpirable .singleUseObjects (rowKey key) object) :=
    fun _ => Update.writes_putExpirable fun now => h.puts now _ _ _
  refine ⟨fun lifespan notes => ?_, fun lifespan => ?_, fun notes => ?_, ?_⟩
  · exact .bind (Update.writes_query _) fun object => .discard (hput object)
  · refine .bind (Update.writes_query _) fun object => .bind (Update.writes_query _) fun now => ?_
    exact Update.writes_putIfAbsent fun now => h.puts now _ _ _
  · refine .bind (Update.writes_query _) fun found => ?_
    cases found with
    | none => exact .pure false
    | some object => exact .bind (hput _) fun _ => .pure true
  · refine .bind (Update.writes_take fun now => h.clears now _) fun taken => ?_
    cases taken with
    | none => exact .pure none
    | some row => exact .bind (Update.writes_query _) fun object => .pure _

theorem operations_standalone (key : String) :
    (∀ lifespan notes, Update.Writes standalone (put key lifespan notes)) ∧
    (∀ lifespan, Update.Writes standalone (putIfAbsent key lifespan)) ∧
    (∀ notes, Update.Writes standalone (replace key notes)) ∧
    Update.Writes standalone (redeem key) :=
  operations_writes (allows_standalone (by decide)) key

end Tokens

theorem ContainerKind.standalone (k : ContainerKind) : k.table ∈ Directory.standaloneTables := by
  cases k <;> decide

theorem Container.puts_standalone (k : ContainerKind) (tenant : String) :
    Container.Puts k standalone tenant :=
  fun _ now => (allows_standalone k.standalone).puts now _ _ _

theorem Coordinator.Request.standalone (tenant : String) (request : Coordinator.Request k α) :
    WritesStandalone (request.perform tenant) :=
  request.writes (allows_standalone k.standalone) tenant

namespace UnitOfWork

theorem standalone_edit {work : Work (Coordinator (Container k)) α} (h : Coordinator.Editing work) :
    WritesStandalone (Work.on (part k) work) :=
  h.writes.on (part k)

theorem standalone_commit : WritesStandalone commit :=
  Work.writes_of_wrote fun _ => wrote_commit fun k =>
    Coordinator.puts_of_container fun tenant _ => Container.puts_standalone k tenant

theorem standalone_abort : WritesStandalone (liftM abort : Work UnitOfWork Unit) :=
  Work.writes_of_rows fun d => (abort_spec d).1

end UnitOfWork

end IdentityDirectory
