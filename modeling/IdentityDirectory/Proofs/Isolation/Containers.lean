import IdentityDirectory.Proofs.Container.Commit
import IdentityDirectory.Proofs.Isolation.Accesses

/-!
Containers of one realm. A coordinator that was asked about no other realm has no other container to
write back, so this is kept beside the isolation of what is asked. Main statements:
`Coordinator.isolated_load`, `Coordinator.isolated_flush` and that every operation is `isolated`.
-/

namespace IdentityDirectory

variable {b : String} {k : ContainerKind} {α β : Type}

theorem ContainerKind.ofTenants (k : ContainerKind) : k.table.ofTenants := by
  cases k <;> rfl

namespace Coordinator

theorem key_ofRealm (b : String) : (key b).OfRealm b := RowKey.ofRealm b ""

def Serves (b : String) (c : Coordinator (Container k)) : Prop := ∀ t ∈ c.changed, t = b

abbrev Isolated (b : String) (work : Work (Coordinator (Container k)) α) : Prop :=
  Work.Isolated b (Serves b) work

theorem isolated_keep (tenant : String) (x : Loaded (Container k)) :
    Isolated b (keep tenant x) :=
  Work.Isolated.modifyHeld fun _ hc => hc

theorem isolated_markChanged :
    Isolated b (markChanged b : Work (Coordinator (Container k)) Unit) := by
  refine Work.Isolated.modifyHeld fun c hc t ht => ?_
  rcases StringSet.mem_insert.mp ht with rfl | ht
  · rfl
  · exact hc t ht

theorem isolated_markDeleted (tenant : String) :
    Isolated b (markDeleted tenant : Work (Coordinator (Container k)) Unit) :=
  Work.Isolated.modifyHeld fun _ hc => hc

theorem serves_of_unchanged {c : Coordinator (Container k)} (h : c.changed = ∅) : Serves b c := by
  intro t ht
  rw [h] at ht
  exact absurd ht (StringMap.not_mem_empty t)

theorem isolated_close : Isolated b (close : Work (Coordinator (Container k)) Unit) :=
  Work.Isolated.modifyHeld fun _ _ => serves_of_unchanged rfl

theorem local_stored : Query.Local b (stored b : Query (Loaded (Container k))) := by
  refine .bind (Query.local_row k.ofTenants (key_ofRealm b)) fun found => ?_
  cases found with
  | none => exact .pure _
  | some row => exact .bind (.ofRows fun _ _ _ => rfl) fun _ => .pure _

theorem isolated_load :
    Isolated b (load b : Work (Coordinator (Container k)) (Loaded (Container k))) := by
  refine Work.Isolated.bind_held fun c _ => ?_
  cases c.loaded.get? b with
  | some x => exact .pure x
  | none =>
    refine .bind local_stored.work fun x => ?_
    exact .bind (isolated_keep b x) fun _ => .pure x

theorem isolated_read (f : Container k → β) : Isolated b (read b f) :=
  .bind isolated_load fun _ => .pure _

theorem isolated_tryUpdate (f : Container k → Except StoreError (β × Container k)) :
    Isolated b (tryUpdate b f) := by
  refine .bind isolated_load fun x => .bind (.except (f x.value)) fun changed => ?_
  obtain ⟨result, value⟩ := changed
  refine .bind (isolated_keep b _) fun _ => ?_
  exact .bind isolated_markChanged fun _ => .pure result

theorem isolated_update (f : Container k → β × Container k) : Isolated b (update b f) :=
  isolated_tryUpdate _

theorem isolated_delete : Isolated b (delete b : Work (Coordinator (Container k)) Bool) := by
  refine .bind (Update.isolated_delete k.ofTenants (key_ofRealm b)).work fun removed => ?_
  refine .bind (Work.Isolated.modifyHeld fun _ hc => hc) fun _ => ?_
  exact .bind (isolated_markDeleted b) fun _ => .pure removed

theorem isolated_putBack (linearizable : Bool) (x : Loaded (Container k)) :
    Update.Isolated b (putBack linearizable b x) := by
  refine .ite ?_ (Update.isolated_put k.ofTenants (key_ofRealm b) x.value none)
  refine .bind (Update.isolated_putIfVersion k.ofTenants (key_ofRealm b) _ _) fun written => ?_
  cases written with
  | applied version => exact .pure version
  | rejected found => exact .throw _

theorem isolated_writeBack : Isolated b (writeBack b : Work (Coordinator (Container k)) Bool) := by
  refine Work.Isolated.bind_held fun c _ => .ite (.pure false) ?_
  cases c.loaded.get? b with
  | none => exact .pure false
  | some x =>
    refine .bind (isolated_putBack c.linearizable x).work fun version => ?_
    exact .bind (isolated_keep b _) fun _ => .pure true

theorem isolated_flush : Isolated b (flush : Work (Coordinator (Container k)) Nat) := by
  refine Work.Isolated.bind_held fun c hc => ?_
  refine .bind (Work.Isolated.modifyHeld fun _ _ => serves_of_unchanged rfl) fun _ => ?_
  refine .countTrue fun t ht => ?_
  obtain rfl := hc t (StringSet.mem_toList.mp ht)
  exact isolated_writeBack

theorem isolated_drawing {f : String → Work (Coordinator (Container k)) α}
    (h : ∀ id, Isolated b (f id)) : Isolated b (Work.newId >>= f) :=
  .bind Work.Isolated.newId h

theorem isolated_withNewId {f : String → Work (Coordinator (Container k)) α}
    (h : ∀ id, Isolated b (f id)) : Isolated b (Work.withNewId f) :=
  Work.Isolated.withNewId h

inductive Request (k : ContainerKind) : Type → Type 1
  | read {α : Type} (f : Container k → α) : Request k α
  | tryUpdate {α : Type} (f : Container k → Except StoreError (α × Container k)) : Request k α
  | update {α : Type} (f : Container k → α × Container k) : Request k α
  | markChanged : Request k Unit
  | markDeleted : Request k Unit
  | delete : Request k Bool
  | pendingWrites : Request k (List String)
  | flush : Request k Nat
  | close : Request k Unit

def Request.perform (b : String) : Request k α → Work (Coordinator (Container k)) α
  | read f => Coordinator.read b f
  | tryUpdate f => Coordinator.tryUpdate b f
  | update f => Coordinator.update b f
  | markChanged => Coordinator.markChanged b
  | markDeleted => Coordinator.markDeleted b
  | delete => Coordinator.delete b
  | pendingWrites => return (← Work.held).pendingWrites
  | flush => Coordinator.flush
  | close => Coordinator.close

theorem Request.isolated (request : Request k α) : Isolated b (request.perform b) := by
  cases request with
  | read f => exact isolated_read f
  | tryUpdate f => exact isolated_tryUpdate f
  | update f => exact isolated_update f
  | markChanged => exact isolated_markChanged
  | markDeleted => exact isolated_markDeleted b
  | delete => exact isolated_delete
  | pendingWrites => exact Work.Isolated.bind_held fun c _ => .pure c.pendingWrites
  | flush => exact isolated_flush
  | close => exact isolated_close

end Coordinator

open Coordinator (isolated_read isolated_tryUpdate isolated_update isolated_drawing
  isolated_withNewId)

namespace Roles

inductive Request : Type → Type
  | addRole (role : Role) : Request Role
  | addRealmRole (name : String) : Request Role
  | addClientRole (clientId name : String) : Request Role
  | getRole (id : String) : Request (Option Role)
  | getRealmRole (name : String) : Request (Option Role)
  | getClientRole (clientId name : String) : Request (Option Role)
  | realmRoles (search : Option String) (page : Page) : Request (List Role)
  | clientRoles (clientId : String) (search : Option String) (page : Page) : Request (List Role)
  | updateRole (role : Role) : Request Bool
  | removeRole (id : String) : Request Bool
  | removeClientRoles (clientId : String) : Request Nat
  | addComposite (id childId : String) : Request Bool
  | removeComposite (id childId : String) : Request Bool
  | composites (id : String) (search : Option String) (page : Page) : Request (List Role)
  | hasRole (granted : StringSet) (id : String) : Request Bool
  | resolve (ids : StringSet) : Request (List Role)

def Request.perform (b : String) : Request α → Work α
  | addRole role => Roles.addRole b role
  | addRealmRole name => Roles.addRealmRole b name
  | addClientRole clientId name => Roles.addClientRole b clientId name
  | getRole id => Roles.getRole b id
  | getRealmRole name => Roles.getRealmRole b name
  | getClientRole clientId name => Roles.getClientRole b clientId name
  | realmRoles search page => Roles.realmRoles b search page
  | clientRoles clientId search page => Roles.clientRoles b clientId search page
  | updateRole role => Roles.updateRole b role
  | removeRole id => Roles.removeRole b id
  | removeClientRoles clientId => Roles.removeClientRoles b clientId
  | addComposite id childId => Roles.addComposite b id childId
  | removeComposite id childId => Roles.removeComposite b id childId
  | composites id search page => Roles.composites b id search page
  | hasRole granted id => Roles.hasRole b granted id
  | resolve ids => Roles.resolve b ids

theorem Request.isolated (request : Request α) :
    Coordinator.Isolated (k := .roles) b (request.perform b) := by
  cases request with unfold Request.perform
  | addRole role => exact isolated_tryUpdate _
  | addRealmRole name => exact isolated_drawing fun _ => isolated_tryUpdate _
  | addClientRole clientId name => exact isolated_drawing fun _ => isolated_tryUpdate _
  | updateRole role => exact isolated_tryUpdate _
  | addComposite id childId => exact isolated_tryUpdate _
  | removeRole id => exact isolated_update _
  | removeClientRoles clientId => exact isolated_update _
  | removeComposite id childId => exact isolated_update _
  | getRole id => exact isolated_read _
  | getRealmRole name => exact isolated_read _
  | getClientRole clientId name => exact isolated_read _
  | realmRoles search page => exact isolated_read _
  | clientRoles clientId search page => exact isolated_read _
  | composites id search page => exact isolated_read _
  | hasRole granted id => exact isolated_read _
  | resolve ids => exact isolated_read _

end Roles

namespace Groups

inductive Request : Type → Type
  | createGroup (name : String) (parentId : Option String) : Request Group
  | getGroup (id : String) : Request (Option Group)
  | groupPath (id : String) : Request (Option String)
  | subGroups (id : String) (search : Option String) (page : Page) : Request (List Group)
  | topLevelGroups (search : Option String) (page : Page) : Request (List Group)
  | searchGroups (search : Option String) (page : Page) : Request (List Group)
  | moveGroup (id : String) (parentId : Option String) : Request Bool
  | renameGroup (id name : String) : Request Bool
  | setGroupAttribute (id name : String) (values : List String) : Request Bool
  | removeGroup (id : String) : Request StringSet
  | grantGroupRole (id roleId : String) : Request Bool
  | revokeGroupRole (id roleId : String) : Request Bool
  | resolveGroups (ids : StringSet) : Request (List Group)
  | inheritedRoleIds (groupIds : StringSet) : Request StringSet

def Request.perform (b : String) : Request α → Work α
  | createGroup name parentId => Groups.createGroup b name parentId
  | getGroup id => Groups.getGroup b id
  | groupPath id => Groups.groupPath b id
  | subGroups id search page => Groups.subGroups b id search page
  | topLevelGroups search page => Groups.topLevelGroups b search page
  | searchGroups search page => Groups.searchGroups b search page
  | moveGroup id parentId => Groups.moveGroup b id parentId
  | renameGroup id name => Groups.renameGroup b id name
  | setGroupAttribute id name values => Groups.setGroupAttribute b id name values
  | removeGroup id => Groups.removeGroup b id
  | grantGroupRole id roleId => Groups.grantGroupRole b id roleId
  | revokeGroupRole id roleId => Groups.revokeGroupRole b id roleId
  | resolveGroups ids => Groups.resolveGroups b ids
  | inheritedRoleIds groupIds => Groups.inheritedRoleIds b groupIds

theorem Request.isolated (request : Request α) :
    Coordinator.Isolated (k := .groups) b (request.perform b) := by
  cases request with unfold Request.perform
  | createGroup name parentId => exact isolated_withNewId fun _ => isolated_tryUpdate _
  | moveGroup id parentId => exact isolated_tryUpdate _
  | renameGroup id name => exact isolated_tryUpdate _
  | setGroupAttribute id name values => exact isolated_update _
  | removeGroup id => exact isolated_update _
  | grantGroupRole id roleId => exact isolated_update _
  | revokeGroupRole id roleId => exact isolated_update _
  | getGroup id => exact isolated_read _
  | groupPath id => exact isolated_read _
  | subGroups id search page => exact isolated_read _
  | topLevelGroups search page => exact isolated_read _
  | searchGroups search page => exact isolated_read _
  | resolveGroups ids => exact isolated_read _
  | inheritedRoleIds groupIds => exact isolated_read _

end Groups

namespace ClientScopes

inductive Request : Type → Type
  | addClientScope (name : String) (protocol : Option String) : Request ClientScope
  | getClientScope (id : String) : Request (Option ClientScope)
  | getClientScopeByName (name : String) : Request (Option ClientScope)
  | clientScopes : Request (List ClientScope)
  | updateClientScope (scope : ClientScope) : Request Bool
  | removeClientScope (id : String) : Request Bool
  | addScopeRole (id roleId : String) : Request Bool

def Request.perform (b : String) : Request α → Work α
  | addClientScope name protocol => ClientScopes.addClientScope b name protocol
  | getClientScope id => ClientScopes.getClientScope b id
  | getClientScopeByName name => ClientScopes.getClientScopeByName b name
  | clientScopes => ClientScopes.clientScopes b
  | updateClientScope scope => ClientScopes.updateClientScope b scope
  | removeClientScope id => ClientScopes.removeClientScope b id
  | addScopeRole id roleId => ClientScopes.addScopeRole b id roleId

theorem Request.isolated (request : Request α) :
    Coordinator.Isolated (k := .clientScopes) b (request.perform b) := by
  cases request with unfold Request.perform
  | addClientScope name protocol => exact isolated_withNewId fun _ => isolated_tryUpdate _
  | updateClientScope scope => exact isolated_tryUpdate _
  | removeClientScope id => exact isolated_update _
  | addScopeRole id roleId => exact isolated_update _
  | getClientScope id => exact isolated_read _
  | getClientScopeByName name => exact isolated_read _
  | clientScopes => exact isolated_read _

end ClientScopes

namespace UnitOfWork

variable {B : Boundary (Desk UnitOfWork)}

theorem isolates_abort_of (hclosing : ∀ k, B.Isolates (liftM (closing (part k)))) :
    B.Isolates (liftM abort) := by
  change B.Isolates (allKinds.forM fun k => liftM (closing (part k)))
  exact .forM fun k _ => hclosing k

theorem isolates_commit_of (hcompleting : ∀ k, B.Isolates (completing (part k)))
    (hclosing : ∀ k, B.Isolates (liftM (closing (part k)))) : B.Isolates commit := by
  change B.Isolates (tryCatch (allKinds.forM fun k => completing (part k)) fun e =>
    liftM abort >>= fun _ => throw e)
  refine .tryCatch (.forM fun k _ => hcompleting k) fun e => ?_
  exact .bind (isolates_abort_of hclosing) fun _ => .throw e

end UnitOfWork

end IdentityDirectory
