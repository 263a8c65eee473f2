import IdentityDirectory.Client.Repository
import IdentityDirectory.Proofs.Isolation.Accesses

/-! Clients of one realm: what is asked and changed there stays there. -/

namespace IdentityDirectory.Clients

open AttributeIndex

variable {b : String} {α : Type} {client : Client}

theorem clients_ne_realms : AttributeIndex.clients ≠ .realms := by decide

theorem local_load (id : String) : Query.Local b (load b id) :=
  Query.local_record rfl (RowKey.ofRealm b id)

section Write

variable (h : client.realmId = b)
include h

theorem isolated_claimClientId : Update.Isolated b (claimClientId client) := by
  subst h
  apply isolated_claimUnique clients_ne_realms
  intro owner
  exact .bind (local_load owner) fun _ => .pure _

theorem isolated_commitClientId : Update.Isolated b (commitClientId client) := by
  subst h
  exact isolated_commitUnique clients_ne_realms _ _ _ none

theorem isolated_put : Update.Isolated b (put client) := by
  subst h
  exact .discard (Update.isolated_put rfl (RowKey.ofRealm _ _) client none)

theorem isolated_putClaimed : Update.Isolated b (putClaimed client) := by
  refine .tryCatch (isolated_put h) fun e => ?_
  subst h
  exact .bind (isolated_releaseClaim clients_ne_realms _ _ _) fun _ => .throw e

theorem isolated_insert : Update.Isolated b (insert client) := by
  refine .bind (isolated_claimClientId h) fun _ => ?_
  refine .bind (isolated_putClaimed h) fun _ => ?_
  exact .bind (isolated_commitClientId h) fun _ => .pure client

theorem isolated_replace : Update.Isolated b (replace client) := by
  have hload : Query.Local b (load client.realmId client.id) := h ▸ local_load client.id
  refine .bind hload.update fun found => ?_
  cases found with
  | none => exact .pure false
  | some previous =>
    refine .ite ?_ ?_
    · exact .bind (isolated_put h) fun _ => .pure true
    · refine .bind (isolated_claimClientId h) fun _ => ?_
      refine .bind (isolated_putClaimed h) fun _ => ?_
      exact .bind (isolated_commitClientId h) fun _ => .pure true

end Write

theorem isolated_delete (id : String) : Update.Isolated b (delete b id) := by
  refine .bind (Update.isolated_delete rfl (RowKey.ofRealm b id)) fun removed => ?_
  exact .bind (isolated_removeAttributesOf clients_ne_realms id) fun _ => .pure removed

theorem isolated_deleteAll : Update.Isolated b (deleteAll b) := by
  refine .bind (Query.local_records rfl owned_lead).update fun clients => ?_
  refine .bind (.forM fun c _ => .discard (isolated_removeAttributesOf clients_ne_realms c.id)) ?_
  intro _
  exact .bind (Update.isolated_deletePartition rfl owned_lead) fun _ => .pure clients.length

theorem local_loadByClientId (clientId : String) : Query.Local b (loadByClientId b clientId) := by
  refine .bind (local_findUnique clients_ne_realms _ _) fun owner => ?_
  cases owner with
  | none => exact .pure none
  | some id => exact .bind (local_load id) fun _ => .pure _

theorem local_loadAll : Query.Local b (loadAll b) :=
  .bind (Query.local_records rfl owned_lead) fun _ => .pure _

inductive Request (realmId : String) : Type → Type
  | create (clientId : String) : Request realmId Client
  | findById (id : String) : Request realmId (Option Client)
  | findByClientId (clientId : String) : Request realmId (Option Client)
  | list (page : Page) : Request realmId (List Client)
  | search (fragment : String) (page : Page) : Request realmId (List Client)
  | count : Request realmId Nat
  | update (client : Client) (h : client.realmId = realmId) : Request realmId Bool
  | remove (id : String) : Request realmId Bool
  | removeAll : Request realmId Nat

def Request.perform : Request b α → Work ClientCache α
  | create clientId => Clients.create b clientId
  | findById id => Clients.findById b id
  | findByClientId clientId => Clients.findByClientId b clientId
  | list page => Clients.list b page
  | search fragment page => Clients.search b fragment page
  | count => Clients.count b
  | update client _ => Clients.update client
  | remove id => Clients.remove b id
  | removeAll => Clients.removeAll b

theorem isolated_invalidate : Work.Isolated b (fun _ => True) invalidate :=
  Work.Isolated.modifyHeld fun _ _ => trivial

theorem isolated_all : Work.Isolated b (fun _ => True) (all b) :=
  Work.Isolated.cached b local_loadAll

theorem Request.isolated (request : Request b α) :
    Work.Isolated b (fun _ => True) request.perform := by
  cases request with
  | create clientId =>
    refine .bind isolated_invalidate fun _ => .bind Work.Isolated.newId fun id => ?_
    exact Update.Isolated.work (isolated_insert rfl)
  | findById id => exact Work.Isolated.cached _ (local_load id)
  | findByClientId clientId => exact Work.Isolated.cached _ (local_loadByClientId clientId)
  | list page => exact .bind isolated_all fun _ => .pure _
  | search fragment page => exact .bind isolated_all fun _ => .pure _
  | count => exact .bind isolated_all fun _ => .pure _
  | update client h => exact .bind isolated_invalidate fun _ => (isolated_replace h).work
  | remove id => exact .bind isolated_invalidate fun _ => (isolated_delete id).work
  | removeAll => exact .bind isolated_invalidate fun _ => isolated_deleteAll.work

end IdentityDirectory.Clients
