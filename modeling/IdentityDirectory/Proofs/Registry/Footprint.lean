import IdentityDirectory.Proofs.Isolation.Clients
import IdentityDirectory.Proofs.Isolation.Reads
import IdentityDirectory.Proofs.Isolation.Users
import IdentityDirectory.Proofs.Registry.Named
import IdentityDirectory.Proofs.Registry.Operations

/-!
What the operations on realms, clients and users may write, whatever the strings. They write records
and index rows of their own registry, all without a deadline; those that go by the fields of a user
write no index rows but those of the fields. Main statements: `Request.writes` for each registry, and
`Users.writes_replace`.
-/

namespace IdentityDirectory

variable {α : Type} {admits : Int → Table → String → Option Cell → Prop}

structure Registry.Writable [Storable α] (R : Registry α)
    (admits : Int → Table → String → Option Cell → Prop) : Prop where
  removed : ∀ now t key, t ∈ R.tables → admits now t key none
  written : ∀ now t key payload, t ∈ R.tables → RowStore.Puts admits now t key payload none

namespace Registry.Writable

variable [Storable α] {R : Registry α} (h : R.Writable admits)
include h

theorem puts (key : String) (payload : Payload) (now : Int) :
    RowStore.Puts admits now R.table key payload none :=
  h.written now _ key payload (mem_tables_iff.mpr (.inl rfl))

theorem clears (key : String) (now : Int) : admits now R.table key none :=
  h.removed now _ key (mem_tables_iff.mpr (.inl rfl))

theorem index (scope : String) : R.index.Open admits scope none where
  cleared now t key ht _ := h.removed now t key (mem_tables_iff.mpr (.inr ht))
  written now t key payload ht _ := h.written now t key payload (mem_tables_iff.mpr (.inr ht))

end Registry.Writable

theorem Registry.writable_within [Storable α] (R : Registry α) :
    R.Writable (RowStore.within R.tables) :=
  ⟨fun _ _ _ ht => ht, fun _ _ _ _ ht _ => ht⟩

theorem Registry.writable_durably [Storable α] (R : Registry α) (tables : List Table) :
    R.Writable (RowStore.durably tables) where
  removed _ _ _ _ _ _ hcell := nomatch hcell
  written now t key payload _ := RowStore.puts_durably tables now t key payload

namespace Realms

inductive Request : Type → Type
  | create (id : Option String) (name : String) : Request Realm
  | findById (id : String) : Request (Option Realm)
  | findByName (name : String) : Request (Option Realm)
  | list : Request (List Realm)
  | update (realm : Realm) : Request Bool
  | remove (id : String) : Request Bool

def Request.perform : Request α → Work RealmCache α
  | create id name => Realms.create id name
  | findById id => Realms.findById id
  | findByName name => Realms.findByName name
  | list => liftM Realms.list
  | update realm => Realms.update realm
  | remove id => Realms.remove id

section Writes

variable (h : registry.Writable admits)
include h

theorem writes_claimName (id name : String) : Update.Writes admits (claimName id name) :=
  AttributeIndex.writes_claimUnique ((h.index scope).grants _ _) _ _ _

theorem writes_commitName (id name : String) : Update.Writes admits (commitName id name) :=
  AttributeIndex.writes_commitUnique ((h.index scope).owns _ _) _

theorem writes_insert (realm : Realm) : Update.Writes admits (insert realm) := by
  refine .bind (Update.writes_query _) fun row => .ite (.throw _) ?_
  refine .bind (writes_claimName h _ _) fun _ => ?_
  refine .bind (Update.writes_putIfAbsent (h.puts _ _)) fun put => ?_
  exact .ite (.bind (writes_commitName h _ _) fun _ => .pure realm) (.throw _)

theorem writes_replace (realm : Realm) : Update.Writes admits (replace realm) := by
  have hput : Update.Writes admits (Update.put .realms (key realm.id) realm) :=
    Update.writes_put (h.puts _ _)
  refine .bind (Update.writes_query _) fun found => ?_
  cases found with
  | none => exact .pure false
  | some previous =>
    refine .ite (.bind hput fun _ => .pure true) ?_
    refine .bind (writes_claimName h _ _) fun _ => .bind hput fun _ => ?_
    exact .bind (writes_commitName h _ _) fun _ => .pure true

theorem writes_delete (id : String) : Update.Writes admits (delete id) := by
  refine .bind (Update.writes_delete (h.clears _)) fun removed => .bind ?_ fun _ => .pure removed
  exact AttributeIndex.writes_removeAttributesOf ((h.index scope).clearable id)

theorem Request.writes (request : Request α) : Work.Writes admits request.perform := by
  have hforget : Work.Writes admits invalidate := Work.writes_modifyHeld _
  cases request with
  | create id name =>
    have hinsert : ∀ id, Work.Writes admits (do
        invalidate
        liftM (insert { id, name, enabled := true }) : Work RealmCache Realm) := fun id =>
      .bind hforget fun _ => Work.writes_update (writes_insert h _)
    cases id with
    | none => exact .bind Work.writes_newId hinsert
    | some id => exact hinsert id
  | findById id => exact Work.writes_cached _ _ _
  | findByName name => exact Work.writes_cached _ _ _
  | list => exact Work.writes_query _
  | update realm => exact .bind hforget fun _ => Work.writes_update (writes_replace h realm)
  | remove id => exact .bind hforget fun _ => Work.writes_update (writes_delete h id)

end Writes

end Realms

namespace Clients

section Writes

variable (h : registry.Writable admits)
include h

theorem writes_claimClientId (client : Client) : Update.Writes admits (claimClientId client) :=
  AttributeIndex.writes_claimUnique ((h.index _).grants _ _) _ _ _

theorem writes_commitClientId (client : Client) : Update.Writes admits (commitClientId client) :=
  AttributeIndex.writes_commitUnique ((h.index _).owns _ _) _

theorem writes_put (client : Client) : Update.Writes admits (put client) :=
  .discard (Update.writes_put (h.puts _ _))

theorem writes_putClaimed (client : Client) : Update.Writes admits (putClaimed client) := by
  refine .tryCatch (writes_put h client) fun e => .bind ?_ fun _ => .throw e
  exact AttributeIndex.writes_releaseClaim ((h.index _).grants _ _) _

theorem writes_insert (client : Client) : Update.Writes admits (insert client) := by
  refine .bind (writes_claimClientId h client) fun _ => ?_
  refine .bind (writes_putClaimed h client) fun _ => ?_
  exact .bind (writes_commitClientId h client) fun _ => .pure client

theorem writes_replace (client : Client) : Update.Writes admits (replace client) := by
  refine .bind (Update.writes_query _) fun found => ?_
  cases found with
  | none => exact .pure false
  | some previous =>
    refine .ite (.bind (writes_put h client) fun _ => .pure true) ?_
    refine .bind (writes_claimClientId h client) fun _ => ?_
    refine .bind (writes_putClaimed h client) fun _ => ?_
    exact .bind (writes_commitClientId h client) fun _ => .pure true

theorem writes_delete (r id : String) : Update.Writes admits (delete r id) := by
  refine .bind (Update.writes_delete (h.clears _)) fun removed => .bind ?_ fun _ => .pure removed
  exact AttributeIndex.writes_removeAttributesOf ((h.index r).clearable id)

theorem writes_deleteAll (r : String) : Update.Writes admits (deleteAll r) := by
  refine .bind (Update.writes_query _) fun clients => ?_
  refine .bind (AttributeIndex.writes_removeEach (h.index r).clearable clients _) fun _ => ?_
  exact .bind (Update.writes_deletePartition fun now key _ => h.clears key now) fun _ => .pure _

theorem Request.writes {r : String} (request : Request r α) :
    Work.Writes admits request.perform := by
  have hforget : Work.Writes admits invalidate := Work.writes_modifyHeld _
  have hall : Work.Writes admits (all r) := Work.writes_cached _ _ _
  cases request with
  | create clientId =>
    refine .bind hforget fun _ => .bind Work.writes_newId fun id => ?_
    exact Work.writes_update (writes_insert h _)
  | findById id => exact Work.writes_cached _ _ _
  | findByClientId clientId => exact Work.writes_cached _ _ _
  | list page => exact .bind hall fun _ => .pure _
  | search fragment page => exact .bind hall fun _ => .pure _
  | count => exact .bind hall fun _ => .pure _
  | update client _ => exact .bind hforget fun _ => Work.writes_update (writes_replace h client)
  | remove id => exact .bind hforget fun _ => Work.writes_update (writes_delete h r id)
  | removeAll => exact .bind hforget fun _ => Work.writes_update (writes_deleteAll h r)

end Writes

end Clients

namespace Users

variable {r id : String}

structure Writable (admits : Int → Table → String → Option Cell → Prop) (r id : String) : Prop where
  record : ∀ now (user : User), user.realmId = r → user.id = id →
    RowStore.Puts admits now .users (key r id).encode (Storable.payload user) none
  fields : ∀ name ∈ fields, AttributeIndex.users.Owns admits r id name none

theorem writable_of_registry (h : registry.Writable admits) (r id : String) : Writable admits r id where
  record now _ _ _ := h.puts _ _ now
  fields name _ := (h.index r).owns id name

section Writable

variable (h : Writable admits r id)
include h

theorem Writable.field (f : UniqueField) : AttributeIndex.users.Owns admits r id f.attributeName none :=
  h.fields _ (attributeName_mem f)

theorem writes_release (claims : List Claim) : Update.Writes admits (release r id claims) :=
  .forM fun c _ => .discard (AttributeIndex.writes_releaseClaim ((h.field c.1).grants c.2) id)

theorem writes_claimFrom (taken claims : List Claim) :
    Update.Writes admits (claimFrom r id taken claims) := by
  induction claims generalizing taken with
  | nil => exact .pure ()
  | cons claim claims ih =>
    obtain ⟨field, value⟩ := claim
    refine .bind (.tryCatch ?_ fun e => ?_) fun _ => ih _
    · exact AttributeIndex.writes_claimUnique ((h.field field).grants value) id _ _
    · exact .bind (writes_release h taken) fun _ => .throw e

end Writable

section Stored

variable {user : User} (h : Writable admits user.realmId user.id)
include h

theorem writes_put : Update.Writes admits (put user) :=
  .discard (Update.writes_put fun now => h.record now user rfl rfl)

theorem writes_putClaimed (claims : List Claim) : Update.Writes admits (putClaimed user claims) :=
  .tryCatch (writes_put h) fun e => .bind (writes_release h claims) fun _ => .throw e

theorem writes_commit (field : UniqueField) : Update.Writes admits (commit user field) :=
  AttributeIndex.writes_commitUnique (h.field field) _

theorem writes_insert : Update.Writes admits (insert user) := by
  refine .bind (writes_claimFrom h [] _) fun _ => ?_
  refine .bind (writes_putClaimed h _) fun _ => ?_
  exact .bind (writes_commit h .username) fun _ => .pure user

theorem writes_setIndexed {name : String} (hn : name ∈ fields) (value : Option String) :
    Update.Writes admits (setIndexed user name value) :=
  AttributeIndex.writes_setAttribute (h.fields name hn) _

theorem writes_reindex (realm : Realm) (previous : User) :
    Update.Writes admits (reindex realm previous user) := by
  have hlinks : Update.Writes admits (do
      if previous.federationLink ≠ user.federationLink then
        setIndexed user federationLinkAttribute user.federationLink
      if changed .serviceAccount previous user then commit user .serviceAccount) :=
    .optional (writes_setIndexed h (by decide) _) (.ite (writes_commit h .serviceAccount) (.pure ()))
  refine .optional (writes_commit h .username) (.ite (.ite ?_ ?_) hlinks)
  · exact .bind (writes_setIndexed h (attributeName_mem .email) _) fun _ => hlinks
  · exact .bind (writes_commit h .email) fun _ => hlinks

end Stored

theorem writes_replace (realm : Realm) (user : User) (h : Writable admits realm.id user.id) :
    Update.Writes admits (replace realm user) := by
  have hnormal : Writable admits (normalize realm user).realmId (normalize realm user).id := h
  refine .bind (Update.writes_query _) fun found => ?_
  cases found with
  | none => exact .pure false
  | some previous =>
    refine .bind (writes_claimFrom h [] _) fun _ => ?_
    refine .bind (writes_putClaimed hnormal _) fun _ => ?_
    exact .bind (writes_reindex hnormal realm previous) fun _ => .pure true

theorem writes_putAttribute {name : String}
    (h : AttributeIndex.users.Owns admits r id name none) (values : List String) :
    Update.Writes admits (putAttribute r id name values) := by
  refine .bind (Update.writes_query _) fun found => .ite (.pure false) ?_
  exact .bind (AttributeIndex.writes_setAttribute h values) fun _ => .pure true

section Writes

variable (h : registry.Writable admits)
include h

theorem writes_alter (r id : String) (change : User → Option User) :
    Update.Writes admits (alter r id change) := by
  refine .bind (Update.writes_query _) fun found => ?_
  cases found.bind change with
  | none => exact .pure false
  | some user => exact .bind (Update.writes_put (h.puts _ _)) fun _ => .pure true

theorem writes_delete (r id : String) : Update.Writes admits (delete r id) := by
  refine .bind (Update.writes_delete (h.clears _)) fun removed => .bind ?_ fun _ => .pure removed
  exact AttributeIndex.writes_removeAttributesOf ((h.index r).clearable id)

theorem writes_deleteAll (r : String) : Update.Writes admits (deleteAll r) := by
  refine .bind (Update.writes_query _) fun users => ?_
  refine .bind (AttributeIndex.writes_removeEach (h.index r).clearable users _) fun _ => ?_
  exact .bind (Update.writes_deletePartition fun now key _ => h.clears key now) fun _ => .pure _

theorem writes_modify (r id : String) (change : User → Option User) :
    Work.Writes admits (modify r id change) :=
  .bind (Work.writes_modifyHeld _) fun _ => Work.writes_update (writes_alter h r id change)

omit h in
theorem writes_refuseInternal (name : String) : Work.Writes admits (refuseInternal name) :=
  .ite (.throw _) (.pure ())

theorem Request.writes (realm : Realm) (request : Request α) :
    Work.Writes admits (request.perform realm) := by
  have hforget : Work.Writes admits invalidate := Work.writes_modifyHeld _
  have hall : Work.Writes admits (all realm.id) := Work.writes_cached _ _ _
  cases request with
  | create username =>
    refine .bind hforget fun _ => .bind Work.writes_newId fun id => ?_
    refine .bind (Work.writes_query _) fun now => ?_
    exact Work.writes_update (writes_insert (writable_of_registry h _ _))
  | findById id => exact Work.writes_cached _ _ _
  | findByUsername username => exact Work.writes_cached _ _ _
  | findByEmail email => exact Work.writes_cached _ _ _
  | findByAttribute name value => exact Work.writes_cached _ _ _
  | findByFederationLink link => exact Work.writes_query _
  | findByServiceAccountClient clientId => exact Work.writes_query _
  | list page => exact .bind hall fun _ => .pure _
  | search term page => exact .bind hall fun _ => .pure _
  | count => exact .bind hall fun _ => .pure _
  | update user =>
    refine .bind hforget fun _ => Work.writes_update ?_
    exact writes_replace realm user (writable_of_registry h _ _)
  | joinGroup | leaveGroup | grantRole | revokeRole | addRequiredAction | removeRequiredAction =>
    exact writes_modify h realm.id _ _
  | setAttribute id name values =>
    refine .bind (writes_refuseInternal name) fun _ => .bind hforget fun _ => Work.writes_update ?_
    exact writes_putAttribute ((h.index realm.id).owns id name) values
  | removeAttribute id name =>
    refine .bind (writes_refuseInternal name) fun _ => .bind hforget fun _ => Work.writes_update ?_
    exact ((h.index realm.id).owns id name).writes_removeAttribute
  | attributes id => exact Work.writes_query _
  | remove id => exact .bind hforget fun _ => Work.writes_update (writes_delete h realm.id id)
  | removeAll => exact .bind hforget fun _ => Work.writes_update (writes_deleteAll h realm.id)

end Writes

end Users

namespace Registries.Operation

variable (hrealms : Realms.registry.Writable admits) (hclients : Clients.registry.Writable admits)
  (husers : Users.registry.Writable admits)

include husers in
theorem writes_insertUser (realm : Realm) (username drawn : String) :
    Update.Writes admits (insertUser realm username drawn) :=
  .bind (Update.writes_query _) fun _ =>
    Users.writes_insert (Users.writable_of_registry husers _ _)

theorem writes_unlessInternal {name : String} {u : Update Bool} (h : Update.Writes admits u) :
    Update.Writes admits (unlessInternal name u) :=
  .ite (.throw _) h

include hrealms hclients husers in
theorem writes (op : Operation) (drawn : String) : Update.Writes admits (op.effect drawn) := by
  cases op with
  | createRealm id name => exact .discard (Realms.writes_insert hrealms _)
  | updateRealm realm => exact .discard (Realms.writes_replace hrealms realm)
  | removeRealm id => exact .discard (Realms.writes_delete hrealms id)
  | createClient realmId clientId => exact .discard (Clients.writes_insert hclients _)
  | updateClient client => exact .discard (Clients.writes_replace hclients client)
  | removeClient realmId id => exact .discard (Clients.writes_delete hclients realmId id)
  | removeClients realmId => exact .discard (Clients.writes_deleteAll hclients realmId)
  | createUser realm username => exact .discard (writes_insertUser husers realm username drawn)
  | updateUser realm user =>
    exact .discard (Users.writes_replace realm user (Users.writable_of_registry husers _ _))
  | removeUser realmId id => exact .discard (Users.writes_delete husers realmId id)
  | removeUsers realmId => exact .discard (Users.writes_deleteAll husers realmId)
  | joinGroup realmId id _ | leaveGroup realmId id _ | grantRole realmId id _
  | revokeRole realmId id _ | addRequiredAction realmId id _ | removeRequiredAction realmId id _ =>
    exact .discard (Users.writes_alter husers realmId id _)
  | setAttribute realmId id name values =>
    refine .discard (writes_unlessInternal ?_)
    exact Users.writes_putAttribute ((husers.index realmId).owns id name) values
  | removeAttribute realmId id name =>
    exact .discard (writes_unlessInternal ((husers.index realmId).owns id name).writes_removeAttribute)

end Registries.Operation

end IdentityDirectory
