import IdentityDirectory.Proofs.Isolation.Accesses
import IdentityDirectory.User.Repository

/-! Users of one realm: what is asked and changed there stays there. -/

namespace IdentityDirectory.Users

open AttributeIndex

variable {b : String} {α : Type} {user : User}

theorem users_ne_realms : AttributeIndex.users ≠ .realms := by decide

theorem local_load (id : String) : Query.Local b (load b id) :=
  Query.local_record rfl (RowKey.ofRealm b id)

theorem local_resolve (ids : List String) : Query.Local b (resolve b ids) :=
  .bind (.mapM fun id _ => local_load id) fun _ => .pure _

theorem local_holds (field : UniqueField) (value owner : String) :
    Query.Local b (holds b field value owner) :=
  .bind (local_load owner) fun _ => .pure _

theorem isolated_release (id : String) (claims : List Claim) :
    Update.Isolated b (release b id claims) :=
  .forM fun _ _ => .discard (isolated_releaseClaim users_ne_realms _ _ _)

theorem isolated_claimFrom (id : String) (taken claims : List Claim) :
    Update.Isolated b (claimFrom b id taken claims) := by
  induction claims generalizing taken with
  | nil => exact .pure ()
  | cons claim claims ih =>
    obtain ⟨field, value⟩ := claim
    refine .bind (.tryCatch ?_ fun e => ?_) fun _ => ih _
    · exact isolated_claimUnique users_ne_realms _ _ _ _ _ fun owner => local_holds field value owner
    · exact .bind (isolated_release id taken) fun _ => .throw e

theorem isolated_put (h : user.realmId = b) : Update.Isolated b (put user) := by
  subst h
  exact .discard (Update.isolated_put rfl (RowKey.ofRealm _ _) user none)

theorem isolated_putClaimed (h : user.realmId = b) (claims : List Claim) :
    Update.Isolated b (putClaimed user claims) := by
  refine .tryCatch (isolated_put h) fun e => ?_
  subst h
  exact .bind (isolated_release user.id claims) fun _ => .throw e

theorem isolated_commit (h : user.realmId = b) (field : UniqueField) :
    Update.Isolated b (commit user field) := by
  subst h
  exact isolated_commitUnique users_ne_realms _ _ _ none

theorem isolated_insert (h : user.realmId = b) : Update.Isolated b (insert user) := by
  have hclaim : Update.Isolated b (claimAll user.realmId user.id [(.username, user.username)]) :=
    h ▸ isolated_claimFrom user.id [] _
  refine .bind hclaim fun _ => ?_
  refine .bind (isolated_putClaimed h _) fun _ => ?_
  exact .bind (isolated_commit h .username) fun _ => .pure user

theorem isolated_setIndexed (h : user.realmId = b) (name : String) (value : Option String) :
    Update.Isolated b (setIndexed user name value) := by
  subst h
  exact isolated_setAttribute users_ne_realms user.id name value.toList none

theorem isolated_reindex (h : user.realmId = b) (realm : Realm) (previous : User) :
    Update.Isolated b (reindex realm previous user) := by
  have hlinks : Update.Isolated b (do
      if previous.federationLink ≠ user.federationLink then
        setIndexed user federationLinkAttribute user.federationLink
      if changed .serviceAccount previous user then commit user .serviceAccount) :=
    .optional (isolated_setIndexed h _ _) (.ite (isolated_commit h .serviceAccount) (.pure ()))
  refine .optional (isolated_commit h .username) (.ite (.ite ?_ ?_) hlinks)
  · exact .bind (isolated_setIndexed h _ _) fun _ => hlinks
  · exact .bind (isolated_commit h .email) fun _ => hlinks

theorem isolated_replace (realm : Realm) (user : User) :
    Update.Isolated realm.id (replace realm user) := by
  refine .bind (local_load user.id).update fun found => ?_
  cases found with
  | none => exact .pure false
  | some previous =>
    have hrealm : (normalize realm user).realmId = realm.id := rfl
    refine .bind (isolated_claimFrom _ [] _) fun _ => ?_
    refine .bind (isolated_putClaimed hrealm _) fun _ => ?_
    exact .bind (isolated_reindex hrealm realm previous) fun _ => .pure true

theorem isolated_alter (id : String) (change : User → Option User) :
    Update.Isolated b (alter b id change) := by
  refine .bind (local_load id).update fun found => ?_
  cases found.bind change with
  | none => exact .pure false
  | some user =>
    exact .bind (Update.isolated_put rfl (RowKey.ofRealm b id) user none) fun _ => .pure true

theorem isolated_putAttribute (id name : String) (values : List String) :
    Update.Isolated b (putAttribute b id name values) := by
  refine .bind (local_load id).update fun found => ?_
  split
  · exact .pure false
  · exact .bind (isolated_setAttribute users_ne_realms id name values none) fun _ => .pure true

theorem isolated_delete (id : String) : Update.Isolated b (delete b id) := by
  refine .bind (Update.isolated_delete rfl (RowKey.ofRealm b id)) fun removed => ?_
  exact .bind (isolated_removeAttributesOf users_ne_realms id) fun _ => .pure removed

theorem isolated_deleteAll : Update.Isolated b (deleteAll b) := by
  refine .bind (Query.local_records rfl owned_lead).update fun users => ?_
  refine .bind (.forM fun u _ => .discard (isolated_removeAttributesOf users_ne_realms u.id)) ?_
  intro _
  exact .bind (Update.isolated_deletePartition rfl owned_lead) fun _ => .pure users.length

theorem local_loadByUsername (username : String) : Query.Local b (loadByUsername b username) := by
  refine .bind (local_findUnique users_ne_realms _ _) fun owner => ?_
  cases owner with
  | none => exact .pure none
  | some id => exact .bind (local_load id) fun _ => .pure _

theorem local_loadByEmail (realm : Realm) (email : String) :
    Query.Local realm.id (loadByEmail realm email) := by
  rw [loadByEmail]
  split
  · refine .bind (local_findBy users_ne_realms _ _) fun owners => ?_
    refine .bind (local_resolve owners) fun users => ?_
    split <;> exact .pure _
  · refine .bind (.map (local_findUnique users_ne_realms _ _) _) fun owners => ?_
    refine .bind (local_resolve owners) fun users => ?_
    split <;> exact .pure _

theorem local_loadByAttribute (name value : String) :
    Query.Local b (loadByAttribute b name value) :=
  .bind (local_findBy users_ne_realms name value) fun ids => local_resolve ids

theorem local_loadAll : Query.Local b (loadAll b) :=
  .bind (Query.local_records rfl owned_lead) fun _ => .pure _

theorem local_findByServiceAccountClient (clientId : String) :
    Query.Local b (findByServiceAccountClient b clientId) := by
  refine .bind (local_findUnique users_ne_realms _ _) fun owner => ?_
  cases owner with
  | none => exact .pure none
  | some id => exact local_load id

theorem local_attributes (id : String) : Query.Local b (attributes b id) :=
  .bind (local_attributesOf users_ne_realms id) fun _ => .pure _

inductive Request : Type → Type
  | create (username : String) : Request User
  | findById (id : String) : Request (Option User)
  | findByUsername (username : String) : Request (Option User)
  | findByEmail (email : String) : Request (Option User)
  | findByAttribute (name value : String) : Request (List User)
  | findByFederationLink (link : String) : Request (List User)
  | findByServiceAccountClient (clientId : String) : Request (Option User)
  | list (page : Page) : Request (List User)
  | search (term : String) (page : Page) : Request (List User)
  | count : Request Nat
  | update (user : User) : Request Bool
  | joinGroup (id groupId : String) : Request Bool
  | leaveGroup (id groupId : String) : Request Bool
  | grantRole (id roleId : String) : Request Bool
  | revokeRole (id roleId : String) : Request Bool
  | addRequiredAction (id action : String) : Request Bool
  | removeRequiredAction (id action : String) : Request Bool
  | setAttribute (id name : String) (values : List String) : Request Bool
  | removeAttribute (id name : String) : Request Bool
  | attributes (id : String) : Request (StringMap (List String))
  | remove (id : String) : Request Bool
  | removeAll : Request Nat

def Request.perform (realm : Realm) : Request α → Work UserCache α
  | create username => Users.create realm username
  | findById id => Users.findById realm.id id
  | findByUsername username => Users.findByUsername realm.id username
  | findByEmail email => Users.findByEmail realm email
  | findByAttribute name value => Users.findByAttribute realm.id name value
  | findByFederationLink link => liftM (Users.findByFederationLink realm.id link)
  | findByServiceAccountClient clientId => liftM (Users.findByServiceAccountClient realm.id clientId)
  | list page => Users.list realm.id page
  | search term page => Users.search realm.id term page
  | count => Users.count realm.id
  | update user => Users.update realm user
  | joinGroup id groupId => Users.joinGroup realm.id id groupId
  | leaveGroup id groupId => Users.leaveGroup realm.id id groupId
  | grantRole id roleId => Users.grantRole realm.id id roleId
  | revokeRole id roleId => Users.revokeRole realm.id id roleId
  | addRequiredAction id action => Users.addRequiredAction realm.id id action
  | removeRequiredAction id action => Users.removeRequiredAction realm.id id action
  | setAttribute id name values => Users.setAttribute realm.id id name values
  | removeAttribute id name => Users.removeAttribute realm.id id name
  | attributes id => liftM (Users.attributes realm.id id)
  | remove id => Users.remove realm.id id
  | removeAll => Users.removeAll realm.id

theorem isolated_invalidate : Work.Isolated b (fun _ => True) invalidate :=
  .modifyHeld fun _ _ => trivial

theorem isolated_modify (id : String) (change : User → Option User) :
    Work.Isolated b (fun _ => True) (modify b id change) :=
  .bind isolated_invalidate fun _ => (isolated_alter id change).work

theorem isolated_all : Work.Isolated b (fun _ => True) (all b) := .cached _ local_loadAll

theorem isolated_refuseInternal (name : String) :
    Work.Isolated b (fun _ => True) (refuseInternal name) := by
  rw [refuseInternal]
  split
  · exact .throw _
  · exact .pure ()

theorem Request.isolated (realm : Realm) (request : Request α) :
    Work.Isolated realm.id (fun _ => True) (request.perform realm) := by
  cases request with
  | create username =>
    refine .bind isolated_invalidate fun _ => .bind Work.Isolated.newId fun id => ?_
    exact .bind Query.Local.now.work fun now => Update.Isolated.work (isolated_insert rfl)
  | findById id => exact .cached _ (local_load id)
  | findByUsername username => exact .cached _ (local_loadByUsername _)
  | findByEmail email => exact .cached _ (local_loadByEmail realm _)
  | findByAttribute name value => exact .cached _ (local_loadByAttribute name value)
  | findByFederationLink link => exact (local_loadByAttribute _ link).work
  | findByServiceAccountClient clientId => exact (local_findByServiceAccountClient clientId).work
  | list page => exact .bind isolated_all fun _ => .pure _
  | search term page => exact .bind isolated_all fun _ => .pure _
  | count => exact .bind isolated_all fun _ => .pure _
  | update user => exact .bind isolated_invalidate fun _ => (isolated_replace realm user).work
  | joinGroup id groupId => exact isolated_modify id _
  | leaveGroup id groupId => exact isolated_modify id _
  | grantRole id roleId => exact isolated_modify id _
  | revokeRole id roleId => exact isolated_modify id _
  | addRequiredAction id action => exact isolated_modify id _
  | removeRequiredAction id action => exact isolated_modify id _
  | setAttribute id name values =>
    refine .bind (isolated_refuseInternal name) fun _ => .bind isolated_invalidate fun _ => ?_
    exact (isolated_putAttribute id name values).work
  | removeAttribute id name =>
    refine .bind (isolated_refuseInternal name) fun _ => .bind isolated_invalidate fun _ => ?_
    exact (isolated_removeAttribute users_ne_realms id name).work
  | attributes id => exact (local_attributes id).work
  | remove id => exact .bind isolated_invalidate fun _ => (isolated_delete id).work
  | removeAll => exact .bind isolated_invalidate fun _ => isolated_deleteAll.work

end IdentityDirectory.Users
