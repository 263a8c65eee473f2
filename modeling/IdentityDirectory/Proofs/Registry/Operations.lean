import IdentityDirectory.Proofs.Registry.Users
import IdentityDirectory.Proofs.Work.World

/-!
The operations on realms, clients and users, what each does to the rows (`acts_effect`), and what it
asks for.
-/

namespace IdentityDirectory

namespace Work

variable {α β σ τ : Type}

/-- Work does to the rows what an update does, given the identifier that is drawn next. -/
def Acts (work : Work σ α) (u : String → Update α) : Prop :=
  ∀ d : Desk σ, ((work d).1, (work d).2.rows) = u (Identifier.hyphenated (d.draws.value d.draws.next)) d.rows

theorem acts_update (u : Update α) : Acts (liftM u : Work σ α) fun _ => u := fun _ => rfl

theorem acts_newId (u : String → Update α) :
    Acts (newId >>= fun id => liftM (u id) : Work σ α) u := fun _ => rfl

theorem Acts.after {work : Work σ α} {u : String → Update α} (h : Acts work u) (f : σ → σ) :
    Acts (modifyHeld f >>= fun _ => work) u := fun d => h { d with held := f d.held }

theorem Acts.on {work : Work τ α} {u : String → Update α} (h : Acts work u) (part : Part σ τ) :
    Acts (Work.on part work) u := fun d => h { d with held := part.get d.held }

theorem Acts.discard {work : Work σ α} {u : String → Update α} (h : Acts work u) :
    Acts (Functor.discard work) fun id => Functor.discard (u id) := by
  intro d
  have hd := h d
  cases hw : work d with
  | mk result d' =>
    rw [hw] at hd
    cases result with
    | ok a =>
      have hdiscard : Functor.discard work d = (.ok (), d') := bind_of_ok hw fun _ => pure ()
      rw [hdiscard]
      exact (Update.discard_of_ok hd.symm).symm
    | error e =>
      have hdiscard : Functor.discard work d = (.error e, d') :=
        bind_of_error hw fun _ => pure ()
      rw [hdiscard]
      exact (Update.bind_of_error hd.symm fun _ => pure ()).symm

end Work

namespace Registries

inductive Operation where
  | createRealm (id : Option String) (name : String)
  | updateRealm (realm : Realm)
  | removeRealm (id : String)
  | createClient (realmId clientId : String)
  | updateClient (client : Client)
  | removeClient (realmId id : String)
  | removeClients (realmId : String)
  | createUser (realm : Realm) (username : String)
  | updateUser (realm : Realm) (user : User)
  | removeUser (realmId id : String)
  | removeUsers (realmId : String)
  | joinGroup (realmId id groupId : String)
  | leaveGroup (realmId id groupId : String)
  | grantRole (realmId id roleId : String)
  | revokeRole (realmId id roleId : String)
  | addRequiredAction (realmId id action : String)
  | removeRequiredAction (realmId id action : String)
  | setAttribute (realmId id name : String) (values : List String)
  | removeAttribute (realmId id name : String)

namespace Operation

open UnitOfWork (realmsPart clientsPart usersPart)

def perform : Operation → Work UnitOfWork Unit
  | createRealm id name => Work.on realmsPart (discard (Realms.create id name))
  | updateRealm realm => Work.on realmsPart (discard (Realms.update realm))
  | removeRealm id => Work.on realmsPart (discard (Realms.remove id))
  | createClient realmId clientId => Work.on clientsPart (discard (Clients.create realmId clientId))
  | updateClient client => Work.on clientsPart (discard (Clients.update client))
  | removeClient realmId id => Work.on clientsPart (discard (Clients.remove realmId id))
  | removeClients realmId => Work.on clientsPart (discard (Clients.removeAll realmId))
  | createUser realm username => Work.on usersPart (discard (Users.create realm username))
  | updateUser realm user => Work.on usersPart (discard (Users.update realm user))
  | removeUser realmId id => Work.on usersPart (discard (Users.remove realmId id))
  | removeUsers realmId => Work.on usersPart (discard (Users.removeAll realmId))
  | joinGroup realmId id group => Work.on usersPart (discard (Users.joinGroup realmId id group))
  | leaveGroup realmId id group => Work.on usersPart (discard (Users.leaveGroup realmId id group))
  | grantRole realmId id role => Work.on usersPart (discard (Users.grantRole realmId id role))
  | revokeRole realmId id role => Work.on usersPart (discard (Users.revokeRole realmId id role))
  | addRequiredAction realmId id action =>
    Work.on usersPart (discard (Users.addRequiredAction realmId id action))
  | removeRequiredAction realmId id action =>
    Work.on usersPart (discard (Users.removeRequiredAction realmId id action))
  | setAttribute realmId id name values =>
    Work.on usersPart (discard (Users.setAttribute realmId id name values))
  | removeAttribute realmId id name =>
    Work.on usersPart (discard (Users.removeAttribute realmId id name))

def insertUser (realm : Realm) (username drawn : String) : Update User := do
  let now ← Query.now
  Users.insert
    { realmId := realm.id
      id := drawn
      username := Text.lowercase username
      createdTimestamp := now }

def unlessInternal (name : String) (u : Update Bool) : Update Bool :=
  if Users.isInternal name then throw (.invalidArgument (.reservedAttribute name)) else u

def effect (drawn : String) : Operation → Update Unit
  | createRealm id name => discard (Realms.insert { id := id.getD drawn, name, enabled := true })
  | updateRealm realm => discard (Realms.replace realm)
  | removeRealm id => discard (Realms.delete id)
  | createClient realmId clientId =>
    discard (Clients.insert { realmId, id := drawn, clientId, enabled := true })
  | updateClient client => discard (Clients.replace client)
  | removeClient realmId id => discard (Clients.delete realmId id)
  | removeClients realmId => discard (Clients.deleteAll realmId)
  | createUser realm username => discard (insertUser realm username drawn)
  | updateUser realm user => discard (Users.replace realm user)
  | removeUser realmId id => discard (Users.delete realmId id)
  | removeUsers realmId => discard (Users.deleteAll realmId)
  | joinGroup realmId id group =>
    discard (Users.alter realmId id (Users.withGroups (Users.added group)))
  | leaveGroup realmId id group =>
    discard (Users.alter realmId id (Users.withGroups (Users.without group)))
  | grantRole realmId id role =>
    discard (Users.alter realmId id (Users.withRoles (Users.added role)))
  | revokeRole realmId id role =>
    discard (Users.alter realmId id (Users.withRoles (Users.without role)))
  | addRequiredAction realmId id action =>
    discard (Users.alter realmId id (Users.withActions (Users.added action)))
  | removeRequiredAction realmId id action =>
    discard (Users.alter realmId id (Users.withActions (Users.without action)))
  | setAttribute realmId id name values =>
    discard (unlessInternal name (Users.putAttribute realmId id name values))
  | removeAttribute realmId id name =>
    discard (unlessInternal name (AttributeIndex.users.removeAttribute realmId id name))

theorem acts_effect (op : Operation) : Work.Acts op.perform op.effect := by
  cases op with
  | createRealm id name =>
    have hcreate : Work.Acts (Realms.create id name) fun drawn =>
        Realms.insert { id := id.getD drawn, name, enabled := true } := by
      cases id <;> exact fun _ => rfl
    exact hcreate.discard.on _
  | createClient realmId clientId => exact (((Work.acts_newId _).after _).discard).on _
  | createUser realm username =>
    have hcreate : Work.Acts (Users.create realm username) (insertUser realm username) :=
      fun _ => rfl
    exact hcreate.discard.on _
  | setAttribute realmId id name values =>
    have hset : Work.Acts (Users.setAttribute realmId id name values) fun _ =>
        unlessInternal name (Users.putAttribute realmId id name values) := by
      intro d
      rw [Users.setAttribute, Users.refuseInternal, unlessInternal]
      split <;> rfl
    exact hset.discard.on _
  | removeAttribute realmId id name =>
    have hremove : Work.Acts (Users.removeAttribute realmId id name) fun _ =>
        unlessInternal name (AttributeIndex.users.removeAttribute realmId id name) := by
      intro d
      rw [Users.removeAttribute, Users.refuseInternal, unlessInternal]
      split <;> rfl
    exact hremove.discard.on _
  | _ => exact (((Work.acts_update _).after _).discard).on _

end Operation

structure Contents where
  realms : List Realm
  clients : String → List Client
  users : String → List User

structure Stored (s : RowStore) (c : Contents) : Prop where
  realms : Query.allRecords Realm .realms s = .ok c.realms
  clients : ∀ r, Plain r → Query.records Client .clients r s = .ok (c.clients r)
  users : ∀ r, Plain r → Query.records User .users r s = .ok (c.users r)

structure Contents.Unique (c : Contents) (strict : String → Prop) : Prop where
  realms : c.realms.Pairwise fun a b => a.name ≠ b.name
  clients : ∀ r, Plain r → (c.clients r).Pairwise fun a b => a.clientId ≠ b.clientId
  usernames : ∀ r, Plain r → (c.users r).Pairwise fun a b => a.username ≠ b.username
  serviceAccounts : ∀ r, Plain r → (c.users r).Pairwise fun a b =>
    ∀ v, a.serviceAccountClientLink = some v → b.serviceAccountClientLink ≠ some v
  emails : ∀ r, Plain r → strict r → (c.users r).Pairwise fun a b =>
    ∀ v, a.email = some v → b.email ≠ some v

def Requests (realm : Realm) (previous user : User) (f : UniqueField) (value : String) : Prop :=
  f.value? previous ≠ some value ∧ f.value? (Users.normalize realm user) = some value ∧
    (f = .email → realm.duplicateEmailsAllowed = false)

namespace Operation

/-- A live record stands in the way of an operation. -/
def Contests (c : Contents) : Operation → UniqueKind → String → Prop
  | createRealm id name, kind, value =>
    kind = .realmId ∧ id = some value ∧ (∃ other ∈ c.realms, other.id = value) ∨
      kind = .realm ∧ value = name ∧ ∃ other ∈ c.realms, other.name = value
  | updateRealm realm, kind, value =>
    kind = .realm ∧ value = realm.name ∧ (∃ previous ∈ c.realms, previous.id = realm.id) ∧
      ∃ other ∈ c.realms, other.id ≠ realm.id ∧ other.name = value
  | createClient realmId clientId, kind, value =>
    kind = .client ∧ value = clientId ∧ ∃ other ∈ c.clients realmId, other.clientId = value
  | updateClient client, kind, value =>
    kind = .client ∧ value = client.clientId ∧
      (∃ previous ∈ c.clients client.realmId, previous.id = client.id) ∧
      ∃ other ∈ c.clients client.realmId, other.id ≠ client.id ∧ other.clientId = value
  | createUser realm username, kind, value =>
    kind = .user ∧ value = Text.lowercase username ∧
      ∃ other ∈ c.users realm.id, other.username = value
  | updateUser realm user, kind, value =>
    ∃ previous ∈ c.users realm.id, previous.id = user.id ∧
      ∃ f : UniqueField, kind = f.kind ∧ Requests realm previous user f value ∧
        ∃ other ∈ c.users realm.id, other.id ≠ user.id ∧ f.value? other = some value
  | _, _, _ => False

/-- Keys can be told apart, values can be indexed, and a drawn identifier is that of no live record. -/
def Valid (s : RowStore) (drawn : String) : Operation → Prop
  | createRealm id name =>
    NulFree name ∧ (∀ i ∈ id, Plain i) ∧ (id = none → Realms.load drawn s = .ok none)
  | updateRealm realm => Plain realm.id ∧ NulFree realm.name
  | removeRealm _ => True
  | createClient realmId clientId =>
    Plain realmId ∧ NulFree clientId ∧ Clients.load realmId drawn s = .ok none
  | updateClient client => Plain client.realmId ∧ NulFree client.clientId
  | createUser realm username =>
    Plain realm.id ∧ NulFree (Text.lowercase username) ∧ Users.load realm.id drawn s = .ok none
  | updateUser realm user => Plain realm.id ∧ Users.Indexable (Users.normalize realm user)
  | removeClient r _ | removeClients r | removeUser r _ | removeUsers r | joinGroup r _ _
  | leaveGroup r _ _ | grantRole r _ _ | revokeRole r _ _ | addRequiredAction r _ _
  | removeRequiredAction r _ _ | setAttribute r _ _ _ | removeAttribute r _ _ => Plain r

instance (s : RowStore) (drawn : String) : (op : Operation) → Decidable (op.Valid s drawn)
  | createRealm .. | createClient .. | createUser .. => inferInstanceAs (Decidable (_ ∧ _ ∧ _))
  | updateRealm _ | updateClient _ | updateUser .. => inferInstanceAs (Decidable (_ ∧ _))
  | removeRealm _ => inferInstanceAs (Decidable True)
  | removeClient r _ | removeClients r | removeUser r _ | removeUsers r | joinGroup r _ _
  | leaveGroup r _ _ | grantRole r _ _ | revokeRole r _ _ | addRequiredAction r _ _
  | removeRequiredAction r _ _ | setAttribute r _ _ _ | removeAttribute r _ _ =>
    inferInstanceAs (Decidable (Plain r))

def Strict (r : String) : Operation → Prop
  | updateUser realm _ => realm.id = r → realm.duplicateEmailsAllowed = false
  | _ => True

instance (r : String) : (op : Operation) → Decidable (op.Strict r)
  | updateUser realm _ =>
    inferInstanceAs (Decidable (realm.id = r → realm.duplicateEmailsAllowed = false))
  | createRealm .. | updateRealm _ | removeRealm _ | createClient .. | updateClient _
  | removeClient .. | removeClients _ | createUser .. | removeUser .. | removeUsers _
  | joinGroup .. | leaveGroup .. | grantRole .. | revokeRole .. | addRequiredAction ..
  | removeRequiredAction .. | setAttribute .. | removeAttribute .. =>
    inferInstanceAs (Decidable True)

def Reserved : Operation → Prop
  | setAttribute _ _ name _ | removeAttribute _ _ name => Users.isInternal name
  | _ => False

end Operation

end Registries

end IdentityDirectory
