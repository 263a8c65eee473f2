import IdentityDirectory.Proofs.Container.Prefix
import IdentityDirectory.Proofs.Container.Refusals
import IdentityDirectory.Proofs.Directory.Standalone
import IdentityDirectory.Proofs.Isolation.Tenants
import IdentityDirectory.Proofs.Login.Redemption
import IdentityDirectory.Proofs.Registry.Footprint
import IdentityDirectory.Proofs.Session.Footprint

/-!
Two units of work over the same rows, of which the first holds containers that the second would load
as they are. Nothing that either can be asked tells them apart, or has them grow apart, but for what
goes by which changed containers are held: `pendingWrites`, `flush` and `commit`. Main statement:
`Call.follows`.
-/

namespace IdentityDirectory

variable {α τ : Type} {k : ContainerKind} {s s' : RowStore}

open RowStore (OnlyIn within)

theorem Tokens.Operation.writes {admits : Int → Table → String → Option Cell → Prop}
    (h : RowStore.Allows admits .singleUseObjects) (operation : Tokens.Operation) :
    Update.Writes admits operation.perform := by
  obtain ⟨hput, hputIfAbsent, hreplace, hredeem⟩ := operations_writes h operation.key
  cases operation with
  | put key lifespan notes => exact .bind (hput lifespan notes) fun _ => .pure _
  | putIfAbsent key lifespan => exact .bind (hputIfAbsent lifespan) fun _ => .pure _
  | replace key notes => exact .bind (hreplace notes) fun _ => .pure _
  | get key | contains key => exact .bind (Update.writes_query _) fun _ => .pure _
  | redeem key => exact .bind hredeem fun _ => .pure _

namespace UnitOfWork

variable {d d' d'' : Desk UnitOfWork}

structure SameMemory (u u' : UnitOfWork) : Prop where
  realms : u.realms = u'.realms
  clients : u.clients = u'.clients
  users : u.users = u'.users
  userSessions : u.userSessions = u'.userSessions

theorem SameMemory.trans {u u' u'' : UnitOfWork} (h : SameMemory u u') (h' : SameMemory u' u'') :
    SameMemory u u'' :=
  ⟨h.realms.trans h'.realms, h.clients.trans h'.clients, h.users.trans h'.users,
    h.userSessions.trans h'.userSessions⟩

theorem SameMemory.set {u u' : UnitOfWork} (h : SameMemory u u')
    (c c' : Coordinator (Container k)) : SameMemory ((part k).set c u) ((part k).set c' u') := by
  cases k <;> exact ⟨h.realms, h.clients, h.users, h.userSessions⟩

/-- Two units of work over the same rows, of which the first maybe holds containers that the second
would load as they are. -/
structure Ahead (d d' : Desk UnitOfWork) : Prop where
  rows : d.rows = d'.rows
  draws : d.draws = d'.draws
  containers : ∀ k, Coordinator.Ahead d.rows (d.held.coordinator k) (d'.held.coordinator k)
  memory : SameMemory d.held d'.held

def ahead : Boundary (Desk UnitOfWork) where
  shared := Ahead
  spared _ _ := True
  refl _ := trivial
  trans _ _ := trivial

theorem Ahead.refl (d : Desk UnitOfWork) : Ahead d d :=
  ⟨rfl, rfl, fun _ => .refl _ _, rfl, rfl, rfl, rfl⟩

theorem Ahead.trans (h : Ahead d d') (h' : Ahead d' d'') : Ahead d d'' where
  rows := h.rows.trans h'.rows
  draws := h.draws.trans h'.draws
  containers k := (h.containers k).trans (h.rows ▸ h'.containers k)
  memory := h.memory.trans h'.memory

/-- Nothing is to be written back that only the first holds. -/
def Even (u u' : UnitOfWork) : Prop := ∀ k, Coordinator.Even (u.coordinator k) (u'.coordinator k)

instance {P : ContainerKind → Prop} [DecidablePred P] : Decidable (∀ k, P k) :=
  decidable_of_iff (∀ k ∈ allKinds, P k) ⟨fun h k => h k (mem_allKinds k), fun h k _ => h k⟩

instance (u u' : UnitOfWork) : Decidable (Even u u') :=
  inferInstanceAs (Decidable (∀ k, Coordinator.Even (u.coordinator k) (u'.coordinator k)))

structure Apart (part : Part UnitOfWork τ) : Prop where
  get : ∀ {u u'}, SameMemory u u' → part.get u = part.get u'
  set : ∀ t {u u'}, SameMemory u u' → SameMemory (part.set t u) (part.set t u')
  coordinator : ∀ t u k, (part.set t u).coordinator k = u.coordinator k

theorem apart_realms : Apart realmsPart where
  get h := h.realms
  set _ _ _ h := ⟨rfl, h.clients, h.users, h.userSessions⟩
  coordinator _ _ k := by cases k <;> rfl

theorem apart_clients : Apart clientsPart where
  get h := h.clients
  set _ _ _ h := ⟨h.realms, rfl, h.users, h.userSessions⟩
  coordinator _ _ k := by cases k <;> rfl

theorem apart_users : Apart usersPart where
  get h := h.users
  set _ _ _ h := ⟨h.realms, h.clients, rfl, h.userSessions⟩
  coordinator _ _ k := by cases k <;> rfl

theorem apart_userSessions : Apart userSessionsPart where
  get h := h.userSessions
  set _ _ _ h := ⟨h.realms, h.clients, h.users, rfl⟩
  coordinator _ _ k := by cases k <;> rfl

theorem apart_nothing : Apart nothing where
  get _ := rfl
  set _ _ _ h := h
  coordinator _ _ _ := rfl

theorem stored_of_onlyIn {tables : List Table} (h : OnlyIn tables s s') (hk : k.table ∉ tables)
    (t : String) : (Coordinator.stored t s' : Except StoreError (Loaded (Container k))) =
      Coordinator.stored t s :=
  Coordinator.stored_congr h.now (by rw [h.table _ hk])

theorem ahead_apart {part : Part UnitOfWork τ} (hpart : Apart part) {work : Work τ α}
    {tables : List Table} (hwork : Work.Writes (within tables) work)
    (hne : ∀ k : ContainerKind, k.table ∉ tables) : ahead.Isolates (Work.on part work) := by
  rintro ⟨rows, draws, u⟩ ⟨-, -, u'⟩ ⟨rfl, rfl, hcontainers, hmemory⟩
  have honly := (hwork.wrote ⟨rows, draws, part.get u⟩).onlyIn_within
  cases hw : work ⟨rows, draws, part.get u⟩ with
  | mk result e =>
    obtain ⟨s, draws', t⟩ := e
    rw [hw] at honly
    have hw' : work ⟨rows, draws, part.get u'⟩ = (result, ⟨s, draws', t⟩) := by
      rw [← hpart.get hmemory, hw]
    rw [Work.on_of_eq part hw, Work.on_of_eq part hw']
    refine ⟨rfl, ⟨rfl, rfl, fun k => ?_, hpart.set t hmemory⟩, trivial⟩
    rw [hpart.coordinator, hpart.coordinator]
    exact (hcontainers k).at_rows fun t _ _ => stored_of_onlyIn honly (hne k) t

theorem ahead_update {u : Update α} {tables : List Table} (hu : Update.Writes (within tables) u)
    (hne : ∀ k : ContainerKind, k.table ∉ tables) :
    ahead.Isolates (liftM u : Work UnitOfWork α) := by
  have hon : ahead.Isolates (Work.on nothing (liftM u)) :=
    ahead_apart apart_nothing (Work.writes_update hu) hne
  exact hon

theorem Ahead.set (h : Ahead d d') {c c' : Coordinator (Container k)} (draws : Draws)
    (hc : Coordinator.Ahead s c c') (honly : OnlyIn [k.table] d.rows s) :
    Ahead ⟨s, draws, (part k).set c d.held⟩ ⟨s, draws, (part k).set c' d'.held⟩ where
  rows := rfl
  draws := rfl
  containers j := by
    by_cases hj : j = k
    · subst hj
      rw [coordinator_set, coordinator_set]
      exact hc
    · rw [coordinator_set_of_ne hj, coordinator_set_of_ne hj]
      have hne : j.table ∉ [k.table] := by simpa using ContainerKind.table_ne hj
      exact (h.containers j).at_rows fun t _ _ => stored_of_onlyIn honly hne t
  memory := h.memory.set c c'

theorem follows_container {work : Work (Coordinator (Container k)) α}
    (hwrites : Work.Writes (within [k.table]) work) (h : Ahead d d')
    (hwork : (Coordinator.ahead k).Follows work { d with held := d.held.coordinator k }
      { d' with held := d'.held.coordinator k }) :
    ahead.Follows (Work.on (part k) work) d d' := by
  have honly := (hwrites.wrote { d with held := d.held.coordinator k }).onlyIn_within
  obtain ⟨hresult, hrows, hdraws, hahead⟩ := hwork
  cases hw : work { d with held := d.held.coordinator k } with
  | mk result e =>
    cases hw' : work { d' with held := d'.held.coordinator k } with
    | mk result' e' =>
      rw [hw] at honly
      rw [hw, hw'] at hresult hrows hdraws hahead
      obtain ⟨s, draws, c⟩ := e
      obtain ⟨s', draws', c'⟩ := e'
      obtain rfl : result = result' := hresult
      obtain rfl : s = s' := hrows
      obtain rfl : draws = draws' := hdraws
      rw [Boundary.Follows, Work.on_of_eq (part k) hw, Work.on_of_eq (part k) hw']
      exact ⟨rfl, h.set draws hahead honly⟩

theorem ahead_container {work : Work (Coordinator (Container k)) α}
    (hwrites : Work.Writes (within [k.table]) work) (hwork : (Coordinator.ahead k).Isolates work) :
    ahead.Isolates (Work.on (part k) work) := by
  intro d d' h
  obtain ⟨hresult, hshared⟩ :=
    follows_container hwrites h (hwork.follows ⟨h.rows, h.draws, h.containers k⟩)
  exact ⟨hresult, hshared, trivial⟩

theorem ahead_editing {work : Work (Coordinator (Container k)) α}
    (h : Coordinator.Editing work) : ahead.Isolates (Work.on (part k) work) :=
  ahead_container h.writes h.isolates

theorem follows_request (request : Coordinator.Request k α) (tenant : String) (h : Ahead d d')
    (heven : request.settles = true →
      Coordinator.Even (d.held.coordinator k) (d'.held.coordinator k)) :
    ahead.Follows (Work.on (part k) (request.perform tenant)) d d' :=
  follows_container (request.writes (RowStore.allows_within (List.mem_singleton_self _)) tenant) h
    (request.follows tenant ⟨h.rows, h.draws, h.containers k⟩ heven)

theorem ahead_delete (k : ContainerKind) (tenant : String) :
    ahead.Isolates (Work.on (part k) (Coordinator.delete tenant)) :=
  ahead_container (Coordinator.writes_delete fun _ => List.mem_singleton_self _)
    (Coordinator.isolates_delete tenant)

theorem ahead_closing (k : ContainerKind) :
    ahead.Isolates (liftM (closing (part k)) : Work UnitOfWork Unit) := by
  rintro ⟨rows, draws, u⟩ ⟨-, -, u'⟩ ⟨rfl, rfl, hcontainers, hmemory⟩
  have h : Ahead ⟨rows, draws, u⟩ ⟨rows, draws, u'⟩ := ⟨rfl, rfl, hcontainers, hmemory⟩
  exact ⟨rfl, h.set draws (hcontainers k).closed (.refl _ _), trivial⟩

def settling : Boundary (Desk UnitOfWork) where
  shared d d' := Ahead d d' ∧ Even d.held d'.held
  spared _ _ := True
  refl _ := trivial
  trans _ _ := trivial

theorem Even.close {u u' : UnitOfWork} (h : Even u u') (c : Coordinator (Container k))
    (c' : Coordinator (Container k)) : Even ((part k).set c.closed u) ((part k).set c' u') := by
  intro j
  by_cases hj : j = k
  · subst hj
    rw [coordinator_set, coordinator_set]
    intro t ht
    cases ht
  · rw [coordinator_set_of_ne hj, coordinator_set_of_ne hj]
    exact h j

theorem settling_closing (k : ContainerKind) :
    settling.Isolates (liftM (closing (part k)) : Work UnitOfWork Unit) := by
  rintro d d' ⟨h, heven⟩
  obtain ⟨hresult, hshared, -⟩ := ahead_closing k d d' h
  exact ⟨hresult, ⟨hshared, heven.close _ _⟩, trivial⟩

theorem settling_completing (k : ContainerKind) : settling.Isolates (completing (part k)) := by
  rintro d d' ⟨h, heven⟩
  have hflush : ahead.Follows (Work.on (part k) Coordinator.flush) d d' :=
    follows_request .flush "" h fun _ => heven k
  obtain ⟨hresult, hflushed⟩ := hflush
  obtain ⟨-, hclosed, -⟩ := ahead_closing k _ _ hflushed
  refine ⟨congrArg (Except.map fun _ => ()) hresult, ⟨hclosed, fun j => ?_⟩, trivial⟩
  rw [coordinator_completing, coordinator_completing]
  split
  · intro t ht
    cases ht
  · exact heven j

theorem follows_commit (h : Ahead d d') (heven : Even d.held d'.held) :
    ahead.Follows commit d d' := by
  have hcommit := isolates_commit_of settling_completing settling_closing
  obtain ⟨hresult, ⟨hshared, -⟩, -⟩ := hcommit d d' ⟨h, heven⟩
  exact ⟨hresult, hshared⟩

theorem table_notMem {tables : List Table} (h : .realmRoles ∉ tables ∧ .realmGroups ∉ tables ∧
    .realmClientScopes ∉ tables) (k : ContainerKind) : k.table ∉ tables := by
  cases k
  · exact h.1
  · exact h.2.1
  · exact h.2.2

theorem ahead_realms (request : Realms.Request α) :
    ahead.Isolates (Work.on realmsPart request.perform) :=
  ahead_apart apart_realms (request.writes (Registry.writable_within _))
    (table_notMem (by decide))

theorem ahead_clients {r : String} (request : Clients.Request r α) :
    ahead.Isolates (Work.on clientsPart request.perform) :=
  ahead_apart apart_clients (request.writes (Registry.writable_within _))
    (table_notMem (by decide))

theorem ahead_users (realm : Realm) (request : Users.Request α) :
    ahead.Isolates (Work.on usersPart (request.perform realm)) :=
  ahead_apart apart_users (request.writes (Registry.writable_within _) realm)
    (table_notMem (by decide))

theorem ahead_sessions {work : Work SessionCache α}
    (h : Work.Writes (within UserSessions.sessionTables) work) :
    ahead.Isolates (Work.on userSessionsPart work) :=
  ahead_apart apart_userSessions h (table_notMem (by decide))

theorem ahead_deletePartition {t : Table} (ht : ∀ k : ContainerKind, k.table ∉ [t])
    (r : String) : ahead.Isolates (liftM (Update.deletePartition t r) : Work UnitOfWork Nat) :=
  ahead_update (Update.writes_deletePartition fun _ _ _ => List.mem_singleton_self t) ht

theorem ahead_removeRealm (r : String) : ahead.Isolates (removeRealm r) := by
  refine .bind (ahead_realms (.findById r)) fun found => ?_
  cases found with
  | none => exact .pure false
  | some realm =>
    refine .bind (ahead_sessions (UserSessions.heldIndependent_removeAll r).writes) fun _ => ?_
    refine .bind (ahead_deletePartition (table_notMem (by decide)) r) fun _ => ?_
    refine .bind (ahead_deletePartition (table_notMem (by decide)) r) fun _ => ?_
    refine .bind (ahead_users { id := r } .removeAll) fun _ => ?_
    refine .bind (ahead_clients (r := r) .removeAll) fun _ => ?_
    refine .bind (ahead_delete .roles r) fun _ => ?_
    refine .bind (ahead_delete .groups r) fun _ => ?_
    refine .bind (ahead_delete .clientScopes r) fun _ => ?_
    exact .bind (ahead_realms (.remove r)) fun _ => .pure true

theorem ahead_removeClient (realm : Realm) (id : String) :
    ahead.Isolates (removeClient realm id) := by
  refine .bind (ahead_clients (r := realm.id) (.findById id)) fun found => ?_
  cases found with
  | none => exact .pure false
  | some client =>
    refine .bind (ahead_editing (k := .roles) (.update realm.id _)) fun _ => ?_
    refine .bind (ahead_sessions ?_) fun _ => ahead_clients (r := realm.id) (.remove id)
    exact (UserSessions.heldIndependent_detachClientEverywhere realm id).writes

theorem ahead_failures (realmId : String) (request : LoginFailures.Request α) :
    ahead.Isolates (liftM (request.perform realmId) : Work UnitOfWork α) :=
  ahead_update (request.writes (RowStore.allows_within (List.mem_singleton_self _)) realmId)
    (table_notMem (by decide))

theorem ahead_removeUser (realmId id : String) : ahead.Isolates (removeUser realmId id) := by
  refine .bind (ahead_sessions (UserSessions.heldIndependent_removeByUser realmId id).writes) fun _ => ?_
  refine .bind (ahead_failures realmId (.remove id)) fun _ => ?_
  exact ahead_users { id := realmId } (.remove id)

theorem ahead_userHasRole (realmId : String) (user : User) (roleId : String) :
    ahead.Isolates (userHasRole realmId user roleId) := by
  refine .bind (ahead_editing (k := .groups) (.read realmId _)) fun inherited => ?_
  exact ahead_editing (k := .roles) (.read realmId _)

/-- The operations on roles, groups and client scopes that may refuse. A change of a container that
callers bring themselves is none of them: nothing but what is asked of callers keeps it from changing
the container before it refuses. -/
def Request.canRefuse {realm : Realm} : Request realm α → Bool
  | .roles request => request.canRefuse
  | .groups request => request.canRefuse
  | .clientScopes request => request.canRefuse
  | _ => false

def Request.inPlace? {realm : Realm} : Request realm α → Option (Work UnitOfWork α)
  | .roles request => (request.inPlace? realm.id).map (Work.on rolesPart)
  | .groups request => (request.inPlace? realm.id).map (Work.on groupsPart)
  | .clientScopes request => (request.inPlace? realm.id).map (Work.on clientScopesPart)
  | _ => none

theorem Request.inPlace?_eq {realm : Realm} {request : Request realm α}
    (h : request.canRefuse = true) : request.inPlace? = some request.perform := by
  cases request with
  | roles request =>
    exact congrArg (Option.map (Work.on rolesPart)) (request.inPlace?_eq realm.id h)
  | groups request =>
    exact congrArg (Option.map (Work.on groupsPart)) (request.inPlace?_eq realm.id h)
  | clientScopes request =>
    exact congrArg (Option.map (Work.on clientScopesPart)) (request.inPlace?_eq realm.id h)
  | _ => cases h

def Request.EvenFor {realm : Realm} (u u' : UnitOfWork) : Request realm α → Prop
  | .container k request =>
    request.settles = true → Coordinator.Even (u.coordinator k) (u'.coordinator k)
  | _ => True

instance {realm : Realm} (u u' : UnitOfWork) :
    (request : Request realm α) → Decidable (request.EvenFor u u')
  | .container k request => inferInstanceAs (Decidable
      (request.settles = true → Coordinator.Even (u.coordinator k) (u'.coordinator k)))
  | .users _ | .clients _ | .userSessions _ | .loginAttempts _ | .loginFailures _ | .roles _
  | .groups _ | .clientScopes _ => inferInstanceAs (Decidable True)

theorem Request.follows {realm : Realm} (request : Request realm α) (h : Ahead d d')
    (heven : request.EvenFor d.held d'.held) : ahead.Follows request.perform d d' := by
  cases request with unfold Request.perform
  | users request => exact (ahead_users realm request).follows h
  | clients request => exact (ahead_clients request).follows h
  | userSessions request => exact (ahead_sessions (request.writes realm)).follows h
  | loginAttempts request =>
    have hwrites := request.writes (RowStore.allows_within (List.mem_singleton_self _)) realm
    exact (ahead_apart apart_nothing hwrites (table_notMem (by decide))).follows h
  | loginFailures request => exact (ahead_failures realm.id request).follows h
  | roles request => exact (ahead_editing (k := .roles) (request.editing realm.id)).follows h
  | groups request => exact (ahead_editing (k := .groups) (request.editing realm.id)).follows h
  | clientScopes request =>
    exact (ahead_editing (k := .clientScopes) (request.editing realm.id)).follows h
  | container k request => exact follows_request request realm.id h heven

inductive Call : Type → Type 1
  | ask {α : Type} {realm : Realm} (request : Request realm α) : Call α
  | realms {α : Type} (request : Realms.Request α) : Call α
  | tokens (operation : Tokens.Operation) : Call Tokens.Answer
  | removeRealm (realmId : String) : Call Bool
  | removeClient (realm : Realm) (id : String) : Call Bool
  | removeUser (realmId id : String) : Call Bool
  | userGroups (realmId : String) (user : User) : Call (List Group)
  | userRoleMappings (realmId : String) (user : User) : Call (List Role)
  | userHasRole (realmId : String) (user : User) (roleId : String) : Call Bool
  | commit : Call Unit
  | abort : Call Unit

namespace Call

def perform : Call α → Work UnitOfWork α
  | ask request => request.perform
  | realms request => Work.on realmsPart request.perform
  | tokens operation => liftM operation.perform
  | removeRealm realmId => UnitOfWork.removeRealm realmId
  | removeClient realm id => UnitOfWork.removeClient realm id
  | removeUser realmId id => UnitOfWork.removeUser realmId id
  | userGroups realmId user => UnitOfWork.userGroups realmId user
  | userRoleMappings realmId user => UnitOfWork.userRoleMappings realmId user
  | userHasRole realmId user roleId => UnitOfWork.userHasRole realmId user roleId
  | commit => UnitOfWork.commit
  | abort => liftM UnitOfWork.abort

def canRefuse : Call α → Bool
  | ask request => request.canRefuse
  | _ => false

def EvenFor (u u' : UnitOfWork) : Call α → Prop
  | ask request => request.EvenFor u u'
  | commit => Even u u'
  | _ => True

instance (u u' : UnitOfWork) : (call : Call α) → Decidable (call.EvenFor u u')
  | .ask request => inferInstanceAs (Decidable (request.EvenFor u u'))
  | .commit => inferInstanceAs (Decidable (Even u u'))
  | .realms _ | .tokens _ | .removeRealm _ | .removeClient .. | .removeUser .. | .userGroups ..
  | .userRoleMappings .. | .userHasRole .. | .abort => inferInstanceAs (Decidable True)

theorem follows (call : Call α) (h : Ahead d d') (heven : call.EvenFor d.held d'.held) :
    ahead.Follows call.perform d d' := by
  cases call with unfold Call.perform
  | ask request => exact request.follows h heven
  | realms request => exact (ahead_realms request).follows h
  | tokens operation =>
    have hwrites := operation.writes (RowStore.allows_within (List.mem_singleton_self _))
    exact (ahead_update hwrites (table_notMem (by decide))).follows h
  | removeRealm realmId => exact (ahead_removeRealm realmId).follows h
  | removeClient realm id => exact (ahead_removeClient realm id).follows h
  | removeUser realmId id => exact (ahead_removeUser realmId id).follows h
  | userGroups realmId user =>
    exact (ahead_editing (k := .groups) (.read realmId _)).follows h
  | userRoleMappings realmId user =>
    exact (ahead_editing (k := .roles) (.read realmId _)).follows h
  | userHasRole realmId user roleId => exact (ahead_userHasRole realmId user roleId).follows h
  | commit => exact follows_commit h heven
  | abort => exact (isolates_abort_of ahead_closing).follows h

end Call

end UnitOfWork

end IdentityDirectory
