import IdentityDirectory.Proofs.Container.Changes
import IdentityDirectory.Proofs.Container.Settlement
import IdentityDirectory.Proofs.Directory.Traces
import IdentityDirectory.Proofs.Registry.Answers

/-!
What is left once a unit of work has removed a client or a user. Main statements: what the removals do
to the rows and to what the unit holds (`removeClient_erases`, `removeUser_erases`), and what units of
work see after any run and a removal (`removed_client_and_user_gone`).
-/

namespace IdentityDirectory.Directory

open UnitOfWork (clientsPart usersPart rolesPart userSessionsPart removeClient removeUser commit
  standalone_edit standalone_commit)
open UserSessions (Confined Passed clientSessionKey clientSessionOf entity sessionAt)

variable {d : Desk UnitOfWork} {r id : String} {realm : Realm}

theorem removeUserRecord_eq (h : Registries.Tended d.rows) {s : RowStore}
    (herased : s = Users.registry.erase d.rows r id) : Work.on usersPart (Users.remove r id) d =
      (.ok (Users.registry.record d.rows r id d.rows.now).isSome, ⟨s, d.draws,
        usersPart.set ⟨d.held.users.lookups.forget, d.held.users.lists.forget⟩ d.held⟩) := by
  let c : UserCache := ⟨d.held.users.lookups.forget, d.held.users.lists.forget⟩
  have hdelete : Users.delete r id d.rows =
      (.ok (Users.registry.record d.rows r id d.rows.now).isSome, s) :=
    herased ▸ Registry.erase_eq_isSome h.users.holds h.users.sound r id
  exact Work.on_of_eq usersPart (Work.liftM_update_of_eq (d := ⟨d.rows, d.draws, c⟩) hdelete)

theorem removeClientRecord_eq (h : Registries.Tended d.rows) {s : RowStore}
    (herased : s = Clients.registry.erase d.rows r id) : Work.on clientsPart (Clients.remove r id) d =
      (.ok (Clients.registry.record d.rows r id d.rows.now).isSome, ⟨s, d.draws,
        clientsPart.set ⟨d.held.clients.lookups.forget, d.held.clients.lists.forget⟩ d.held⟩) := by
  let c : ClientCache := ⟨d.held.clients.lookups.forget, d.held.clients.lists.forget⟩
  have hdelete : Clients.delete r id d.rows =
      (.ok (Clients.registry.record d.rows r id d.rows.now).isSome, s) :=
    herased ▸ Registry.erase_eq_isSome h.clients.holds h.clients.sound r id
  exact Work.on_of_eq clientsPart (Work.liftM_update_of_eq (d := ⟨d.rows, d.draws, c⟩) hdelete)

theorem record_of_passed {s s' : RowStore} {which : UserSession → Prop}
    {named : UserSession → List String} {outcome : UserSession → Int → Option UserSession}
    (hpassed : Passed r which named outcome s s') (key : String) :
    let s'' := s'.remove .loginFailures key
    Users.registry.record s'' r id s''.now = Users.registry.record s r id s.now := by
  intro s''
  have hnow : s''.now = s.now := (RowStore.now_remove ..).trans hpassed.changes.now
  have htable : s''.table .users = s.table .users := by
    refine (RowStore.table_remove_of_ne _ (by decide) _).trans ?_
    exact StringMap.ext_get? fun key => hpassed.changes.cell fun hof =>
      absurd (mem_tables_of_ofSessions hof) (by decide)
  rw [Registry.record_congr htable, hnow]

theorem removeUser_erases (h : Consistent d.rows) (hr : Plain r) (hid : NulFree id) :
    ∃ d', removeUser r id d =
        (.ok (Users.registry.record d.rows r id d.rows.now).isSome, d') ∧
      UserErased r id d.rows d'.rows ∧ Consistent d'.rows ∧ Users.Unread d'.held.users := by
  obtain ⟨n, e, hpass, hpassed⟩ := UserSessions.passed_removeByUser
    (d := { d with held := d.held.userSessions }) h.indexed hr hid
  have hconsistent : Consistent e.rows := by
    have hkept := (UserSessions.keeps_removeByUser steady_consistent hr (fun _ => trivial) id
      { d with held := d.held.userSessions } h).1
    rwa [hpass] at hkept
  let s := e.rows.remove .loginFailures (LoginFailures.key r id).encode
  let d₁ : Desk UnitOfWork := { e with held := userSessionsPart.set e.held d.held }
  have hsessions := Work.on_of_eq userSessionsPart (d := d) hpass
  have hfailures : LoginFailures.remove r id e.rows =
      (.ok (e.rows.seen .loginFailures (LoginFailures.key r id).encode e.rows.now).isSome, s) :=
    Update.delete_eq _ (hconsistent.readable .loginFailures (by decide))
  have hconsistent' : Consistent s := by
    have hwrote := ((LoginFailures.Request.remove id).standalone r).wrote e.rows
    rw [show LoginFailures.Request.perform r (.remove id) e.rows = _ from hfailures] at hwrote
    exact hconsistent.wrote hwrote
  have hfailed : (liftM (LoginFailures.remove r id) : Work UnitOfWork Bool) d₁ =
      (.ok _, { d₁ with rows := s }) := Work.liftM_update_of_eq (d := d₁) hfailures
  -- From here on it does not matter how the record is removed.
  obtain ⟨s', herased⟩ : ∃ s', s' = Users.registry.erase s r id := ⟨_, rfl⟩
  have hremoved := removeUserRecord_eq (d := { d₁ with rows := s }) hconsistent'.tended herased
  rw [show Users.registry.record s r id s.now = Users.registry.record d.rows r id d.rows.now
    from record_of_passed hpassed _] at hremoved
  have heq : removeUser r id d = Work.on usersPart (Users.remove r id) { d₁ with rows := s } := by
    rw [removeUser, Work.bind_of_ok hsessions, Work.bind_of_ok hfailed]
  rw [hremoved] at heq
  have hfinal := (keeps_removeUser hr hid d h).1
  rw [heq] at hfinal
  exact ⟨_, heq, .of_passed h hr hid hpassed rfl herased hfinal, hfinal, QueryCache.blank_forget _,
    QueryCache.blank_forget _⟩

def without (roles : Coordinator RealmRoles) (r id : String) (x : Loaded RealmRoles) :
    Coordinator RealmRoles :=
  Coordinator.changing (k := .roles) roles r { x with value := x.value.removeOfClient id }

theorem removeClientRoles_ok {n : Nat} {d' : Desk UnitOfWork}
    (h : Work.on rolesPart (Roles.removeClientRoles r id) d = (.ok n, d')) :
    ∃ x, Coordinator.basis (k := .roles) ⟨d.rows, d.draws, d.held.roles⟩ r = .ok x ∧
      d' = ⟨d.rows, d.draws, rolesPart.set (without d.held.roles r id x) d.held⟩ := by
  let f : RealmRoles → Nat × RealmRoles := fun c =>
    (c.roles.countP (·.clientId = some id), c.removeOfClient id)
  cases hbasis : Coordinator.basis (k := .roles) ⟨d.rows, d.draws, d.held.roles⟩ r with
  | error e =>
    have hfailed := Coordinator.update_fails hbasis f
    have hresult : (Work.on rolesPart (Roles.removeClientRoles r id) d).1 = .error e := hfailed
    rw [h] at hresult
    cases hresult
  | ok x =>
    have hupdated := Work.on_of_eq rolesPart (Coordinator.update_of_basis hbasis f)
    exact ⟨x, rfl, (Prod.mk.inj (h.symm.trans hupdated)).2⟩

theorem detached_erased {d' d'' : Desk UnitOfWork} {n : Nat} (h : Consistent d.rows)
    (hr : Plain realm.id)
    (hdetach : Work.on userSessionsPart (UserSessions.detachClientEverywhere realm id) d = (.ok n, d'))
    (hremove : Work.on clientsPart (Clients.remove realm.id id) d' = (.ok true, d''))
    (hconsistent : Consistent d''.rows) :
    ClientErased realm id d.rows d''.rows ∧ Clients.Forgotten d''.held.clients ∧
      d''.held.roles = d.held.roles := by
  let e : Desk SessionCache := { d with held := d.held.userSessions }
  have hrows : d'.rows = (UserSessions.detachClientEverywhere realm id e).2.rows :=
    congrArg (·.2.rows) hdetach.symm
  have hroles : d'.held.roles = d.held.roles := congrArg (·.2.held.roles) hdetach.symm
  have hconsistent' : Consistent d'.rows :=
    hrows ▸ (UserSessions.keeps_detachEverywhere steady_consistent hr (fun _ => trivial) id e h).1
  have hconfined : Confined d.rows d'.rows := hrows ▸
    (UserSessions.keeps_detachEverywhere (UserSessions.steady_backed (J := Confined d.rows)
      fun _ _ => .trans) hr (fun _ => trivial) id e ⟨⟨h.indexed, h.backed⟩, .refl _ _⟩).1.2
  obtain ⟨s', herased⟩ : ∃ s', s' = Clients.registry.erase d'.rows realm.id id := ⟨_, rfl⟩
  have hremoved := removeClientRecord_eq hconsistent'.tended herased
  obtain ⟨hanswer, rfl⟩ := Prod.mk.inj (hremove.symm.trans hremoved)
  -- The id is that of a record, so it is one that lookups of sessions can go by.
  have hid : NulFree id := by
    obtain ⟨client, hclient⟩ := Option.isSome_iff_exists.mp (Except.ok.inj hanswer).symm
    exact (hconsistent'.tended.upheld.clients.placed realm.id id client hr hclient).2
  obtain ⟨m, e', hpass, hpassed⟩ := UserSessions.passed_detachEverywhere (d := e) h.indexed hr hid
  rw [hpass] at hrows
  rw [← hrows] at hpassed
  exact ⟨.of_passed h hr hid hpassed herased hconsistent,
    ⟨QueryCache.blank_forget _, QueryCache.blank_forget _⟩, hroles⟩

theorem removeClient_erases (h : Consistent d.rows) (hr : Plain realm.id)
    (hdone : (removeClient realm id d).1 = .ok true) :
    ∃ x d', Coordinator.basis (k := .roles) ⟨d.rows, d.draws, d.held.roles⟩ realm.id = .ok x ∧
      removeClient realm id d = (.ok true, d') ∧
      d'.held.roles = without d.held.roles realm.id id x ∧
      ClientErased realm id d.rows d'.rows ∧ Consistent d'.rows ∧ Clients.Forgotten d'.held.clients := by
  obtain ⟨found, d₁, hfind, hrest⟩ := Work.exists_of_bind_ok hdone
  have hasked : d₁ = (Work.on clientsPart (Clients.findById realm.id id) d).2 := by rw [hfind]
  have hrows : d₁.rows = d.rows := by
    rw [hasked]
    rfl
  have hheld : d₁.held.roles = d.held.roles := by
    rw [hasked]
    rfl
  cases found with
  | none => cases hrest
  | some client =>
    obtain ⟨n, d₂, hroles, hlater⟩ := Work.exists_of_bind_ok hrest
    obtain ⟨m, d₃, hdetach, hlast⟩ := Work.exists_of_bind_ok hlater
    obtain ⟨x, hbasis, rfl⟩ := removeClientRoles_ok hroles
    rw [hrows, hheld] at hbasis
    obtain ⟨d', hremove⟩ : ∃ d',
        Work.on clientsPart (Clients.remove realm.id id) d₃ = (.ok true, d') := ⟨_, Prod.ext hlast rfl⟩
    have heq : removeClient realm id d = (.ok true, d') := by
      rw [removeClient, Work.bind_of_ok hfind]
      exact (Work.bind_of_ok hroles _).trans ((Work.bind_of_ok hdetach _).trans hremove)
    have hconsistent := (keeps_removeClient hr id d h).1
    rw [heq] at hconsistent
    obtain ⟨herased, hforgotten, hsame⟩ := detached_erased (hrows ▸ h) hr hdetach hremove hconsistent
    rw [← hrows, ← hheld]
    exact ⟨x, d', hrows ▸ hheld ▸ hbasis, heq, hsame, herased, hconsistent, hforgotten⟩

section Erased

variable {α : Type} [Storable α] {R : Registry α} {U : String → String → Prop} {s s' : RowStore}
  {which : UserSession → Prop} {named : UserSession → List String} {attached : Table → String → Prop}
  (h : Erased R r id which named attached s s')
include h

theorem Erased.no_record : R.record s' r id s'.now = none := by
  have hunseen := h.unseen R.table (R.key r id).encode (.inl ⟨rfl, rfl⟩) s'.now
    (Int.le_of_eq h.others.now.symm)
  rw [Registry.record, RowStore.recordAt, hunseen]
  rfl

theorem Erased.free (hkept : R.Kept U s) (hkept' : R.Kept U s') (hr : R.Scope r) {name value : String}
    {a : α} (hu : U r name) (hn : name ∈ R.fields) (ha : R.record s r id s.now = some a)
    (hvalue : R.field name a = some value) {id' : String} {b : α}
    (hb : R.record s' r id' s'.now = some b) : R.field name b ≠ some value := by
  have hne : id' ≠ id := by
    rintro rfl
    rw [h.no_record] at hb
    cases hb
  have hcell := h.otherRecords r id' hr (hkept'.placed r id' b hr hb).2 (fun heq => hne heq.2)
    R.table (R.key r id').encode (.inl ⟨rfl, rfl⟩)
  have hrecord : R.record s r id' s.now = some b := by
    rw [← hb, h.others.now, Registry.record, Registry.record, RowStore.recordAt, RowStore.recordAt,
      RowStore.seen_of_get?_eq hcell]
  exact fun hb' => hkept.unique r id name a value hr hu hn ha hvalue ⟨id', b, hne, hrecord, hb'⟩

end Erased

structure RolesGone (r id : String) (unit : Nat) (w w' : World) (before after : RealmRoles) :
    Prop where
  kept : after.roles = before.roles.filter (·.clientId ≠ some id) ∧ after.realmId = before.realmId
  saw : ∀ {β : Type} (f : RealmRoles → β),
    w.resultOf unit (Work.on rolesPart (Coordinator.read r f)) = .ok (f before)
  sees : ∀ {β : Type} (f : RealmRoles → β),
    w'.resultOf unit (Work.on rolesPart (Coordinator.read r f)) = .ok (f after)
  overwritten : ∀ s, ((commit { w'.desk unit with rows := s }).2.rows.table .realmRoles).get?
      (Coordinator.key r).encode = (s.table .realmRoles).get? (Coordinator.key r).encode ∨
    (commit { w'.desk unit with rows := s }).2.rows.Contains .roles r after
  written : ∀ s, s.Readable .realmRoles → r ∉ (w'.units unit).roles.deleted →
    (commit { w'.desk unit with rows := s }).1 = .ok () →
      (commit { w'.desk unit with rows := s }).2.rows.Contains .roles r after
  others : ∀ r', r' ≠ r → ∀ {β : Type} (f : RealmRoles → β),
    w'.resultOf unit (Work.on rolesPart (Coordinator.read r' f)) =
      w.resultOf unit (Work.on rolesPart (Coordinator.read r' f))
  due : ∀ r', r' ≠ r → ((w'.units unit).coordinator .roles).due? r' =
    ((w.units unit).coordinator .roles).due? r'

/-- Sessions and rows as they are without the client, roles too, and no lookup that is not answered
from memory gives it; the unit of work itself remembers no answer. -/
structure ClientGone (realm : Realm) (id : String) (unit : Nat) (w w' : World) : Prop where
  rows : ClientErased realm id w.rows w'.rows
  roles : ∃ before after, RolesGone realm.id id unit w w' before after
  forgotten : Clients.Forgotten (w'.units unit).clients
  unfound : ∀ v, Clients.Forgotten (w'.units v).clients →
    w'.resultOf v (Work.on clientsPart (Clients.findById realm.id id)) = .ok none
  unknown : ∀ v, Clients.Forgotten (w'.units v).clients →
    ∀ {α : Type} (request : Clients.Request realm.id α) (answer : α) (client : Client),
      w'.resultOf v (Work.on clientsPart request.perform) = .ok answer →
        request.Gives answer client → client.id ≠ id
  unnamed : ∀ v, Clients.Forgotten (w'.units v).clients →
    ∀ client, Clients.load realm.id id w.rows = .ok (some client) → NulFree client.clientId →
      w'.resultOf v (Work.on clientsPart (Clients.findByClientId realm.id client.clientId)) = .ok none

structure UserGone (r id : String) (unit : Nat) (w w' : World) : Prop where
  rows : UserErased r id w.rows w'.rows
  forgotten : Users.Unread (w'.units unit).users
  unfound : ∀ v, Users.Unread (w'.units v).users →
    w'.resultOf v (Work.on usersPart (Users.findById r id)) = .ok none
  unknown : ∀ v, Users.Unread (w'.units v).users →
    ∀ (realm : Realm) {α : Type} (request : Users.Request α) (answer : α) (user : User),
      realm.id = r → w'.resultOf v (Work.on usersPart (request.perform realm)) = .ok answer →
        request.Gives answer user → user.id ≠ id
  unnamed : ∀ v, Users.Unread (w'.units v).users →
    ∀ user, Users.load r id w.rows = .ok (some user) →
      (∀ username, Text.lowercase username = user.username → NulFree user.username →
        w'.resultOf v (Work.on usersPart (Users.findByUsername r username)) = .ok none) ∧
      ∀ link, user.serviceAccountClientLink = some link → NulFree link →
        w'.resultOf v (liftM (Users.findByServiceAccountClient r link)) = .ok none

theorem rolesGone_of_without {w : World} {unit : Nat} {d' : Desk UnitOfWork} {x : Loaded RealmRoles}
    (hbasis : Coordinator.basis (k := .roles) ⟨w.rows, w.draws, (w.units unit).roles⟩ r = .ok x)
    (hroles : d'.held.roles = without (w.units unit).roles r id x)
    (hnow : d'.rows.now = w.rows.now) (htable : d'.rows.table .realmRoles = w.rows.table .realmRoles) :
    RolesGone r id unit w (w.afterDesk unit d') x.value (x.value.removeOfClient id) := by
  have hdesk := w.desk_afterDesk unit d'
  have hunit := w.units_afterDesk unit d'
  let c : Coordinator (Container .roles) := (w.units unit).roles
  let x' : Loaded (Container .roles) := { x with value := x.value.removeOfClient id }
  have hloaded : ∀ r', d'.held.roles.loaded.get? r' =
      if r' = r then some x' else c.loaded.get? r' :=
    fun r' => hroles ▸ Coordinator.get?_loaded_changing c x' r'
  have hchanged : ∀ r', r' ∈ d'.held.roles.changed ↔ r' = r ∨ r' ∈ c.changed :=
    fun r' => hroles ▸ Coordinator.mem_changed_changing c x'
  have hdropped : d'.held.roles.deleted = c.deleted := by
    rw [hroles]
    rfl
  have hheld : d'.held.roles.loaded.get? r = some x' := (hloaded r).trans (if_pos rfl)
  refine ⟨⟨rfl, rfl⟩, fun f => ?_, fun f => ?_, fun s => ?_, fun s hreadable hdeleted hok => ?_,
    fun r' hne β f => ?_, fun r' hne => ?_⟩
  · exact Coordinator.read_of_basis (k := .roles) hbasis f
  · rw [World.resultOf, hdesk]
    exact Coordinator.read_of_basis (Coordinator.basis_of_held (k := .roles)
      (d := ⟨d'.rows, d'.draws, d'.held.roles⟩) hheld) f
  · rw [hdesk]
    exact UnitOfWork.overwritten_commit (k := .roles) (d := ⟨s, d'.draws, d'.held⟩) hheld
  · rw [hdesk] at hok ⊢
    rw [hunit] at hdeleted
    exact UnitOfWork.written_commit (k := .roles) (d := ⟨s, d'.draws, d'.held⟩) (x := x') hreadable
      ((hchanged r).mpr (.inl rfl)) ((if_neg hdeleted).trans hheld) hok
  · rw [World.resultOf, World.resultOf, hdesk]
    have hsame : Coordinator.basis (k := .roles) ⟨d'.rows, d'.draws, d'.held.roles⟩ r' =
        Coordinator.basis (k := .roles) ⟨w.rows, w.draws, c⟩ r' :=
      Coordinator.basis_congr ((hloaded r').trans (if_neg hne)) hnow htable
    refine (Coordinator.read_result (k := .roles) _ r' f).trans ?_
    exact (congrArg _ hsame).trans (Coordinator.read_result (k := .roles) _ r' f).symm
  · rw [hunit]
    show Coordinator.due? (k := .roles) d'.held.roles r' = Coordinator.due? (k := .roles) c r'
    rw [Coordinator.due?, Coordinator.due?, Coordinator.pending?, Coordinator.pending?, hdropped,
      hloaded, if_neg hne]
    simp only [hchanged, hne, false_or]

theorem clientGone_of_erased {w w' : World} {unit : Nat} {before after : RealmRoles}
    (hr : Plain realm.id) (hbefore : Consistent w.rows) (h : ClientErased realm id w.rows w'.rows)
    (hconsistent : Consistent w'.rows)
    (hroles : RolesGone realm.id id unit w w' before after)
    (hforgotten : Clients.Forgotten (w'.units unit).clients) : ClientGone realm id unit w w' where
  rows := h
  roles := ⟨before, after, hroles⟩
  forgotten := hforgotten
  unfound v hv := by
    have hload := Work.cached_of_none Clients.lookups (d := ⟨w'.rows, w'.draws, (w'.units v).clients⟩)
      (hv.lookups (.byId realm.id id)) (Clients.load realm.id id)
    rw [Clients.load_eq hconsistent.tended.upheld.clients, h.no_record] at hload
    exact hload
  unknown v hv α request answer client hanswer hgives := by
    have hstored := Clients.Request.stored (d := ⟨w'.rows, w'.draws, (w'.units v).clients⟩)
      hconsistent.tended.upheld.clients hr hv hanswer hgives
    rintro rfl
    rw [h.no_record] at hstored
    cases hstored
  unnamed v hv client hclient hfree := by
    rw [Clients.load_eq hbefore.tended.upheld.clients] at hclient
    have hload := Work.cached_of_none Clients.lookups (d := ⟨w'.rows, w'.draws, (w'.units v).clients⟩)
      (hv.lookups (.byClientId realm.id client.clientId))
      (Clients.loadByClientId realm.id client.clientId)
    rw [Clients.loadByClientId_of_free hconsistent.tended.upheld.clients hr hfree] at hload
    · exact hload
    · intro id' c hc hsame
      exact h.free hbefore.tended.upheld.clients hconsistent.tended.upheld.clients hr trivial
        List.mem_cons_self (Except.ok.inj hclient) rfl hc (congrArg some hsame)

theorem userGone_of_erased {w w' : World} {unit : Nat} (hr : Plain r)
    (hbefore : Consistent w.rows) (h : UserErased r id w.rows w'.rows) (hconsistent : Consistent w'.rows)
    (hunread : Users.Unread (w'.units unit).users) : UserGone r id unit w w' where
  rows := h
  forgotten := hunread
  unfound v hv := by
    have hload := Work.cached_of_none Users.lookups (d := ⟨w'.rows, w'.draws, (w'.units v).users⟩)
      (hv.lookups (.byId r id)) (Users.load r id)
    rw [Users.load_eq hconsistent.tended.upheld.users, h.no_record] at hload
    exact hload
  unknown v hv realm α request answer user hrealm hanswer hgives := by
    subst hrealm
    have hstored := Users.Request.stored (d := ⟨w'.rows, w'.draws, (w'.units v).users⟩)
      hconsistent.tended.upheld.users hr hv hanswer hgives
    rintro rfl
    rw [h.no_record] at hstored
    cases hstored
  unnamed v hv user huser := by
    rw [Users.load_eq hbefore.tended.upheld.users] at huser
    -- Neither a name nor a link to a client is that of two users.
    have hfree : ∀ f : UniqueField, f ≠ .email → ∀ value, f.value? user = some value →
        ∀ id' u, Users.registry.record w'.rows r id' w'.rows.now = some u → f.value? u ≠ some value := by
      intro f hf value hvalue id' u hu
      rw [← Users.field_attributeName] at hvalue ⊢
      exact h.free hbefore.tended.upheld.users hconsistent.tended.upheld.users hr
        ⟨f, rfl, fun heq => absurd heq hf⟩ (Users.attributeName_mem f) (Except.ok.inj huser) hvalue hu
    constructor
    · rintro username hname hnul
      have hload := Work.cached_of_none Users.lookups (d := ⟨w'.rows, w'.draws, (w'.units v).users⟩)
        (hv.lookups (.byUsername r (Text.lowercase username)))
        (Users.loadByUsername r (Text.lowercase username))
      rw [hname, Users.loadByUsername_of_free hconsistent.tended.upheld.users hr hnul] at hload
      · rw [← hname] at hload
        exact hload
      · intro id' u hu hsame
        exact hfree .username nofun _ rfl id' u hu (congrArg some hsame)
    · intro link hlink hnul
      exact Users.findByServiceAccountClient_of_free hconsistent.tended.upheld.users hr hnul
        (hfree .serviceAccount nofun link hlink)

/-- After any run: where a client has been removed nothing depends on it any more, and where the
removal of a user has been asked for there is nothing of the user, stored before or not. All else is
as it was. -/
theorem removed_client_and_user_gone (linearizable caching : Bool) (start : Int) (draws : Draws)
    (events : List (World.Event Operation))
    (hproper : Proper (World.opened linearizable caching start draws) events) (w : World)
    (hrun : w = (World.opened linearizable caching start draws).run Operation.perform events)
    (unit : Nat) :
    (∀ (realm : Realm) (id : String), Plain realm.id →
      w.resultOf unit (removeClient realm id) = .ok true →
        ClientGone realm id unit w (w.call unit (removeClient realm id))) ∧
    ∀ r id, Plain r → NulFree id →
      (∃ found, Users.load r id w.rows = .ok found ∧
        w.resultOf unit (removeUser r id) = .ok found.isSome) ∧
      UserGone r id unit w (w.call unit (removeUser r id)) := by
  have hconsistent : Consistent w.rows := hrun ▸ (consistent_empty start).run hproper
  constructor
  · intro realm id hr hdone
    obtain ⟨x, d, hbasis, heq, hroles, herased, hconsistent', hforgotten⟩ :=
      removeClient_erases (d := w.desk unit) hconsistent hr hdone
    have hcall : w.call unit (removeClient realm id) = w.afterDesk unit d := by
      rw [World.call, heq]
    have htable : d.rows.table .realmRoles = w.rows.table .realmRoles := by
      refine StringMap.ext_get? fun key => herased.others.cell ?_
      rintro (hof | hof | hof)
      · exact absurd (mem_tables_of_ofSessions hof) (by decide)
      · exact hof
      · exact absurd (mem_tables_of_ofRecord hof) (by decide)
    have hgone := rolesGone_of_without hbasis hroles herased.others.now htable
    rw [hcall]
    exact clientGone_of_erased hr hconsistent herased hconsistent' hgone (by rwa [World.units_afterDesk])
  · intro r id hr hid
    obtain ⟨d, heq, herased, hconsistent', hunread⟩ :=
    removeUser_erases (d := w.desk unit) hconsistent hr hid
    have hcall : w.call unit (removeUser r id) = w.afterDesk unit d := by
      rw [World.call, heq]
    refine ⟨⟨_, Users.load_eq hconsistent.tended.upheld.users r id, ?_⟩, ?_⟩
    · rw [World.resultOf, heq]
      rfl
    · rw [hcall]
      exact userGone_of_erased hr hconsistent herased hconsistent' (by rwa [World.units_afterDesk])

theorem removed_client_and_user_gone_in_use : ∃ (events : List (World.Event Operation)) (w : World),
    w = (World.opened true true 0 { value := fun n => n }).run Operation.perform events ∧
      Proper (World.opened true true 0 { value := fun n => n }) events ∧
      ∃ client user : String,
        (∀ offline, UserSessions.countByClient "r" client offline w.rows = .ok 1) ∧
        w.resultOf 1 (Work.on rolesPart (Coordinator.read "r" fun c => c.roles.map (·.clientId))) =
          .ok [some client, none] ∧
        w.resultOf 1 (removeClient { id := "r" } client) = .ok true ∧
        ClientGone { id := "r" } client 1 w (w.call 1 (removeClient { id := "r" } client)) ∧
        w.resultOf 1 (removeUser "r" user) = .ok true ∧
        UserGone "r" user 1 w (w.call 1 (removeUser "r" user)) := by
  let realm : Realm := { id := "r" }
  let client : Client := { realmId := "r", id := Identifier.hyphenated 0 }
  let user := Identifier.hyphenated 1
  let session : UserSession := { id := "s", userId := user }
  let other : UserSession := { id := "t", userId := "bob" }
  let failure := (LoginFailures.Request.record user none).standalone "r"
  let clientRole := Operation.ofStandalone
    (standalone_edit ((Roles.operations_editing "r").2.2.1 client.id "reader"))
  let realmRole := Operation.ofStandalone (standalone_edit ((Roles.operations_editing "r").2.1 "admin"))
  let events : List (World.Event Operation) :=
    [.call 0 (.registry (.createClient "r" "app")),
      .call 0 (.registry (.createUser realm "ann")),
      .call 0 (.registry (.setAttribute "r" user "colour" ["red"])),
      .call 0 (.session (.create realm session)),
      .call 0 (.session (.attach realm client "s" false)),
      .call 0 (.session (.createOfflineCopy realm session)),
      .call 0 (.session (.attach realm client "s" true)),
      .call 0 (.session (.create realm other)),
      .call 0 (.ofStandalone (Work.writes_update failure)),
      .call 0 clientRole, .call 0 realmRole, .call 0 (.ofStandalone standalone_commit)]
  have hproper : Proper (World.opened true true 0 { value := fun n => n }) events := by decide +kernel
  obtain ⟨w, hw⟩ : ∃ w, w =
      (World.opened true true 0 { value := fun n => n }).run Operation.perform events := ⟨_, rfl⟩
  obtain ⟨hclient, huser⟩ :=
    removed_client_and_user_gone true true 0 { value := fun n => n } events hproper w hw 1
  have hrun : (∀ offline, UserSessions.countByClient "r" client.id offline w.rows = .ok 1) ∧
      w.resultOf 1 (Work.on rolesPart (Coordinator.read "r" fun c => c.roles.map (·.clientId))) =
        .ok [some client.id, none] ∧
      w.resultOf 1 (removeClient realm client.id) = .ok true ∧
      w.resultOf 1 (removeUser "r" user) = .ok true := by
    rw [hw]
    decide +kernel
  obtain ⟨hsessions, hroles, hdone, hremoved⟩ := hrun
  exact ⟨events, w, hw, hproper, client.id, user, hsessions, hroles, hdone,
    hclient realm client.id (by decide) hdone, hremoved,
    (huser "r" user (by decide) (by decide +kernel)).2⟩

/-- Of a client, what another unit of work remembers and the roles of other realms stay behind. With a
user goes the row of a client session that another session names too, and where an id is not what it
should be, a row of another user, or else a row of the user stays behind. -/
theorem limits_of_removals :
    (∃ (events : List (World.Event Operation)) (w : World) (client user : String),
      w = (World.opened true true 0 { value := fun n => n }).run Operation.perform events ∧
        Proper (World.opened true true 0 { value := fun n => n }) events ∧
        (∃ w', w' = w.call 0 (removeClient { id := "r" } client) ∧
          w.resultOf 0 (removeClient { id := "r" } client) = .ok true ∧
          w'.resultOf 1 (Work.on clientsPart (Clients.findById "r" client)) ≠ .ok none ∧
          w'.resultOf 0 (Work.on rolesPart (Coordinator.read "q" fun c =>
            c.roles.map (·.clientId))) = .ok [some client]) ∧
        (∃ s' id, s' = (w.call 0 (removeUser "r" user)).rows ∧
          (sessionAt s' "r" (entity "t" false) s'.now).map
            (fun a => (a.userId, a.clientSessions.values)) = some ("bob", [id]) ∧
          (w.rows.seen .clientSessions (clientSessionKey "r" id).encode w.rows.now).isSome ∧
          s'.seen .clientSessions (clientSessionKey "r" id).encode s'.now = none) ∧
        ∃ s' key, s' = (w.call 0 (removeUser "r" (user ++ "\x00x"))).rows ∧
          Users.registry.OfRecord "r" user .userAttributes key ∧
          (w.rows.seen .userAttributes key w.rows.now).isSome ∧
          s'.seen .userAttributes key s'.now = none) ∧
    ∃ (events : List (World.Event Registries.Operation)) (w : World) (s' : RowStore)
        (user key : String),
      w = (World.opened true true 0 { value := fun n => n }).run Registries.Operation.perform events ∧
        Registries.Proper (World.opened true true 0 { value := fun n => n }) events ∧
        s' = (w.call 0 (removeUser "r" user)).rows ∧ NulFree user ∧
        Users.registry.OfRecord "r" user .attributeUsers key ∧
        (s'.seen .attributeUsers key s'.now).isSome := by
  let realm : Realm := { id := "r" }
  let client : Client := { realmId := "r", id := Identifier.hyphenated 0 }
  let user := Identifier.hyphenated 1
  let session : UserSession := { id := "s", userId := user }
  let shared : StringMap String := (∅ : StringMap String).insert "other" (Identifier.hyphenated 2)
  let other : UserSession := { id := "t", userId := "bob", clientSessions := shared }
  let clientRole := Operation.ofStandalone
    (standalone_edit ((Roles.operations_editing "q").2.2.1 client.id "reader"))
  let lookup := Operation.ofStandalone
    ((Work.writes_cached Clients.lookups (.byId "r" client.id) (Clients.load "r" client.id)).on
      clientsPart)
  let events : List (World.Event Operation) :=
    [.call 0 (.registry (.createClient "r" "app")),
      .call 0 (.registry (.createUser realm "ann")),
      .call 0 (.session (.create realm session)),
      .call 0 (.session (.attach realm client "s" false)),
      .call 0 (.session (.create realm other)),
      .call 0 (.registry (.setAttribute "r" user "x\x00y" ["v"])),
      .call 0 clientRole, .call 1 lookup]
  let account := Identifier.hyphenated 0
  let events' : List (World.Event Registries.Operation) :=
    [.call 0 (.createUser realm "ann"), .call 0 (.setAttribute "r" account "x\x00y" ["v"]),
      .call 0 (.removeAttribute "r" (account ++ "\x00x") "y")]
  refine ⟨⟨events, _, client.id, user, rfl, by decide +kernel, ⟨_, rfl, ?_⟩,
    ⟨_, Identifier.hyphenated 2, rfl, ?_⟩,
    ⟨_, _, rfl, .inr (.inl ⟨rfl, "x\x00y", rfl⟩), ?_⟩⟩, events', _, _, account, _, rfl,
    by decide +kernel, rfl, by decide +kernel, .inr (.inr ⟨rfl, "x\x00y", "v", rfl⟩), ?_⟩
  all_goals decide +kernel

end IdentityDirectory.Directory
