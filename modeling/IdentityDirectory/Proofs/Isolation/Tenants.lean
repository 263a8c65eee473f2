import IdentityDirectory.Proofs.Isolation.Clients
import IdentityDirectory.Proofs.Isolation.Containers
import IdentityDirectory.Proofs.Isolation.Logins
import IdentityDirectory.Proofs.Isolation.Sessions
import IdentityDirectory.Proofs.Isolation.Users

/-!
Tenant isolation. A unit of work that is asked about one realm gives the same answers whatever the
rows of other realms are, and leaves these as they are. Main statements: `Request.isolated`,
`isolated_commit` and, for a fresh unit of work, `tenants_isolated`.
-/

namespace IdentityDirectory.UnitOfWork

variable {b : String} {k : ContainerKind} {α τ : Type} {realm : Realm}

def Serves (b : String) (u : UnitOfWork) : Prop :=
  ∀ k, Coordinator.Serves b (u.coordinator k)

abbrev Isolated (b : String) (work : Work UnitOfWork α) : Prop := Work.Isolated b (Serves b) work

theorem serves_start (b id : String) (linearizable caching : Bool) :
    (start id linearizable caching).Serves b := by
  intro k
  cases k <;> exact Coordinator.serves_of_unchanged rfl

theorem Serves.set {u : UnitOfWork} {c : Coordinator (Container k)} (hu : u.Serves b)
    (hc : Coordinator.Serves b c) : ((part k).set c u).Serves b := by
  intro j
  by_cases hj : j = k
  · subst hj
    rw [coordinator_set]
    exact hc
  · rw [coordinator_set_of_ne hj]
    exact hu j

theorem isolated_on_part {work : Work (Coordinator (Container k)) α}
    (h : Coordinator.Isolated b work) : Isolated b (Work.on (part k) work) :=
  h.on (fun _ hu => hu k) fun _ _ hu hc => hu.set hc

theorem isolated_on {part : Part UnitOfWork τ} {work : Work τ α}
    (hpart : ∀ t u k, (part.set t u).coordinator k = u.coordinator k)
    (h : Work.Isolated b (fun _ => True) work) : Isolated b (Work.on part work) := by
  refine h.on (fun _ _ => trivial) fun u t hu _ k => ?_
  rw [hpart]
  exact hu k

inductive Request (realm : Realm) : Type → Type 1
  | users {α : Type} (request : Users.Request α) : Request realm α
  | clients {α : Type} (request : Clients.Request realm.id α) : Request realm α
  | userSessions {α : Type} (request : UserSessions.Request α) : Request realm α
  | loginAttempts {α : Type} (request : LoginAttempts.Request α) : Request realm α
  | loginFailures {α : Type} (request : LoginFailures.Request α) : Request realm α
  | roles {α : Type} (request : Roles.Request α) : Request realm α
  | groups {α : Type} (request : Groups.Request α) : Request realm α
  | clientScopes {α : Type} (request : ClientScopes.Request α) : Request realm α
  | container {α : Type} (k : ContainerKind) (request : Coordinator.Request k α) : Request realm α

def Request.perform : Request realm α → Work UnitOfWork α
  | users request => Work.on usersPart (request.perform realm)
  | clients request => Work.on clientsPart request.perform
  | userSessions request => Work.on userSessionsPart (request.perform realm)
  | loginAttempts request => Work.on nothing (request.perform realm)
  | loginFailures request => liftM (request.perform realm.id)
  | roles request => Work.on rolesPart (request.perform realm.id)
  | groups request => Work.on groupsPart (request.perform realm.id)
  | clientScopes request => Work.on clientScopesPart (request.perform realm.id)
  | container k request => Work.on (part k) (request.perform realm.id)

theorem Request.isolated (request : Request realm α) : Isolated realm.id request.perform := by
  cases request with unfold Request.perform
  | users request => exact isolated_on (fun _ _ k => by cases k <;> rfl) (request.isolated realm)
  | clients request => exact isolated_on (fun _ _ k => by cases k <;> rfl) request.isolated
  | userSessions request =>
    exact isolated_on (fun _ _ k => by cases k <;> rfl) (request.isolated realm)
  | loginAttempts request => exact isolated_on (fun _ _ _ => rfl) (request.isolated realm)
  | loginFailures request => exact request.isolated.work
  | roles request => exact isolated_on_part (k := .roles) request.isolated
  | groups request => exact isolated_on_part (k := .groups) request.isolated
  | clientScopes request => exact isolated_on_part (k := .clientScopes) request.isolated
  | container k request => exact isolated_on_part request.isolated

theorem Request.agree_of_ne (request : Request realm α) {other : String} {d : Desk UnitOfWork}
    (hd : d.held.Serves realm.id) (hrealm : Plain realm.id) (hother : Plain other)
    (hne : other ≠ realm.id) : RowStore.Agree other d.rows (request.perform d).2.rows := by
  have hspared := (request.isolated d d ⟨.refl realm.id d.rows, rfl, rfl, hd⟩).2.2
  exact hspared.agree hrealm hother hne

theorem isolated_closing (k : ContainerKind) :
    Isolated b (liftM (closing (part k)) : Work UnitOfWork Unit) := by
  change Isolated b (Work.modifyHeld fun u => (part k).set ((part k).get u).closed u)
  apply Work.Isolated.modifyHeld
  intro u hu
  exact hu.set (Coordinator.serves_of_unchanged rfl)

theorem isolated_completing (k : ContainerKind) : Isolated b (completing (part k)) := by
  intro d d' hd
  have hflush : Isolated b (Work.on (part k) Coordinator.flush) :=
    isolated_on_part Coordinator.isolated_flush
  obtain ⟨hresult, hshared, hspared⟩ := hflush d d' hd
  obtain ⟨-, hshared', hspared'⟩ := isolated_closing k _ _ hshared
  exact ⟨congrArg (Except.map fun _ => ()) hresult, hshared', hspared.trans hspared'⟩

theorem isolated_commit : Isolated b commit :=
  isolates_commit_of isolated_completing isolated_closing

/-- Two runs, one on each of two stores, that nobody in the realm can tell apart and that nobody
outside of it takes notice of. -/
structure Alike (b : String) (s s' : RowStore) (run run' : Except StoreError α × Desk UnitOfWork) :
    Prop where
  result : run.1 = run'.1
  draws : run.2.draws = run'.2.draws
  agree : RowStore.Agree b run.2.rows run'.2.rows
  spares : RowStore.Spares b s run.2.rows
  spares' : RowStore.Spares b s' run'.2.rows

theorem Alike.of_isolated {work : Work UnitOfWork α} {d d' : Desk UnitOfWork}
    (hwork : Isolated b work) (hd : (Boundary.ofDesk b (Serves b)).shared d d') :
    Alike b d.rows d'.rows (work d) (work d') := by
  have ⟨hagree, hdraws, hheld, hserves⟩ := hd
  have hd' : (Boundary.ofDesk b (Serves b)).shared d' d :=
    ⟨hagree.symm, hdraws.symm, hheld.symm, hheld ▸ hserves⟩
  obtain ⟨hresult, ⟨hagree', hdraws', -⟩, hspared⟩ := hwork d d' hd
  -- The other run spares what is not the realm's too, since either desk may come first.
  exact ⟨hresult, hdraws', hagree', hspared, (hwork d' d hd').2.2⟩

/-- Neither the ids of users, clients and sessions nor names and values need be plain for this, and
not even the realm's own id. -/
theorem tenants_isolated (request : Request realm α) (id : String) (linearizable caching : Bool)
    (draws : Draws) {s s' : RowStore} (h : RowStore.Agree realm.id s s') :
    let fresh := fun rows => (⟨rows, draws, start id linearizable caching⟩ : Desk UnitOfWork)
    let run := fun rows => request.perform (fresh rows)
    Alike realm.id s s' (run s) (run s') ∧
      Alike realm.id s s' (commit (run s).2) (commit (run s').2) := by
  intro fresh run
  have hfresh : (Boundary.ofDesk realm.id (Serves realm.id)).shared (fresh s) (fresh s') :=
    ⟨h, rfl, rfl, serves_start realm.id id linearizable caching⟩
  have hrun : Alike realm.id s s' (run s) (run s') := .of_isolated request.isolated hfresh
  have hshared := (request.isolated (fresh s) (fresh s') hfresh).2.1
  have hcommit := Alike.of_isolated isolated_commit hshared
  refine ⟨hrun, hcommit.result, hcommit.draws, hcommit.agree, ?_, ?_⟩
  · exact hrun.spares.trans hcommit.spares
  · exact hrun.spares'.trans hcommit.spares'

theorem tenants_isolated_of_namesakes :
    let draws : Draws := { value := fun n => n }
    let create := fun (realm : Realm) rows =>
      (Request.users (.create "Ann\x1f\x00") : Request realm User).perform
        ⟨rows, draws, start "u" true true⟩
    let s := RowStore.empty 0
    let s' := (create { id := "a" } s).2.rows
    let run := create { id := "b" }
    RowStore.Agree "b" s s' ∧ s.table .users ≠ s'.table .users ∧
      (run s).1.toOption.map (·.username) = some "ann\x1f\x00" ∧
      (run s').1.toOption.map (·.username) = some "ann\x1f\x00" := by
  intro draws create s s' run
  have hagree : RowStore.Agree "b" s s' := by
    apply (Request.users (.create "Ann\x1f\x00") : Request { id := "a" } User).agree_of_ne
      (d := ⟨s, draws, start "u" true true⟩) (serves_start "a" "u" true true)
    · decide
    · decide
    · decide
  have hname : (run s).1.toOption.map (·.username) = some "ann\x1f\x00" := by decide +kernel
  obtain ⟨hrun, -⟩ := tenants_isolated (.users (.create "Ann\x1f\x00") : Request { id := "b" } User)
    "u" true true draws hagree
  refine ⟨hagree, by decide +kernel, hname, ?_⟩
  rw [← hname]
  exact congrArg (·.toOption.map (·.username)) hrun.result.symm

end IdentityDirectory.UnitOfWork
