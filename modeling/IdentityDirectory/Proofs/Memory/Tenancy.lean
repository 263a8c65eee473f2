import IdentityDirectory.Proofs.Directory.Standalone
import IdentityDirectory.Proofs.Memory.Registries
import IdentityDirectory.Proofs.Session.Footprint

/-!
A unit of work that has the store to itself, with and without a memory. Realms and clients are created,
looked up, changed and removed, clients and realms also with everything that belongs to them; the rows,
the answers and what is left to be written back are the same either way. Main statements:
`Request.isolates`, `DifferInMemory.run` and `answers_agree`.
-/

namespace IdentityDirectory.UnitOfWork

open RowStore (LastingIn SameIn durably within)
open Work (HeldIndependent Oblivious)

variable {α τ : Type} {k : ContainerKind} {s s' : RowStore} {d d' : Desk UnitOfWork}

def tenancyTables : List Table := Realms.registry.tables ++ Clients.registry.tables

/-- Two units of work over the same rows, with the same containers. One remembers of realms and clients
what would be loaded, the other nothing. -/
structure DifferInMemory (d d' : Desk UnitOfWork) : Prop where
  rows : d.rows = d'.rows
  draws : d.draws = d'.draws
  containers : ∀ k, d.held.coordinator k = d'.held.coordinator k
  realms : Realms.Remembering d.rows d.held.realms
  clients : Clients.Remembering d.rows d.held.clients
  noRealms : Realms.Disabled d'.held.realms
  noClients : Clients.Disabled d'.held.clients

def differInMemory : Boundary (Desk UnitOfWork) where
  shared := DifferInMemory
  spared d d' := RowStore.Wrote (durably tenancyTables) d.rows d'.rows
  refl d := .refl d.rows
  trans := .trans

theorem DifferInMemory.remembering (h : DifferInMemory d d') (hs : SameIn tenancyTables d.rows s) :
    Realms.Remembering s d.held.realms ∧ Clients.Remembering s d.held.clients := by
  have hwhole : ∀ {tables : List Table}, (∀ t ∈ tables, t ∈ tenancyTables) → SameIn tables d.rows s :=
    fun hsub => ⟨fun t ht => hs.table t (hsub t ht),
      hs.time.imp_right fun hlasting t ht => hlasting t (hsub t ht)⟩
  exact ⟨h.realms.sameIn Realms.reads_answer (hwhole (by decide)),
    h.clients.sameIn (hwhole (by decide))⟩

theorem isolates_elsewhere {part : Part UnitOfWork τ} {work : Work τ α} {others : List Table}
    (hwork : HeldIndependent (within others) work) (hne : ∀ t ∈ tenancyTables, t ∉ others)
    (hset : ∀ c u, (part.set c u).realms = u.realms ∧ (part.set c u).clients = u.clients ∧
      ∀ k, (part.set c u).coordinator k = u.coordinator k) :
    differInMemory.Isolates (Work.on part work) := by
  intro d d' h
  obtain ⟨hresult, ⟨hrows, hdraws⟩, hwrote⟩ :=
    hwork { d with held := part.get d.held } { d' with held := part.get d'.held } ⟨h.rows, h.draws⟩
  obtain ⟨hrealms, hclients⟩ := h.remembering (.of_onlyIn hwrote.onlyIn_within hne)
  refine ⟨hresult, ?_, hwrote.durably_of_within hne⟩
  constructor
  · exact hrows
  · exact hdraws
  · intro k
    exact ((hset _ _).2.2 k).trans ((h.containers k).trans ((hset _ _).2.2 k).symm)
  · exact (hset _ _).1.symm ▸ hrealms
  · exact (hset _ _).2.1.symm ▸ hclients
  · exact (hset _ _).1.symm ▸ h.noRealms
  · exact (hset _ _).2.1.symm ▸ h.noClients

theorem isolates_update {u : Update α} {others : List Table} (hu : Update.Writes (within others) u)
    (hne : ∀ t ∈ tenancyTables, t ∉ others) : differInMemory.Isolates (liftM u : Work UnitOfWork α) := by
  have hon : differInMemory.Isolates (Work.on nothing (liftM u)) :=
    isolates_elsewhere (HeldIndependent.update hu) hne fun _ _ => ⟨rfl, rfl, fun k => by cases k <;> rfl⟩
  exact hon

theorem isolates_container {work : Work (Coordinator (Container k)) α}
    (hwork : Directory.WritesStandalone work) : differInMemory.Isolates (Work.on (part k) work) := by
  intro d d' h
  have hdesk : ({ d with held := (part k).get d.held } : Desk (Coordinator (Container k))) =
      { d' with held := (part k).get d'.held } := by
    rw [h.rows, h.draws]
    exact congrArg _ (h.containers k)
  have hwrote : RowStore.Wrote (within Directory.standaloneTables) d.rows
      (Work.on (part k) work d).2.rows :=
    (hwork.wrote { d with held := (part k).get d.held }).mono fun _ _ _ _ hnew => hnew.1
  have hne : ∀ t ∈ tenancyTables, t ∉ Directory.standaloneTables := by decide
  obtain ⟨hrealms, hclients⟩ := h.remembering (.of_onlyIn hwrote.onlyIn_within hne)
  have hkeep : ∀ c u, ((part k).set c u).realms = u.realms ∧
      ((part k).set c u).clients = u.clients := by
    intro c u
    cases k <;> exact ⟨rfl, rfl⟩
  rw [Work.on, Work.on, hdesk] at *
  refine ⟨rfl, ?_, hwrote.durably_of_within hne⟩
  constructor
  · rfl
  · rfl
  · intro j
    by_cases hj : j = k
    · subst hj
      exact (coordinator_set _ _).trans (coordinator_set _ _).symm
    · exact (coordinator_set_of_ne hj _ _).trans
        ((h.containers j).trans (coordinator_set_of_ne hj _ _).symm)
  · exact (hkeep _ _).1.symm ▸ hrealms
  · exact (hkeep _ _).2.symm ▸ hclients
  · exact (hkeep _ _).1.symm ▸ h.noRealms
  · exact (hkeep _ _).2.symm ▸ h.noClients

theorem isolates_realms (request : Realms.Request α) :
    differInMemory.Isolates (Work.on realmsPart request.perform) := by
  intro d d' h
  obtain ⟨hresult, ⟨hrows, hdraws, hrealms, hnone⟩, -⟩ := request.oblivious
    { d with held := d.held.realms } { d' with held := d'.held.realms }
    ⟨h.rows, h.draws, h.realms, h.noRealms⟩
  have honly := ((request.writes (Registry.writable_within _)).wrote
    { d with held := d.held.realms }).onlyIn_within
  have hclients := h.clients.sameIn (.of_onlyIn honly (by decide))
  refine ⟨hresult, ⟨hrows, hdraws, fun k => ?_, hrealms, hclients, hnone, h.noClients⟩, ?_⟩
  · have hsame := h.containers k
    cases k <;> exact hsame
  · exact (request.writes (Registry.writable_durably _ _)).wrote { d with held := d.held.realms }

theorem isolates_clients {r : String} (request : Clients.Request r α) :
    differInMemory.Isolates (Work.on clientsPart request.perform) := by
  intro d d' h
  obtain ⟨hresult, ⟨hrows, hdraws, hclients, hnone⟩, -⟩ := request.oblivious
    { d with held := d.held.clients } { d' with held := d'.held.clients }
    ⟨h.rows, h.draws, h.clients, h.noClients⟩
  have honly := ((request.writes (Registry.writable_within _)).wrote
    { d with held := d.held.clients }).onlyIn_within
  have hrealms := h.realms.sameIn Realms.reads_answer (.of_onlyIn honly (by decide))
  refine ⟨hresult, ⟨hrows, hdraws, fun k => ?_, hrealms, hclients, h.noRealms, hnone⟩, ?_⟩
  · have hsame := h.containers k
    cases k <;> exact hsame
  · exact (request.writes (Registry.writable_durably _ _)).wrote { d with held := d.held.clients }

theorem heldIndependent_removeUsers (r : String) :
    HeldIndependent (within Users.registry.tables) (Users.removeAll r) := by
  refine .bind (HeldIndependent.modifyHeld _) fun _ => HeldIndependent.update ?_
  exact Users.writes_deleteAll (Registry.writable_within _) r

theorem isolates_sessions {work : Work SessionCache α}
    (h : HeldIndependent (within UserSessions.sessionTables) work) :
    differInMemory.Isolates (Work.on userSessionsPart work) :=
  isolates_elsewhere h (by decide) fun _ _ => ⟨rfl, rfl, fun k => by cases k <;> rfl⟩

theorem isolates_deleteContainer (k : ContainerKind) (r : String) :
    differInMemory.Isolates (Work.on (part k) (Coordinator.delete r)) :=
  isolates_container ((Coordinator.Request.delete (k := k)).standalone r)

theorem isolates_deletePartition {t : Table} (ht : t ∈ Directory.standaloneTables) (r : String) :
    differInMemory.Isolates (liftM (Update.deletePartition t r) : Work UnitOfWork Nat) := by
  have hwithin : Update.Writes (within Directory.standaloneTables) (Update.deletePartition t r) :=
    Update.writes_deletePartition fun _ _ _ => ht
  exact isolates_update hwithin (by decide)

theorem isolates_removeClient (realm : Realm) (id : String) :
    differInMemory.Isolates (removeClient realm id) := by
  refine .bind (isolates_clients (r := realm.id) (.findById id)) fun found => ?_
  cases found with
  | none => exact .pure false
  | some client =>
    have hroles : Directory.WritesStandalone (Roles.removeClientRoles realm.id id) :=
      (Coordinator.Editing.update (k := .roles) realm.id _).writes
    refine .bind (isolates_container (k := .roles) hroles) fun _ => ?_
    refine .bind (isolates_sessions (UserSessions.heldIndependent_detachClientEverywhere realm id)) ?_
    exact fun _ => isolates_clients (r := realm.id) (.remove id)

theorem isolates_removeRealm (r : String) : differInMemory.Isolates (removeRealm r) := by
  refine .bind (isolates_realms (.findById r)) fun found => ?_
  cases found with
  | none => exact .pure false
  | some realm =>
    refine .bind (isolates_sessions (UserSessions.heldIndependent_removeAll r)) fun _ => ?_
    refine .bind (isolates_deletePartition (t := .authSessions) (by decide) r) fun _ => ?_
    refine .bind (isolates_deletePartition (t := .loginFailures) (by decide) r) fun _ => ?_
    refine .bind (isolates_elsewhere (heldIndependent_removeUsers r) (by decide) ?_) fun _ => ?_
    · exact fun _ _ => ⟨rfl, rfl, fun k => by cases k <;> rfl⟩
    refine .bind (isolates_clients (r := r) .removeAll) fun _ => ?_
    refine .bind (isolates_deleteContainer .roles r) fun _ => ?_
    refine .bind (isolates_deleteContainer .groups r) fun _ => ?_
    refine .bind (isolates_deleteContainer .clientScopes r) fun _ => ?_
    exact .bind (isolates_realms (.remove r)) fun _ => .pure true

theorem isolates_closing (k : ContainerKind) :
    differInMemory.Isolates (liftM (closing (part k)) : Work UnitOfWork Unit) := by
  have hclosed : Directory.WritesStandalone
      (Work.modifyHeld Coordinator.closed : Work (Coordinator (Container k)) Unit) :=
    Work.writes_modifyHeld _
  exact isolates_container hclosed

theorem isolates_completing (k : ContainerKind) : differInMemory.Isolates (completing (part k)) := by
  intro d d' hd
  have hflush : differInMemory.Isolates (Work.on (part k) Coordinator.flush) :=
    isolates_container (Work.writes_of_wrote fun _ => Coordinator.wrote_flush
      (Coordinator.puts_of_container fun tenant _ => Container.puts_standalone k tenant))
  obtain ⟨hresult, hshared, hspared⟩ := hflush d d' hd
  obtain ⟨-, hshared', hspared'⟩ := isolates_closing k _ _ hshared
  exact ⟨congrArg (Except.map fun _ => ()) hresult, hshared', hspared.trans hspared'⟩

theorem isolates_commit : differInMemory.Isolates commit :=
  isolates_commit_of isolates_completing isolates_closing

namespace Tenancy

inductive Request : Type → Type 1
  | realms {α : Type} (request : Realms.Request α) : Request α
  | clients {α : Type} {realmId : String} (request : Clients.Request realmId α) : Request α
  | removeClient (realm : Realm) (id : String) : Request Bool
  | removeRealm (id : String) : Request Bool
  | commit : Request Unit

def Request.perform : Request α → Work UnitOfWork α
  | realms request => Work.on realmsPart request.perform
  | clients request => Work.on clientsPart request.perform
  | removeClient realm id => UnitOfWork.removeClient realm id
  | removeRealm id => UnitOfWork.removeRealm id
  | commit => UnitOfWork.commit

theorem Request.isolates (request : Request α) : differInMemory.Isolates request.perform := by
  cases request with
  | realms request => exact isolates_realms request
  | clients request => exact isolates_clients request
  | removeClient realm id => exact isolates_removeClient realm id
  | removeRealm id => exact isolates_removeRealm id
  | commit => exact isolates_commit

abbrev Event : Type 1 := Alone.Event Request

def step (d : Desk UnitOfWork) (event : Event) : Desk UnitOfWork := Alone.step Request.perform d event

def run (d : Desk UnitOfWork) (events : List Event) : Desk UnitOfWork :=
  Alone.run Request.perform d events

end Tenancy

theorem DifferInMemory.at_time (h : DifferInMemory d d') (hs : LastingIn tenancyTables d.rows)
    (now : Int) :
    DifferInMemory { d with rows := { d.rows with now } } { d' with rows := { d'.rows with now } } := by
  obtain ⟨hrealms, hclients⟩ := h.remembering
    (s := { d.rows with now }) ⟨fun _ _ => rfl, .inr hs⟩
  have hrows : ({ d.rows with now } : RowStore) = { d'.rows with now } := by rw [h.rows]
  exact ⟨hrows, h.draws, h.containers, hrealms, hclients, h.noRealms, h.noClients⟩

theorem DifferInMemory.step {event : Tenancy.Event} (h : DifferInMemory d d')
    (hs : LastingIn tenancyTables d.rows ∨ event.Asks) :
    DifferInMemory (Tenancy.step d event) (Tenancy.step d' event) := by
  cases event with
  | request request => exact (request.isolates d d' h).2.1
  | advance millis =>
    -- Nothing that is remembered ends while time passes.
    have hlasting := hs.resolve_right fun hasks => hasks
    have hlater := h.at_time hlasting (d.rows.now + millis)
    simp only [Tenancy.step, Alone.step, ← h.rows]
    rwa [← h.rows] at hlater

theorem DifferInMemory.lastingIn_step {event : Tenancy.Event} (h : DifferInMemory d d')
    (hs : LastingIn tenancyTables d.rows) : LastingIn tenancyTables (Tenancy.step d event).rows := by
  cases event with
  | request request => exact hs.wrote (request.isolates d d' h).2.2
  | advance millis => exact hs

theorem DifferInMemory.run {events : List Tenancy.Event} (h : DifferInMemory d d')
    (hs : LastingIn tenancyTables d.rows ∨ ∀ event ∈ events, event.Asks) :
    DifferInMemory (Tenancy.run d events) (Tenancy.run d' events) := by
  rcases hs with hs | hasks
  · have hstep : ∀ event ∈ events, ∀ {d d' : Desk UnitOfWork},
        DifferInMemory d d' ∧ LastingIn tenancyTables d.rows →
          DifferInMemory (Tenancy.step d event) (Tenancy.step d' event) ∧
            LastingIn tenancyTables (Tenancy.step d event).rows :=
      fun _ _ {_ _} h => ⟨h.1.step (.inl h.2), h.1.lastingIn_step h.2⟩
    exact (Alone.related_run hstep ⟨h, hs⟩).1
  · exact Alone.related_run (fun event hevent {_ _} h => h.step (.inr (hasks event hevent))) h

theorem differInMemory_start (rows : RowStore) (draws : Draws) (id : String) (linearizable : Bool) :
    DifferInMemory ⟨rows, draws, start id linearizable true⟩
      ⟨rows, draws, start id linearizable false⟩ where
  rows := rfl
  draws := rfl
  containers k := by cases k <;> rfl
  realms := (QueryCache.blank_started true).faithful _ rows
  clients :=
    ⟨(QueryCache.blank_started true).faithful _ rows, (QueryCache.blank_started true).faithful _ rows⟩
  noRealms := rfl
  noClients := ⟨rfl, rfl⟩

/-- With and without a memory, a unit of work that has the store to itself gives the same answers and
errors about realms and clients and leaves the same rows, those that a commit writes included. Only
rows with a deadline, which neither realms nor clients are ever given, could end while time passes. -/
theorem answers_agree {rows : RowStore} (draws : Draws) (id : String) (linearizable : Bool)
    (events : List Tenancy.Event)
    (h : LastingIn tenancyTables rows ∨ ∀ event ∈ events, event.Asks) :
    let d := Tenancy.run ⟨rows, draws, start id linearizable true⟩ events
    let d' := Tenancy.run ⟨rows, draws, start id linearizable false⟩ events
    d.rows = d'.rows ∧ d.draws = d'.draws ∧ (∀ k, d.held.coordinator k = d'.held.coordinator k) ∧
      ∀ {α : Type} (request : Tenancy.Request α), (request.perform d).1 = (request.perform d').1 ∧
        (request.perform d).2.rows = (request.perform d').2.rows := by
  intro d d'
  have hdiffer : DifferInMemory d d' := (differInMemory_start rows draws id linearizable).run h
  refine ⟨hdiffer.rows, hdiffer.draws, hdiffer.containers, fun request => ?_⟩
  obtain ⟨hresult, hafter, -⟩ := request.isolates d d' hdiffer
  exact ⟨hresult, hafter.rows⟩

namespace Tenancy

def realm : Realm := { id := "r\x1f", name := "n" }

def removal : List Event :=
  [.request (.realms (.create (some realm.id) realm.name)),
    .request (.realms (.findByName realm.name)),
    .request (.clients (.create "app" : Clients.Request realm.id Client)),
    .request (.clients (.findByClientId "app" : Clients.Request realm.id (Option Client))),
    .request (.clients (.create "app" : Clients.Request realm.id Client)),
    .advance 7200000,
    .request (.removeClient realm (Identifier.hyphenated 0))]

end Tenancy

theorem answers_agree_after_removal :
    let request : Tenancy.Request (Option Client) :=
      .clients (.findByClientId "app" : Clients.Request Tenancy.realm.id (Option Client))
    let run := fun caching => Tenancy.run ⟨.empty 0, { value := fun n => n }, start "u" true caching⟩
    let before := Tenancy.removal.dropLast
    (request.perform (run true before)).1 =
        .ok (some { realmId := Tenancy.realm.id, id := Identifier.hyphenated 0, clientId := "app",
                    enabled := true }) ∧
      (request.perform (run false Tenancy.removal)).1 = .ok none ∧
      (request.perform (run true Tenancy.removal)).1 = .ok none := by
  intro request run before
  have h := answers_agree { value := fun n => n } "u" true Tenancy.removal
    (.inl (RowStore.lastingIn_empty tenancyTables 0))
  have hgone : (request.perform (run false Tenancy.removal)).1 = .ok none := by decide +kernel
  exact ⟨by decide +kernel, hgone, (h.2.2.2 request).1.trans hgone⟩

end IdentityDirectory.UnitOfWork
