import IdentityDirectory.Proofs.Directory.Ahead

/-!
Runs with and without the calls that a unit of work was refused. A refused call changes no row and no
mark, but the container that it looked at is held from then on: it is written back if its tenant was
marked before, and is not loaded again when somebody else changes the row. Main statements:
`Request.refused`, `Omission.Alike.step` and `refusals_unnoticed`.
-/

namespace IdentityDirectory.UnitOfWork

variable {α : Type} {k : ContainerKind} {realm : Realm} {tenant : String} {d d' : Desk UnitOfWork}

structure Refused (tenant : String) (d d' : Desk UnitOfWork) : Prop where
  containers : ∀ k, Coordinator.Refused tenant { d with held := d.held.coordinator k }
    { d' with held := d'.held.coordinator k }
  memory : SameMemory d'.held d.held

theorem refused_on {work : Work (Coordinator (Container k)) α}
    (h : Coordinator.Refused tenant { d with held := d.held.coordinator k }
      (work { d with held := d.held.coordinator k }).2) :
    Refused tenant d (Work.on (part k) work d).2 := by
  cases hw : work { d with held := d.held.coordinator k } with
  | mk result e =>
    obtain ⟨s, draws, c⟩ := e
    rw [hw] at h
    rw [Work.on_of_eq (part k) hw]
    obtain rfl : s = d.rows := h.rows
    constructor
    · intro j
      by_cases hj : j = k
      · subst hj
        simp only [coordinator_set]
        exact h
      · simp only [coordinator_set_of_ne hj]
        exact ⟨rfl, h.draws, .refl _ _, fun _ _ => rfl⟩
    · cases k <;> exact ⟨rfl, rfl, rfl, rfl⟩

theorem Request.refused {request : Request realm α} (h : request.canRefuse = true) {e : StoreError}
    (he : (request.perform d).1 = .error e) : Refused realm.id d (request.perform d).2 := by
  cases request with unfold Request.perform at he ⊢
  | roles request => exact refused_on (k := .roles) ((request.attempt h realm.id).refused he)
  | groups request => exact refused_on (k := .groups) ((request.attempt h realm.id).refused he)
  | clientScopes request =>
    exact refused_on (k := .clientScopes) ((request.attempt h realm.id).refused he)
  | _ => cases h

theorem Call.refused {call : Call α} (h : call.canRefuse = true) {e : StoreError}
    (he : (call.perform d).1 = .error e) :
    ∃ tenant, Refused tenant d (call.perform d).2 := by
  cases call with
  | ask request => exact ⟨_, request.refused h he⟩
  | _ => cases h

/-- After a call about one tenant everything is as before, but that its container may be held. -/
structure Untouched (tenant : String) (d d' : Desk UnitOfWork) : Prop where
  rows : d'.rows = d.rows
  memory : SameMemory d'.held d.held
  changed : ∀ k, (d'.held.coordinator k).changed = (d.held.coordinator k).changed
  deleted : ∀ k, (d'.held.coordinator k).deleted = (d.held.coordinator k).deleted
  reads : ∀ k t {β : Type} (f : Container k → β),
    (Work.on (part k) (Coordinator.read t f) d').1 = (Work.on (part k) (Coordinator.read t f) d).1
  pendingWrites : ∀ k, (tenant ∈ (d.held.coordinator k).changed →
      tenant ∈ (d.held.coordinator k).deleted ∨ tenant ∈ (d.held.coordinator k).loaded) →
    (d'.held.coordinator k).pendingWrites = (d.held.coordinator k).pendingWrites

theorem Refused.untouched (h : Refused tenant d d') : Untouched tenant d d' where
  rows := (h.containers .roles).rows
  memory := h.memory
  changed k := (h.containers k).ahead.changed
  deleted k := (h.containers k).ahead.deleted
  reads k t _ f := (h.containers k).result_read t f
  pendingWrites k hheld :=
    (h.containers k).ahead.pendingWrites_of_even ((h.containers k).even hheld)

theorem Refused.ahead (h : Refused tenant d d') : Ahead d' { d with draws := d'.draws } where
  rows := (h.containers .roles).rows
  draws := rfl
  containers k := by
    have hahead := (h.containers k).ahead
    rw [show d'.rows = d.rows from (h.containers k).rows]
    exact hahead
  memory := h.memory

/-- The rows stay from which only the first has loaded. -/
def Stays (u u' : UnitOfWork) (s s' : RowStore) : Prop :=
  ∀ k, ∀ t ∈ (u.coordinator k).loaded.keys, t ∉ (u'.coordinator k).loaded →
    s'.get k.table (Coordinator.key t) = s.get k.table (Coordinator.key t)

instance (u u' : UnitOfWork) (s s' : RowStore) : Decidable (Stays u u' s s') :=
  inferInstanceAs (Decidable (∀ k, ∀ t ∈ (u.coordinator k).loaded.keys,
    t ∉ (u'.coordinator k).loaded →
      s'.get k.table (Coordinator.key t) = s.get k.table (Coordinator.key t)))

theorem Ahead.at_rows {s : RowStore} (h : Ahead d d') (draws : Draws)
    (hs : Stays d.held d'.held d.rows s) : Ahead ⟨s, draws, d.held⟩ ⟨s, draws, d'.held⟩ where
  rows := rfl
  draws := rfl
  containers k := (h.containers k).at_rows fun t hnone hsome => by
    apply Coordinator.stored_of_get
    refine hs k t (StringMap.mem_keys_iff.mpr hsome) fun hmem => ?_
    rw [StringMap.mem_iff, hnone] at hmem
    cases hmem
  memory := h.memory

namespace Omission

inductive Event : Type 1 where
  | call {α : Type} (unit : Nat) (call : Call α)
  | start (unit : Nat)
  | sweep
  | advance (millis : Nat)
  | draw (count : Nat)

def step (w : World) : Event → World
  | .call unit call => w.call unit call.perform
  | .start unit => w.setUnit unit (.start "" w.linearizable w.caching)
  | .sweep => { w with rows := w.rows.sweep.2 }
  | .advance millis => { w with rows := { w.rows with now := w.rows.now + millis } }
  | .draw count => { w with draws := { w.draws with next := w.draws.next + count } }

def run (w : World) (events : List Event) : World := events.foldl step w

def refuses (unit : Nat) (w : World) : Event → Bool
  | .call v call => v = unit && call.canRefuse && !(w.resultOf v call.perform).isOk
  | _ => false

/-- In place of a call that refused, no more is done than that its identifiers are drawn. -/
def spare (unit : Nat) (w : World) (event : Event) : Event :=
  if refuses unit w event then .draw ((step w event).draws.next - w.draws.next) else event

def without (unit : Nat) (w : World) : List Event → List Event
  | [] => []
  | event :: events => spare unit w event :: without unit (step w event) events

/-- Nothing is done that lets on which containers a unit of work holds in the first world only: it goes
by none of them where it writes back, and nobody else changes their rows. -/
def Discreet (unit : Nat) (w w' : World) : Event → Prop
  | .call v call =>
    if v = unit then call.EvenFor (w.units v) (w'.units v)
    else Stays (w.units unit) (w'.units unit) w.rows (w.call v call.perform).rows
  | event => Stays (w.units unit) (w'.units unit) w.rows (step w event).rows

instance (unit : Nat) (w w' : World) : (event : Event) → Decidable (Discreet unit w w' event)
  | .call v _ => inferInstanceAs (Decidable (if v = unit then _ else _))
  | .start _ | .sweep | .advance _ | .draw _ => inferInstanceAs (Decidable (Stays _ _ _ _))

def Throughout (unit : Nat) (P : World → World → Event → Prop) : World → World → List Event → Prop
  | _, _, [] => True
  | w, w', event :: events => P w w' (spare unit w event) ∧
      Throughout unit P (step w event) (step w' (spare unit w event)) events

instance decidableThroughout {unit : Nat} {P : World → World → Event → Prop}
    [∀ w w' event, Decidable (P w w' event)] (w w' : World) :
    (events : List Event) → Decidable (Throughout unit P w w' events)
  | [] => inferInstanceAs (Decidable True)
  | event :: events =>
    have : Decidable (Throughout unit P (step w event) (step w' (spare unit w event)) events) :=
      decidableThroughout _ _ events
    inferInstanceAs (Decidable (P w w' (spare unit w event) ∧ Throughout unit P _ _ events))

def AnsweredAlike (w w' : World) : Event → Prop
  | .call v call => w.resultOf v call.perform = w'.resultOf v call.perform
  | _ => True

structure Alike (unit : Nat) (w w' : World) : Prop where
  linearizable : w.linearizable = w'.linearizable
  caching : w.caching = w'.caching
  ahead : Ahead (w.desk unit) (w'.desk unit)
  others : ∀ v, v ≠ unit → w.units v = w'.units v

variable {unit : Nat} {w w' : World} {event : Event}

theorem Alike.refl (unit : Nat) (w : World) : Alike unit w w := ⟨rfl, rfl, .refl _, fun _ _ => rfl⟩

theorem Alike.desk_eq (h : Alike unit w w') {v : Nat} (hv : v ≠ unit) : w.desk v = w'.desk v := by
  have hrows : w.rows = w'.rows := h.ahead.rows
  have hdraws : w.draws = w'.draws := h.ahead.draws
  rw [World.desk, World.desk, hrows, hdraws, h.others v hv]

theorem Alike.after (h : Alike unit w w') {d d' : Desk UnitOfWork} (hd : Ahead d d') :
    Alike unit (w.afterDesk unit d) (w'.afterDesk unit d') where
  linearizable := h.linearizable
  caching := h.caching
  ahead := by
    rw [World.desk_afterDesk, World.desk_afterDesk]
    exact hd
  others v hv := by
    simp only [World.afterDesk, World.setUnit, if_neg hv]
    exact h.others v hv

theorem Alike.beside (h : Alike unit w w') {s : RowStore} (draws : Draws)
    (hs : Stays (w.units unit) (w'.units unit) w.rows s) :
    Alike unit { w with rows := s, draws } { w' with rows := s, draws } where
  linearizable := h.linearizable
  caching := h.caching
  ahead := h.ahead.at_rows draws hs
  others := h.others

theorem Alike.refused (h : Alike unit w w') {call : Call α} (hcall : call.canRefuse = true)
    {e : StoreError} (he : w.resultOf unit call.perform = .error e) :
    Alike unit (w.call unit call.perform)
      (step w' (.draw ((w.call unit call.perform).draws.next - w.draws.next))) := by
  obtain ⟨linearizable, caching, rows, draws, units⟩ := w'
  obtain rfl : w.rows = rows := h.ahead.rows
  obtain rfl : w.draws = draws := h.ahead.draws
  obtain ⟨tenant, hrefused⟩ := Call.refused hcall he
  obtain ⟨count, hcount⟩ := (hrefused.containers .roles).draws
  have hdraws : (w.call unit call.perform).draws = { w.draws with next := w.draws.next + count } :=
    hcount
  have hdrawn : step ⟨linearizable, caching, w.rows, w.draws, units⟩
      (.draw ((w.call unit call.perform).draws.next - w.draws.next)) =
        ⟨linearizable, caching, w.rows, (w.call unit call.perform).draws, units⟩ := by
    rw [step, hdraws, Nat.add_sub_cancel_left]
  rw [hdrawn]
  constructor
  · exact h.linearizable
  · exact h.caching
  · rw [World.call, World.desk_afterDesk]
    exact hrefused.ahead.trans (h.ahead.at_rows _ fun _ _ _ _ => rfl)
  · intro v hv
    simp only [World.call, World.afterDesk, World.setUnit, if_neg hv]
    exact h.others v hv

theorem Alike.setUnit (h : Alike unit w w') {v : Nat} (u : UnitOfWork) :
    Alike unit (w.setUnit v u) (w'.setUnit v u) where
  linearizable := h.linearizable
  caching := h.caching
  ahead := by
    obtain ⟨hrows, hdraws, hcontainers, hmemory⟩ := h.ahead
    by_cases hv : unit = v
    · simp only [World.desk, World.setUnit, if_pos hv]
      rw [show w.rows = w'.rows from hrows, show w.draws = w'.draws from hdraws]
      exact .refl _
    · simp only [World.desk, World.setUnit, if_neg hv]
      exact ⟨hrows, hdraws, hcontainers, hmemory⟩
  others v' hv' := by
    simp only [World.setUnit]
    split
    · rfl
    · exact h.others v' hv'

theorem Alike.step (h : Alike unit w w') (hd : Discreet unit w w' (spare unit w event)) :
    Alike unit (step w event) (step w' (spare unit w event)) := by
  by_cases hrefuses : refuses unit w event = true
  · rw [spare, if_pos hrefuses]
    cases event with
    | call v call =>
      rw [refuses, Bool.and_eq_true, Bool.and_eq_true, decide_eq_true_eq] at hrefuses
      obtain ⟨⟨rfl, hcall⟩, hfails⟩ := hrefuses
      cases he : w.resultOf v call.perform with
      | ok a =>
        rw [he] at hfails
        cases hfails
      | error e => exact h.refused hcall he
    | _ => cases hrefuses
  · rw [spare, if_neg hrefuses] at hd ⊢
    obtain ⟨linearizable, caching, rows, draws, units⟩ := w'
    obtain rfl : w.rows = rows := h.ahead.rows
    obtain rfl : w.draws = draws := h.ahead.draws
    obtain rfl : w.linearizable = linearizable := h.linearizable
    obtain rfl : w.caching = caching := h.caching
    cases event with
    | call v call =>
      by_cases hv : v = unit
      · subst hv
        rw [Discreet, if_pos rfl] at hd
        exact h.after (call.follows h.ahead hd).2
      · rw [Discreet, if_neg hv] at hd
        rw [Omission.step, Omission.step, World.call, World.call, ← h.desk_eq hv]
        exact (h.beside (call.perform (w.desk v)).2.draws hd).setUnit _
    | start v => exact h.setUnit _
    | sweep => exact h.beside w.draws hd
    | advance millis => exact h.beside w.draws hd
    | draw count => exact h.beside _ hd

theorem Alike.answered (h : Alike unit w w') (hd : Discreet unit w w' event) :
    AnsweredAlike w w' event := by
  cases event with
  | call v call =>
    by_cases hv : v = unit
    · subst hv
      rw [Discreet, if_pos rfl] at hd
      exact (call.follows h.ahead hd).1
    · exact congrArg (fun d => (call.perform d).1) (h.desk_eq hv)
  | _ => trivial

theorem Alike.run {events : List Event} (h : Alike unit w w')
    (hd : Throughout unit (Discreet unit) w w' events) :
    Throughout unit AnsweredAlike w w' events ∧
      Alike unit (run w events) (run w' (without unit w events)) := by
  induction events generalizing w w' with
  | nil => exact ⟨trivial, h⟩
  | cons event events ih =>
    obtain ⟨hanswers, hlater⟩ := ih (h.step hd.1) hd.2
    exact ⟨⟨h.answered hd.1, hanswers⟩, hlater⟩

end Omission

open Omission

/-- An operation on roles, groups or client scopes that may refuse makes its change where the container
is held, and when it refuses it changes no row, no mark and nothing that is read later; what is to be
written back stays the same unless the tenant had been marked without its container being held. So a
run with the refused calls of a unit of work gives the same results as one without, and leaves the
same rows, as long as nothing is done that goes by the containers that those calls have loaded. -/
theorem refusals_unnoticed :
    (∀ {α : Type} {realm : Realm} (request : Request realm α), request.canRefuse = true →
      request.inPlace? = some request.perform ∧ ∀ (d : Desk UnitOfWork) (e : StoreError),
        (request.perform d).1 = .error e → Untouched realm.id d (request.perform d).2) ∧
    ∀ (unit : Nat) (w : World) (events : List Event),
      Throughout unit (Discreet unit) w w events →
      let full := run w events
      let rest := run w (without unit w events)
      Throughout unit AnsweredAlike w w events ∧ full.rows = rest.rows ∧ full.draws = rest.draws ∧
        ∀ v, v ≠ unit → full.units v = rest.units v := by
  refine ⟨fun request h => ⟨Request.inPlace?_eq h, fun d e he => ?_⟩, ?_⟩
  · exact (request.refused h he).untouched
  intro unit w events hd
  obtain ⟨hanswers, hlater⟩ := (Alike.refl unit w).run hd
  exact ⟨hanswers, hlater.ahead.rows, hlater.ahead.draws, hlater.others⟩

namespace Omission

def shop : Realm := { id := "shop" }

def misfit : Request shop Bool := .roles (.addComposite "admin" "nobody")

def add (name : String) : Request shop Role := .roles (.addRealmRole name)

def attempts : List Event :=
  [.call 0 (.ask misfit),
    .call 1 (.ask (.roles (.addRealmRole "admin") : Request { id := "desk" } Role)),
    .call 1 .commit, .sweep, .advance 1000,
    .call 0 (.ask (add "admin")), .call 0 (.ask (add "admin")), .call 0 .commit]

end Omission

theorem refusals_unnoticed_of_attempts :
    let fresh : Desk UnitOfWork := ⟨.empty 0, { value := fun n => n }, start "u" true true⟩
    let w : World := .opened true true 0 { value := fun n => n }
    let full := run w attempts
    let rest := run w (without 0 w attempts)
    Untouched "shop" fresh (misfit.perform fresh).2 ∧
      "shop" ∈ ((step w (.call 0 (.ask misfit))).units 0).roles.loaded ∧
      full.rows = rest.rows ∧ (rest.rows.containerRow .roles "shop").isSome := by
  intro fresh w full rest
  obtain ⟨hcalls, hruns⟩ := refusals_unnoticed
  have huntouched := (hcalls misfit rfl).2 fresh (.invalidArgument (.missingRole "nobody"))
    (by decide +kernel)
  obtain ⟨-, hrows, -⟩ := hruns 0 w attempts (by decide +kernel)
  exact ⟨huntouched, by decide +kernel, hrows, by decide +kernel⟩

/-- A refused call loads the container of a tenant that was marked as changed before, so that it is
written back; and of a container that it loads, the unit of work goes on to see what it was then. -/
theorem refused_call_seen_by_commit_and_read :
    let fresh : Desk UnitOfWork := ⟨.empty 0, { value := fun n => n }, start "u" true true⟩
    let d := (Work.on rolesPart (Coordinator.markChanged "shop") fresh).2
    let d' := (misfit.perform d).2
    let w : World := .opened true true 0 { value := fun n => n }
    let events : List Event :=
      [.call 0 (.ask misfit), .call 1 (.ask (add "admin")), .call 1 .commit]
    let find : Request shop (Option Role) := .roles (.getRealmRole "admin")
    (misfit.perform d).1 = .error (.invalidArgument (.missingRole "nobody")) ∧
      d.held.roles.pendingWrites = [] ∧ d'.held.roles.pendingWrites = ["shop"] ∧
      (commit d).2.rows.containerRow .roles "shop" = none ∧
      ((commit d').2.rows.containerRow .roles "shop").isSome ∧
      (run w events).resultOf 0 find.perform = .ok none ∧
      (run w (without 0 w events)).resultOf 0 find.perform =
        .ok (some { id := Identifier.hyphenated 0, name := "admin" }) := by
  intro fresh d d' w events find
  refine ⟨?_, ?_, ?_, ?_, ?_, ?_, ?_⟩ <;> decide +kernel

end IdentityDirectory.UnitOfWork
