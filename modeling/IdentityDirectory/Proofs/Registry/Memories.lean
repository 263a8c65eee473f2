import IdentityDirectory.Proofs.Registry.Lookups

/-!
Runs in which units of work change users and remember what they have asked about them. Main
statements: an answer that is not stale is what the rows give (`resultOf_of_not_stale`), and every
run of valid changes upholds what the registries need (`Upheld.runCalls`).
-/

namespace IdentityDirectory

namespace Registries

variable {strict : String → Prop} {s : RowStore}

inductive Question where
  | byId (realmId id : String)
  | byUsername (realmId username : String)
  | byEmail (realm : Realm) (email : String)
  | byAttribute (realmId name value : String)
  | all (realmId : String)

inductive Call where
  | change (op : Operation)
  | ask (question : Question)

open UnitOfWork (usersPart)

def Question.perform : Question → Work UnitOfWork Unit
  | byId realmId id => Work.on usersPart (discard (Users.findById realmId id))
  | byUsername realmId username => Work.on usersPart (discard (Users.findByUsername realmId username))
  | byEmail realm email => Work.on usersPart (discard (Users.findByEmail realm email))
  | byAttribute realmId name value =>
    Work.on usersPart (discard (Users.findByAttribute realmId name value))
  | all realmId => Work.on usersPart (discard (Users.all realmId))

def Call.perform : Call → Work UnitOfWork Unit
  | change op => op.perform
  | ask question => question.perform

def Call.Valid (s : RowStore) (drawn : String) : Call → Prop
  | change op => op.Valid s drawn
  | ask _ => True

instance (s : RowStore) (drawn : String) : (call : Call) → Decidable (call.Valid s drawn)
  | .change op => inferInstanceAs (Decidable (op.Valid s drawn))
  | .ask _ => inferInstanceAs (Decidable True)

def ProperCalls (w : World) : List (World.Event Call) → Prop
  | [] => True
  | e :: events =>
    e.Forall (·.Valid w.rows (drawn w)) ∧ ProperCalls (w.step Call.perform e) events

instance decidableProperCalls (w : World) :
    (events : List (World.Event Call)) → Decidable (ProperCalls w events)
  | [] => inferInstanceAs (Decidable True)
  | e :: events =>
    have : Decidable (ProperCalls (w.step Call.perform e) events) := decidableProperCalls _ events
    inferInstanceAs (Decidable (_ ∧ _))

def Operation.ChangesUsers : Operation → Prop
  | createUser .. | updateUser .. | removeUser .. | removeUsers _ | joinGroup .. | leaveGroup ..
  | grantRole .. | revokeRole .. | addRequiredAction .. | removeRequiredAction ..
  | setAttribute .. | removeAttribute .. => True
  | createRealm .. | updateRealm _ | removeRealm _ | createClient .. | updateClient _
  | removeClient .. | removeClients _ => False

def memory (w : World) (unit : Nat) : QueryCache UserLookup (Option User) :=
  (w.units unit).users.lookups

/-- What a unit remembers of a question is not what the rows give now. -/
def Stale (w : World) (unit : Nat) (key : UserLookup) (load : Query (Option User)) : Prop :=
  ∃ remembered, (memory w unit).find? key = some remembered ∧ load w.rows ≠ .ok remembered

theorem resultOf_of_not_stale {w : World} {unit : Nat} {key : UserLookup}
    {load : Query (Option User)} (h : ¬ Stale w unit key load) :
    w.resultOf unit (Work.on usersPart (Work.cached Users.lookups key load)) = load w.rows := by
  let d : Desk UserCache := ⟨w.rows, w.draws, (w.units unit).users⟩
  cases hmem : (memory w unit).find? key with
  | none => exact Work.cached_of_none Users.lookups (d := d) hmem load
  | some v =>
    have hload : load w.rows = .ok v :=
      Decidable.byContradiction fun hne => h ⟨v, hmem, hne⟩
    rw [hload]
    exact Work.cached_of_some Users.lookups (d := d) hmem load

theorem rows_cached {σ τ κ ν : Type} [BEq κ] (part : Part σ τ) (memory : Part τ (QueryCache κ ν))
    (key : κ) (load : Query ν) (d : Desk σ) :
    (Work.on part (discard (Work.cached memory key load)) d).2.rows = d.rows := by
  have hdesk := Work.discard_desk (Work.cached memory key load) { d with held := part.get d.held }
  have hrows := congrArg Desk.rows hdesk
  exact hrows

theorem rows_ask (question : Question) (d : Desk UnitOfWork) :
    (question.perform d).2.rows = d.rows := by
  cases question <;> exact rows_cached usersPart _ _ _ d

theorem Upheld.callOf {w : World} (h : Upheld strict w.rows) {call : Call}
    (hv : call.Valid w.rows (drawn w)) (hstrict : ∀ r, ¬ strict r) (unit : Nat) :
    Upheld strict (w.call unit call.perform).rows := by
  cases call with
  | change op => exact (h.call hv (fun r hr => absurd hr (hstrict r)) unit).upheld
  | ask question =>
    have hrows : (w.call unit (Call.ask question).perform).rows = w.rows :=
      rows_ask question (w.desk unit)
    rw [hrows]
    exact h

theorem Upheld.stepCall {w : World} (h : Upheld strict w.rows) (hstrict : ∀ r, ¬ strict r)
    {e : World.Event Call} (hv : e.Forall (·.Valid w.rows (drawn w))) :
    Upheld strict (w.step Call.perform e).rows := by
  cases e with
  | start unit => exact h
  | call unit call => exact h.callOf hv hstrict unit
  | sweep => exact h.sweep
  | advance millis => exact h.later (by omega)

theorem Upheld.runCalls {w : World} (h : Upheld strict w.rows) (hstrict : ∀ r, ¬ strict r)
    {events : List (World.Event Call)} (hv : ProperCalls w events) :
    Upheld strict (w.run Call.perform events).rows := by
  induction events generalizing w with
  | nil => exact h
  | cons e events ih =>
    obtain ⟨hvalid, hrest⟩ := hv
    exact ih (h.stepCall hstrict hvalid) hrest

end Registries

end IdentityDirectory
