import IdentityDirectory.Proofs.Work.Laws
import IdentityDirectory.QueryCache
import IdentityDirectory.UnitOfWork

/-!
What work leaves true of the rows, and any number of units of work over one store, whose calls may
come in any order, with sweeps and moves of the clock in between. Main statements:
`Work.Keeps.bind`, `Work.Keeps.countTrue` and `World.keeps_run`.
-/

namespace IdentityDirectory

variable {α β σ τ : Type}

/-- Work keeps `I` true of the rows, also where it fails, and its results satisfy `Q`. -/
def Work.Keeps (I : RowStore → Prop) (work : Work σ α) (Q : α → Prop) : Prop :=
  ∀ d, I d.rows → I (work d).2.rows ∧ ∀ a, (work d).1 = .ok a → Q a

namespace Work.Keeps

variable {I : RowStore → Prop} {Q R : α → Prop}

theorem pure {a : α} (h : Q a) : Keeps I (pure a : Work σ α) Q := by
  intro d hd
  refine ⟨hd, fun b hb => ?_⟩
  rw [Work.pure_apply] at hb
  exact Except.ok.inj hb ▸ h

theorem throw (e : StoreError) : Keeps I (throw e : Work σ α) Q := by
  intro d hd
  refine ⟨hd, fun a ha => ?_⟩
  rw [Work.throw_apply] at ha
  cases ha

theorem bind {work : Work σ α} {S : β → Prop} {f : α → Work σ β} (h : Keeps I work Q)
    (hf : ∀ a, Q a → Keeps I (f a) S) : Keeps I (work >>= f) S := by
  intro d hd
  obtain ⟨hrows, hres⟩ := h d hd
  cases hw : work d with
  | mk result d' =>
    rw [hw] at hrows hres
    cases result with
    | ok a =>
      rw [Work.bind_of_ok hw]
      exact hf a (hres a rfl) d' hrows
    | error e =>
      rw [Work.bind_of_error hw]
      exact ⟨hrows, fun b hb => by cases hb⟩

theorem map {work : Work σ α} {S : β → Prop} {f : α → β} (h : Keeps I work Q)
    (hf : ∀ a, Q a → S (f a)) : Keeps I (f <$> work) S :=
  h.bind fun a ha => Keeps.pure (hf a ha)

theorem discard {work : Work σ α} (h : Keeps I work Q) :
    Keeps I (Functor.discard work) fun _ => True :=
  h.map fun _ _ => trivial

theorem query {q : Query α} (h : ∀ s, I s → ∀ a, q s = .ok a → Q a) :
    Keeps I (liftM q : Work σ α) Q :=
  fun d hd => ⟨hd, fun a ha => h d.rows hd a ha⟩

theorem update {u : Update α} (h : ∀ s, I s → I (u s).2 ∧ ∀ a, (u s).1 = .ok a → Q a) :
    Keeps I (liftM u : Work σ α) Q :=
  fun d hd => h d.rows hd

theorem modifyHeld (f : σ → σ) : Keeps I (Work.modifyHeld f) fun _ => True :=
  fun _ hd => ⟨hd, fun _ _ => trivial⟩

theorem on {part : Part σ τ} {work : Work τ α} (h : Keeps I work Q) :
    Keeps I (Work.on part work) Q :=
  fun _ hd => h _ hd

theorem forM {act : α → Work σ Unit} {l : List α}
    (h : ∀ a ∈ l, Keeps I (act a) fun _ => True) : Keeps I (l.forM act) fun _ => True := by
  induction l with
  | nil => exact Keeps.pure trivial
  | cons a l ih =>
    have hrest := ih fun b hb => h b (List.mem_cons_of_mem _ hb)
    exact (h a List.mem_cons_self).bind fun _ _ => hrest

theorem countTrue {act : α → Work σ Bool} {l : List α}
    (h : ∀ a ∈ l, Keeps I (act a) fun _ => True) :
    Keeps I (Work.countTrue act l) fun _ => True := by
  induction l with
  | nil => exact Keeps.pure trivial
  | cons a l ih =>
    have hrest := ih fun b hb => h b (List.mem_cons_of_mem _ hb)
    exact (h a List.mem_cons_self).bind fun _ _ => hrest.bind fun _ _ => Keeps.pure trivial

end Work.Keeps

instance decidableEqExcept {ε : Type} [DecidableEq ε] [DecidableEq α] : DecidableEq (Except ε α)
  | .ok a, .ok b => decidable_of_iff (a = b) (by rw [Except.ok.injEq])
  | .error e, .error f => decidable_of_iff (e = f) (by rw [Except.error.injEq])
  | .ok _, .error _ => .isFalse nofun
  | .error _, .ok _ => .isFalse nofun

structure World where
  linearizable : Bool
  caching : Bool
  rows : RowStore
  draws : Draws
  units : Nat → UnitOfWork

namespace World

def opened (linearizable caching : Bool) (now : Int) (draws : Draws) : World where
  linearizable := linearizable
  caching := caching
  rows := .empty now
  draws := draws
  units _ := .start "" linearizable caching

def desk (w : World) (unit : Nat) : Desk UnitOfWork := ⟨w.rows, w.draws, w.units unit⟩

def setUnit (w : World) (unit : Nat) (u : UnitOfWork) : World :=
  { w with units := fun v => if v = unit then u else w.units v }

def afterDesk (w : World) (unit : Nat) (d : Desk UnitOfWork) : World :=
  { w with rows := d.rows, draws := d.draws }.setUnit unit d.held

def call (w : World) (unit : Nat) (work : Work UnitOfWork α) : World :=
  w.afterDesk unit (work (w.desk unit)).2

def resultOf (w : World) (unit : Nat) (work : Work UnitOfWork α) : Except StoreError α :=
  (work (w.desk unit)).1

@[simp] theorem desk_afterDesk (w : World) (unit : Nat) (d : Desk UnitOfWork) :
    (w.afterDesk unit d).desk unit = d := by
  rw [desk, afterDesk, setUnit]
  simp only [if_pos]

@[simp] theorem units_afterDesk (w : World) (unit : Nat) (d : Desk UnitOfWork) :
    (w.afterDesk unit d).units unit = d.held :=
  congrArg Desk.held (w.desk_afterDesk unit d)

inductive Event (ω : Type) where
  | start (unit : Nat)
  | call (unit : Nat) (operation : ω)
  | sweep
  | advance (millis : Nat)

variable {ω : Type} (perform : ω → Work UnitOfWork Unit)

def step (w : World) : Event ω → World
  | .start unit => w.setUnit unit (.start "" w.linearizable w.caching)
  | .call unit operation => w.call unit (perform operation)
  | .sweep => { w with rows := w.rows.sweep.2 }
  | .advance millis => { w with rows := { w.rows with now := w.rows.now + millis } }

def run (w : World) (events : List (Event ω)) : World := events.foldl (step perform) w

def Event.Forall (P : ω → Prop) : Event ω → Prop
  | call _ operation => P operation
  | start _ | sweep | advance _ => True

instance {P : ω → Prop} [DecidablePred P] : (e : Event ω) → Decidable (e.Forall P)
  | .call _ operation => inferInstanceAs (Decidable (P operation))
  | .start _ | .sweep | .advance _ => inferInstanceAs (Decidable True)

theorem keeps_run {I : RowStore → Prop} {P : ω → Prop}
    (hop : ∀ op, P op → Work.Keeps I (perform op) fun _ => True)
    (hsweep : ∀ s, I s → I s.sweep.2)
    (hadvance : ∀ s (millis : Nat), I s → I { s with now := s.now + millis })
    {events : List (Event ω)} (hevents : ∀ e ∈ events, e.Forall P) {w : World} (hw : I w.rows) :
    I (w.run perform events).rows := by
  induction events generalizing w with
  | nil => exact hw
  | cons e events ih =>
    have hrest := fun f hf => hevents f (List.mem_cons_of_mem _ hf)
    have he : e.Forall P := hevents e List.mem_cons_self
    have hstep : I (w.step perform e).rows := by
      cases e with
      | start unit => exact hw
      | call unit op => exact (hop op he (w.desk unit) hw).1
      | sweep => exact hsweep w.rows hw
      | advance millis => exact hadvance w.rows millis hw
    exact ih hrest hstep

end World

end IdentityDirectory
