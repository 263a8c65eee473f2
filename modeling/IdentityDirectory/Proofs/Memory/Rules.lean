import IdentityDirectory.Proofs.Isolation.Rules
import IdentityDirectory.Realm.Record

/-!
Two desks over the same rows, of which one may remember answers and the other remembers none. Main
statements: the rules by which work is seen to give the same results at both, `forgetting` and `cached`
first, and that the two stay alike over any course of requests (`Alone.memory_run`).
-/

namespace IdentityDirectory

variable {α σ : Type} {I I₀ : RowStore → σ → Prop} {blank : σ → Prop}

/-- At one desk, what is remembered and the rows satisfy `I`; at the other, what is held is blank. -/
def Boundary.memory (I : RowStore → σ → Prop) (blank : σ → Prop) : Boundary (Desk σ) where
  shared d d' := d.rows = d'.rows ∧ d.draws = d'.draws ∧ I d.rows d.held ∧ blank d'.held
  spared _ _ := True
  refl _ := trivial
  trans _ _ := trivial

/-- Work gives the same result whether or not anything is remembered. -/
abbrev Work.Oblivious (I : RowStore → σ → Prop) (blank : σ → Prop) (work : Work σ α) : Prop :=
  (Boundary.memory I blank).Isolates work

namespace Work.Oblivious

theorem query (q : Query α) : Work.Oblivious I blank (liftM q) :=
  fun _ _ hd => ⟨congrArg q hd.1, hd, trivial⟩

theorem newId : Work.Oblivious I blank Work.newId :=
  Boundary.SharesDraws.newId ⟨fun hd => hd.2.1, fun _ hd => ⟨hd.1, rfl, hd.2.2⟩, fun _ _ => trivial⟩

theorem update {u : Update α} (h : ∀ s c, I s c → I (u s).2 c) :
    Work.Oblivious I blank (liftM u) := by
  rintro d d' ⟨hrows, hdraws, hI, hblank⟩
  refine ⟨congrArg (fun s => (u s).1) hrows, ⟨congrArg (fun s => (u s).2) hrows, hdraws, ?_, hblank⟩,
    trivial⟩
  exact h d.rows d.held hI

theorem forgetting {f : σ → σ} {work : Work σ α} (hforget : ∀ s c, I s c → I₀ s (f c))
    (hblank : ∀ c, blank c → blank (f c)) (hback : ∀ s c, I₀ s c → I s c)
    (h : Work.Oblivious I₀ blank work) :
    Work.Oblivious I blank (Work.modifyHeld f >>= fun _ => work) := by
  rintro d d' ⟨hrows, hdraws, hI, hbl⟩
  have hstart : (Boundary.memory I₀ blank).shared { d with held := f d.held }
      { d' with held := f d'.held } := ⟨hrows, hdraws, hforget _ _ hI, hblank _ hbl⟩
  obtain ⟨hresult, ⟨hrows', hdraws', hI', hbl'⟩, -⟩ := h _ _ hstart
  exact ⟨hresult, ⟨hrows', hdraws', hback _ _ hI', hbl'⟩, trivial⟩

end Work.Oblivious

namespace QueryCache

variable {κ ν : Type} [BEq κ] {c : QueryCache κ ν}

theorem find?_of_disabled (h : c.enabled = false) (key : κ) : c.find? key = none := by
  rw [find?, h]
  rfl

omit [BEq κ] in
theorem remember_of_disabled (h : c.enabled = false) (key : κ) (value : ν) :
    c.remember key value = c := by
  rw [remember, h]
  rfl

end QueryCache

namespace Work

variable {κ ν : Type} [BEq κ] {p : Part σ (QueryCache κ ν)} {key : κ} {load : Query ν}
  {d d' : Desk σ} {answer : ν}

theorem cached_found (h : (p.get d.held).find? key = some answer) (load : Query ν) :
    cached p key load d = (.ok answer, d) := by
  simp only [cached, QueryCache.getOrLoad, h, p.set_get]

theorem cached_failed {e : StoreError} (h : (p.get d.held).find? key = none)
    (hload : load d.rows = .error e) : cached p key load d = (.error e, d) := by
  simp only [cached, QueryCache.getOrLoad, h, hload, p.set_get]

theorem cached_loaded (h : (p.get d.held).find? key = none) (hload : load d.rows = .ok answer) :
    cached p key load d = (.ok answer,
      { d with held := p.set ((p.get d.held).remember key answer) d.held }) := by
  simp only [cached, QueryCache.getOrLoad, h, hload]

theorem cached_of_disabled (h : (p.get d.held).enabled = false) (key : κ) (load : Query ν) :
    cached p key load d = (load d.rows, d) := by
  have hnone := QueryCache.find?_of_disabled h key
  cases hload : load d.rows with
  | error e => exact cached_failed hnone hload
  | ok answer =>
    rw [cached_loaded hnone hload, QueryCache.remember_of_disabled h, p.set_get]

theorem shared_cached (hdisabled : ∀ c, blank c → (p.get c).enabled = false)
    (hremember : ∀ s c answer, I s c → load s = .ok answer →
      I s (p.set ((p.get c).remember key answer) c))
    (h : (Boundary.memory I blank).shared d d') :
    (Boundary.memory I blank).shared (cached p key load d).2 (cached p key load d').2 := by
  obtain ⟨hrows, hdraws, hI, hblank⟩ := h
  rw [cached_of_disabled (hdisabled _ hblank)]
  cases hfind : (p.get d.held).find? key with
  | some answer =>
    rw [cached_found hfind]
    exact ⟨hrows, hdraws, hI, hblank⟩
  | none =>
    cases hload : load d.rows with
    | error e =>
      rw [cached_failed hfind hload]
      exact ⟨hrows, hdraws, hI, hblank⟩
    | ok answer =>
      rw [cached_loaded hfind hload]
      exact ⟨hrows, hdraws, hremember _ _ _ hI hload, hblank⟩

theorem cached_eq_load (hdisabled : ∀ c, blank c → (p.get c).enabled = false)
    (h : (Boundary.memory I blank).shared d d')
    (hright : ∀ answer, (p.get d.held).find? key = some answer → load d.rows = .ok answer) :
    (cached p key load d).1 = (cached p key load d').1 := by
  obtain ⟨hrows, -, -, hblank⟩ := h
  rw [cached_of_disabled (hdisabled _ hblank), ← hrows]
  cases hfind : (p.get d.held).find? key with
  | some answer => rw [cached_found hfind, hright answer hfind]
  | none => exact cached_of_none p hfind load

theorem Oblivious.cached (hdisabled : ∀ c, blank c → (p.get c).enabled = false)
    (hremember : ∀ s c answer, I s c → load s = .ok answer →
      I s (p.set ((p.get c).remember key answer) c))
    (hright : ∀ s c answer, I s c → (p.get c).find? key = some answer → load s = .ok answer) :
    Work.Oblivious I blank (Work.cached p key load) := fun d _ hd =>
  ⟨cached_eq_load hdisabled hd fun answer => hright d.rows d.held answer hd.2.2.1,
    shared_cached hdisabled hremember hd, trivial⟩

end Work

namespace Alone

universe u

variable {ρ : Type → Type u}

/-- What happens while a worker has the store to itself. -/
inductive Event (ρ : Type → Type u) : Type (max 1 u) where
  | request {α : Type} (request : ρ α)
  | advance (millis : Nat)

def Event.Asks : Event ρ → Prop
  | request _ => True
  | advance _ => False

variable (perform : ∀ {α : Type}, ρ α → Work σ α)

def step (d : Desk σ) : Event ρ → Desk σ
  | .request request => (perform request d).2
  | .advance millis => { d with rows := { d.rows with now := d.rows.now + millis } }

def run (d : Desk σ) (events : List (Event ρ)) : Desk σ := events.foldl (step perform) d

abbrev InRealm (ρ : Type → Type u) (α : Type) : Type u := Realm × ρ α

variable {perform} {S : Desk σ → Desk σ → Prop} {d d' : Desk σ}

theorem related_run {events : List (Event ρ)}
    (hstep : ∀ event ∈ events, ∀ {d d'}, S d d' → S (step perform d event) (step perform d' event))
    (h : S d d') : S (run perform d events) (run perform d' events) := by
  induction events generalizing d d' with
  | nil => exact h
  | cons event events ih =>
    refine ih (fun later hlater => hstep later (List.mem_cons_of_mem _ hlater)) ?_
    exact hstep event List.mem_cons_self h

theorem memory_run
    (hrequest : ∀ {α : Type} (request : ρ α) {d d' : Desk σ},
      (Boundary.memory I blank).shared d d' →
        (Boundary.memory I blank).shared (perform request d).2 (perform request d').2)
    (hlater : ∀ {s c} (millis : Nat), I s c → I { s with now := s.now + millis } c)
    (h : (Boundary.memory I blank).shared d d') (events : List (Event ρ)) :
    (Boundary.memory I blank).shared (run perform d events) (run perform d' events) := by
  refine related_run (fun event _ {d d'} h => ?_) h
  cases event with
  | request request => exact hrequest request h
  | advance millis =>
    obtain ⟨hrows, hdraws, hI, hblank⟩ := h
    refine ⟨?_, hdraws, hlater millis hI, hblank⟩
    simp only [step, hrows]

end Alone

end IdentityDirectory
