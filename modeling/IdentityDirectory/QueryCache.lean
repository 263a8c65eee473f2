import IdentityDirectory.Work.Basic

/-!
A memory of the answers to queries. Nothing is forgotten on its own: whoever changes what the
answers depend on forgets all of them.
-/

namespace IdentityDirectory

structure QueryCache (κ ν : Type) where
  enabled : Bool
  entries : List (κ × ν) := []

namespace QueryCache

variable {κ ν ε : Type} [BEq κ]

def find? (c : QueryCache κ ν) (key : κ) : Option ν :=
  if c.enabled then c.entries.lookup key else none

def remember (c : QueryCache κ ν) (key : κ) (value : ν) : QueryCache κ ν :=
  if c.enabled then { c with entries := (key, value) :: c.entries } else c

/-- The remembered answer, or what `load` gives; a failure is not remembered. -/
def getOrLoad (c : QueryCache κ ν) (key : κ) (load : Unit → Except ε ν) :
    Except ε ν × QueryCache κ ν :=
  match c.find? key with
  | some value => (.ok value, c)
  | none =>
    match load () with
    | .ok value => (.ok value, c.remember key value)
    | .error e => (.error e, c)

def forget (c : QueryCache κ ν) : QueryCache κ ν := { c with entries := [] }

def size (c : QueryCache κ ν) : Nat := c.entries.length

theorem find?_forget (c : QueryCache κ ν) (key : κ) : c.forget.find? key = none := by
  rw [find?]
  split <;> rfl

theorem of_find?_remember [LawfulBEq κ] {c : QueryCache κ ν} {key key' : κ} {value answer : ν}
    (h : (c.remember key value).find? key' = some answer) :
    key' = key ∧ answer = value ∨ c.find? key' = some answer := by
  cases henabled : c.enabled with
  | false => simp [remember, find?, henabled] at h
  | true =>
    simp only [remember, find?, henabled, if_true, List.lookup_cons] at h ⊢
    split at h
    · next heq => exact .inl ⟨eq_of_beq heq, (Option.some.inj h).symm⟩
    · exact .inr h

end QueryCache

def Work.cached {σ κ ν : Type} [BEq κ] (part : Part σ (QueryCache κ ν)) (key : κ)
    (load : Query ν) : Work σ ν := fun d =>
  let (result, cache) := (part.get d.held).getOrLoad key fun _ => load d.rows
  (result, { d with held := part.set cache d.held })

namespace Work

variable {σ κ ν : Type} [BEq κ] (part : Part σ (QueryCache κ ν)) {key key' : κ} {d : Desk σ}
  {load : Query ν} {found : ν}

theorem cached_of_some (h : (part.get d.held).find? key = some found) (load : Query ν) :
    (cached part key load d).1 = .ok found := by
  simp only [cached, QueryCache.getOrLoad, h]

theorem cached_of_none (h : (part.get d.held).find? key = none) (load : Query ν) :
    (cached part key load d).1 = load d.rows := by
  simp only [cached, QueryCache.getOrLoad, h]
  cases load d.rows <;> rfl

theorem find?_cached [LawfulBEq κ]
    (h : (part.get (cached part key load d).2.held).find? key' = some found) :
    (part.get d.held).find? key' = some found ∨ key' = key ∧ load d.rows = .ok found := by
  simp only [cached, QueryCache.getOrLoad, part.get_set] at h
  cases hmem : (part.get d.held).find? key with
  | some v =>
    simp only [hmem] at h
    exact .inl h
  | none =>
    simp only [hmem] at h
    cases hload : load d.rows with
    | error e =>
      simp only [hload] at h
      exact .inl h
    | ok v =>
      simp only [hload] at h
      rcases QueryCache.of_find?_remember h with ⟨hkey, rfl⟩ | hfound
      · exact .inr ⟨hkey, rfl⟩
      · exact .inl hfound

end Work

end IdentityDirectory
