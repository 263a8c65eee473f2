import IdentityDirectory.Error

/-!
Completing or aborting a transaction. Participants register what is to be done on completion and
what on abortion; both are run in the order in which they were registered.
-/

namespace IdentityDirectory

structure Transaction (σ : Type) where
  completions : List (ExceptT StoreError (StateM σ) Unit) := []
  aborts : List (StateM σ Unit) := []

namespace Transaction

variable {σ : Type}

def onComplete (t : Transaction σ) (act : ExceptT StoreError (StateM σ) Unit) : Transaction σ :=
  { t with completions := t.completions ++ [act] }

def onAbort (t : Transaction σ) (act : StateM σ Unit) : Transaction σ :=
  { t with aborts := t.aborts ++ [act] }

def abort (t : Transaction σ) : StateM σ Unit := t.aborts.forM id

/-- The first completion that fails stops the rest and aborts the transaction. -/
def commit (t : Transaction σ) : ExceptT StoreError (StateM σ) Unit :=
  try t.completions.forM id
  catch e =>
    (t.abort : StateM σ Unit)
    throw e

end Transaction

end IdentityDirectory
