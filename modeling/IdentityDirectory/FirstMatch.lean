/-! Changes to the first item of a list that satisfies a test. -/

namespace IdentityDirectory

variable {α : Type}

def modifyFirst (p : α → Bool) (f : α → α) : List α → List α
  | [] => []
  | a :: rest => if p a then f a :: rest else a :: modifyFirst p f rest

end IdentityDirectory
