import IdentityDirectory.Text.Lowercase

/-! Searching names without regard to case, and pages of a listing. -/

namespace IdentityDirectory.Text

def occursIn (needle : List Char) : List Char → Bool
  | [] => needle.isEmpty
  | c :: rest => needle.isPrefixOf (c :: rest) || occursIn needle rest

def matchesSearch (value : String) : Option String → Bool
  | none => true
  | some search => occursIn (lowercase search).toList (lowercase value).toList

end IdentityDirectory.Text

namespace IdentityDirectory

structure Page where
  first : Option Nat := none
  max : Option Nat := none

def Page.of {α : Type} (page : Page) (items : List α) : List α :=
  let rest := items.drop (page.first.getD 0)
  match page.max with
  | none => rest
  | some n => rest.take n

end IdentityDirectory
