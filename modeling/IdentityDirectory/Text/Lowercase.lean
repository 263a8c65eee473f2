import IdentityDirectory.Text.Lowercase.Table

/-!
The full lowercase form of a text. One letter has a lowercase of two characters, and a capital sigma
becomes the final sigma at the end of a word.
-/

namespace IdentityDirectory.Text

def lowercaseChar (c : Char) : List Char :=
  if c.toNat < 0x80 then [c.toLower]
  else if c.toNat = 0x130 then ['i', '\u0307']
  else
    match lowercaseRuns.find? (·.covers c.toNat) with
    | some run => [.ofNat (c.toNat + run.shift).toNat]
    | none => [c]

def startsCased (cs : List Char) : Bool :=
  match cs.dropWhile (inRanges caseIgnorableRanges) with
  | [] => false
  | c :: _ => inRanges casedRanges c

/-- `before` holds the characters in front, nearest first. -/
def lowercaseFrom (before : List Char) : List Char → List Char
  | [] => []
  | c :: rest =>
    let lower :=
      if c = 'Σ' then [if startsCased before && !startsCased rest then 'ς' else 'σ']
      else lowercaseChar c
    lower ++ lowercaseFrom (c :: before) rest

def lowercase (s : String) : String := .ofList (lowercaseFrom [] s.toList)

example : lowercase "ÀΣ ΟΔΥΣΣΕΥΣ Σ" = "àς οδυσσευς σ" := by decide +kernel

end IdentityDirectory.Text
