/-!
Random identifiers. A source of randomness gives 128-bit values; six bits of each are overwritten to
mark the identifier as a random one.
-/

namespace IdentityDirectory

/-- `value k` is what the source gives at draw `k`; `next` draws have been made. A search for an
unused identifier is given up after `patience` draws. -/
structure Draws where
  value : Nat → Nat
  next : Nat := 0
  patience : Nat := 0x10000000000000000

namespace Identifier

def markRandom (value : Nat) : Nat :=
  (value &&& 0xFFFFFFFFFFFF4FFFBFFFFFFFFFFFFFFF) ||| 0x40008000000000000000

def hexDigits : Nat → Nat → List Char
  | 0, _ => []
  | width + 1, n => hexDigits width (n / 16) ++ [Nat.digitChar (n % 16)]

def digits (value : Nat) : List Char := hexDigits 32 (markRandom value)

def hyphenated (value : Nat) : String :=
  let ds := digits value
  .ofList (ds.take 8 ++ ['-'] ++ (ds.drop 8).take 4 ++ ['-'] ++ (ds.drop 12).take 4 ++ ['-']
    ++ (ds.drop 16).take 4 ++ ['-'] ++ ds.drop 20)

def short (value : Nat) : String := .ofList ((digits value).take 11)

example : hyphenated 5 = "00000000-0000-4000-8000-000000000005" := by decide

end Identifier

end IdentityDirectory
