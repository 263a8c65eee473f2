/-!
Whole numbers in decimal: readers that accept one optional sign and refuse everything outside their
range, and a writer with a fixed number of digits.
-/

namespace IdentityDirectory.Text

def digit? (c : Char) : Option Nat :=
  if c.isDigit then some (c.toNat - '0'.toNat) else none

def digitsFrom (value : Nat) : List Char → Option Nat
  | [] => some value
  | c :: rest => (digit? c).bind fun d => digitsFrom (10 * value + d) rest

def digits? : List Char → Option Nat
  | [] => none
  | cs => digitsFrom 0 cs

def signed64? (s : String) : Option Int :=
  let value : Option Int :=
    match s.toList with
    | '+' :: rest => (digits? rest).map Int.ofNat
    | '-' :: rest => (digits? rest).map fun n => -Int.ofNat n
    | cs => (digits? cs).map Int.ofNat
  value.filter fun n => -0x8000000000000000 ≤ n && n ≤ 0x7FFFFFFFFFFFFFFF

/-- A number of 64 bits without a sign; a plus in front is allowed. -/
def unsigned64? (s : String) : Option Nat :=
  let value :=
    match s.toList with
    | '+' :: rest => digits? rest
    | cs => digits? cs
  value.filter (· ≤ 0xFFFFFFFFFFFFFFFF)

def fixedDigits : Nat → Nat → List Char
  | 0, _ => []
  | width + 1, n => fixedDigits width (n / 10) ++ [Nat.digitChar (n % 10)]

example : signed64? "-9223372036854775808" = some (-0x8000000000000000) ∧
    signed64? "9223372036854775808" = none ∧ signed64? "+" = none ∧ unsigned64? "-0" = none ∧
    unsigned64? "+007" = some 7 := by decide

example : fixedDigits 5 42 = ['0', '0', '0', '4', '2'] := rfl

end IdentityDirectory.Text
