import IdentityDirectory.Text.Ranges
import IdentityDirectory.Text.Quoted.Table

/-!
Quoted text for messages: the quote and the backslash are escaped, and whatever would not show as a
shape of its own is written as its hexadecimal code.
-/

namespace IdentityDirectory.Text

def hexDigits (n : Nat) : List Char := Nat.toDigits 16 n

def escapeChar (c : Char) : List Char :=
  match c with
  | '\x00' => ['\\', '0']
  | '\t' => ['\\', 't']
  | '\n' => ['\\', 'n']
  | '\r' => ['\\', 'r']
  | '"' => ['\\', '"']
  | '\\' => ['\\', '\\']
  | c =>
    if inRanges shapelessRanges c then ['\\', 'u', '\x7b'] ++ hexDigits c.toNat ++ ['\x7d'] else [c]

def quoted (s : String) : String := .ofList (['"'] ++ s.toList.flatMap escapeChar ++ ['"'])

def quotedList (items : List String) : String :=
  "[" ++ ", ".intercalate (items.map quoted) ++ "]"

example : quotedList ["u1", "a\"\\\x07é"] = "[\"u1\", \"a\\\"\\\\\\u\x7b7\x7dé\"]" := by
  decide +kernel

example : quoted "ｶ\uff9e\uffa0" = "\"ｶ\uff9e\\u\x7bffa0\x7d\"" := by decide +kernel

end IdentityDirectory.Text
