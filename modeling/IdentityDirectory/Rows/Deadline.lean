import IdentityDirectory.Rows.Table
import IdentityDirectory.Text.Cut
import IdentityDirectory.Text.Decimal

/-!
Entries of the expiry index. The deadline comes first and has a fixed number of digits, so the
entries stand in the order of their deadlines; a negative deadline is entered as zero.
-/

namespace IdentityDirectory

structure Deadline where
  instant : Int
  table : Table
  rowKey : String
  deriving DecidableEq

namespace Deadline

def separator : Char := '\x1e'

def encode (d : Deadline) : String :=
  .ofList (Text.fixedDigits 20 d.instant.toNat) ++ separator.toString ++ d.table.name
    ++ separator.toString ++ d.rowKey

def decode? (entry : String) : Option Deadline := do
  let (instant, rest) ← Text.cutAt? separator entry
  let (table, rowKey) ← Text.cutAt? separator rest
  return ⟨← Text.signed64? instant, ← Table.ofName? table, rowKey⟩

end Deadline

end IdentityDirectory
