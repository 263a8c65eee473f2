import IdentityDirectory.Text.Cut

/-!
The address of a row in its table. Rows of one partition stand together in the order of their
clustering keys, because the encoded key puts a U+0000 between the two parts.
-/

namespace IdentityDirectory

structure RowKey where
  partition : String
  clustering : String
  deriving DecidableEq

namespace RowKey

def partitionEnd : Char := '\x00'

def single (partition : String) : RowKey := ⟨partition, ""⟩

def lead (partition : String) : String := partition ++ partitionEnd.toString

def encode (k : RowKey) : String := lead k.partition ++ k.clustering

def decode? (encoded : String) : Option RowKey :=
  (Text.cutAt? partitionEnd encoded).map fun p => ⟨p.1, p.2⟩

def composite : List String → String
  | [] => ""
  | [part] => part
  | part :: next :: rest => part ++ "\x1f" ++ composite (next :: rest)

end RowKey

end IdentityDirectory
