/-! Cutting a text at the first occurrence of a separator. -/

namespace IdentityDirectory.Text

def cut (sep : Char) : List Char → Option (List Char × List Char)
  | [] => none
  | c :: rest => if c = sep then some ([], rest) else (cut sep rest).map fun p => (c :: p.1, p.2)

def cutAt? (sep : Char) (s : String) : Option (String × String) :=
  (cut sep s.toList).map fun p => (.ofList p.1, .ofList p.2)

end IdentityDirectory.Text
