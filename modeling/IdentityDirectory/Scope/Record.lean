import IdentityDirectory.StringMap

namespace IdentityDirectory

structure ClientScope where
  id : String := ""
  name : String := ""
  protocol : String := ""
  description : Option String := none
  attributes : StringMap (List String) := ∅
  roleIds : StringSet := ∅
  deriving DecidableEq

structure RealmClientScopes where
  realmId : String := ""
  scopes : List ClientScope := []
  deriving DecidableEq

end IdentityDirectory
