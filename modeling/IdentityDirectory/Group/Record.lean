import IdentityDirectory.StringMap

namespace IdentityDirectory

structure Group where
  id : String := ""
  name : String := ""
  parentId : Option String := none
  roleIds : StringSet := ∅
  attributes : StringMap (List String) := ∅
  deriving DecidableEq

structure RealmGroups where
  realmId : String := ""
  groups : List Group := []
  deriving DecidableEq

end IdentityDirectory
