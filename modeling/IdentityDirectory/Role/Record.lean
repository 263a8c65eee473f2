import IdentityDirectory.StringMap

namespace IdentityDirectory

structure Role where
  id : String := ""
  name : String := ""
  description : Option String := none
  clientId : Option String := none
  compositeRoleIds : StringSet := ∅
  attributes : StringMap (List String) := ∅
  deriving DecidableEq

structure RealmRoles where
  realmId : String := ""
  roles : List Role := []
  deriving DecidableEq

end IdentityDirectory
