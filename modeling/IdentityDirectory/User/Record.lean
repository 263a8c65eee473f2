import IdentityDirectory.StringMap

namespace IdentityDirectory

structure User where
  realmId : String := ""
  id : String := ""
  username : String := ""
  email : Option String := none
  firstName : Option String := none
  lastName : Option String := none
  enabled : Bool := false
  emailVerified : Bool := false
  createdTimestamp : Int := 0
  federationLink : Option String := none
  serviceAccountClientLink : Option String := none
  requiredActions : StringSet := ∅
  roleIds : StringSet := ∅
  groupIds : StringSet := ∅
  deriving DecidableEq

end IdentityDirectory
