import IdentityDirectory.StringMap
import IdentityDirectory.Time

/-! What is kept while somebody logs in: open tabs, failed attempts and tokens for one use. -/

namespace IdentityDirectory

structure AuthenticationSession where
  tabId : String := ""
  clientId : String := ""
  timestamp : Int := 0
  action : Option String := none
  protocol : Option String := none
  redirectUri : Option String := none
  authUserId : Option String := none
  clientNotes : StringMap String := ∅
  authNotes : StringMap String := ∅
  requiredActions : StringSet := ∅
  executionStatus : StringMap String := ∅
  deriving DecidableEq

structure RootAuthenticationSession where
  realmId : String := ""
  id : String := ""
  timestamp : Int := 0
  sessions : StringMap AuthenticationSession := ∅
  expiration : Option Int := none
  deriving DecidableEq

structure LoginFailure where
  realmId : String := ""
  userId : String := ""
  failedLoginNotBefore : Int := 0
  numFailures : Nat := 0
  lastFailure : Int := 0
  lastIpFailure : Option String := none
  deriving DecidableEq

structure SingleUseObject where
  key : String := ""
  notes : StringMap String := ∅
  expiration : Option Int := none
  deriving DecidableEq

instance : Expirable RootAuthenticationSession := ⟨RootAuthenticationSession.expiration⟩
instance : Expirable SingleUseObject := ⟨SingleUseObject.expiration⟩

end IdentityDirectory
