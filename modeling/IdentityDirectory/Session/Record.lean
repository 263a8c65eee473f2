import IdentityDirectory.StringMap
import IdentityDirectory.Time

/-!
Sessions of a user and, within them, of single clients. A user session and its offline copy share
their id and differ in the `offline` flag.
-/

namespace IdentityDirectory

inductive SessionState where
  | started
  | loggedIn
  | loggingOut
  | loggedOut
  deriving DecidableEq

/-- `clientSessions` maps the internal id of a client to the id of its client session. -/
structure UserSession where
  realmId : String := ""
  id : String := ""
  userId : String := ""
  loginUsername : String := ""
  ipAddress : Option String := none
  authMethod : String := ""
  rememberMe : Bool := false
  started : Int := 0
  lastSessionRefresh : Int := 0
  state : SessionState := .started
  brokerSessionId : Option String := none
  brokerUserId : Option String := none
  offline : Bool := false
  notes : StringMap String := ∅
  clientSessions : StringMap String := ∅
  expiration : Option Int := none
  deriving DecidableEq

structure ClientSession where
  realmId : String := ""
  id : String := ""
  userSessionId : String := ""
  clientId : String := ""
  timestamp : Int := 0
  authMethod : Option String := none
  redirectUri : Option String := none
  action : Option String := none
  offline : Bool := false
  notes : StringMap String := ∅
  expiration : Option Int := none
  deriving DecidableEq

instance : Expirable UserSession := ⟨UserSession.expiration⟩
instance : Expirable ClientSession := ⟨ClientSession.expiration⟩

end IdentityDirectory
