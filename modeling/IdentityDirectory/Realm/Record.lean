import IdentityDirectory.StringMap

/-! A realm is a tenant: every other record belongs to one. -/

namespace IdentityDirectory

/-- Timeouts in whole seconds. A remember-me value of zero means the regular one, and a client value
of zero means no limit. -/
structure RealmTimeouts where
  ssoSessionIdleTimeout : Int := 1800
  ssoSessionMaxLifespan : Int := 36000
  ssoSessionIdleTimeoutRememberMe : Int := 0
  ssoSessionMaxLifespanRememberMe : Int := 0
  offlineSessionIdleTimeout : Int := 2592000
  offlineSessionMaxLifespanEnabled : Bool := false
  offlineSessionMaxLifespan : Int := 5184000
  clientSessionIdleTimeout : Int := 0
  clientSessionMaxLifespan : Int := 0
  clientOfflineSessionIdleTimeout : Int := 0
  clientOfflineSessionMaxLifespan : Int := 0
  accessCodeLifespan : Int := 60
  accessCodeLifespanLogin : Int := 1800
  accessCodeLifespanUserAction : Int := 300
  deriving DecidableEq, Inhabited

def RealmTimeouts.authSession (t : RealmTimeouts) : Int :=
  max (max t.accessCodeLifespan t.accessCodeLifespanLogin) t.accessCodeLifespanUserAction

structure Realm where
  id : String := ""
  name : String := ""
  enabled : Bool := false
  duplicateEmailsAllowed : Bool := false
  timeouts : RealmTimeouts := {}
  attributes : StringMap String := ∅
  deriving DecidableEq

end IdentityDirectory
