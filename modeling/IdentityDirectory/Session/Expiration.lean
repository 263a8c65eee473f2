import IdentityDirectory.Client.Record
import IdentityDirectory.Realm.Record
import IdentityDirectory.Session.Record

/-!
The instant at which a session ends: the earlier of its idle timeout, counted from the last refresh,
and its lifespan, counted from the start. Limits of a client only make it earlier.
-/

namespace IdentityDirectory

structure SessionTimes where
  started : Int
  lastRefresh : Int
  rememberMe : Bool := false
  offline : Bool := false

namespace SessionTimes

def clientLimit (override : Option Int) (realmValue : Int) : Option Int :=
  some (override.getD realmValue) |>.filter (0 < ·)

def remembered (regular rememberMeValue : Int) (rememberMe : Bool) : Int :=
  if rememberMe && 0 < rememberMeValue then max regular rememberMeValue else regular

def after (start seconds : Int) : Int := Time.add start (Time.ofSeconds seconds)

def limitedTo (limit : Option Int) (start expiration : Int) : Int :=
  match limit with
  | none => expiration
  | some seconds => min expiration (after start seconds)

variable (realm : RealmTimeouts) (client : Option ClientTimeouts) (times : SessionTimes)

def onlineExpiration : Int :=
  let lifespan :=
    remembered realm.ssoSessionMaxLifespan realm.ssoSessionMaxLifespanRememberMe times.rememberMe
  let idle :=
    remembered realm.ssoSessionIdleTimeout realm.ssoSessionIdleTimeoutRememberMe times.rememberMe
  let lifespanLimit :=
    client.bind fun c => clientLimit c.sessionMaxLifespan realm.clientSessionMaxLifespan
  let idleLimit :=
    client.bind fun c => clientLimit c.sessionIdleTimeout realm.clientSessionIdleTimeout
  min (limitedTo idleLimit times.lastRefresh (after times.lastRefresh idle))
    (limitedTo lifespanLimit times.started (after times.started lifespan))

def offlineExpiration : Int :=
  let lifespanLimit :=
    client.bind fun c =>
      clientLimit c.offlineSessionMaxLifespan realm.clientOfflineSessionMaxLifespan
  let idleLimit :=
    client.bind fun c =>
      clientLimit c.offlineSessionIdleTimeout realm.clientOfflineSessionIdleTimeout
  let idleEnd :=
    limitedTo idleLimit times.lastRefresh (after times.lastRefresh realm.offlineSessionIdleTimeout)
  if realm.offlineSessionMaxLifespanEnabled then
    min idleEnd
      (limitedTo lifespanLimit times.started (after times.started realm.offlineSessionMaxLifespan))
  else idleEnd

def expiration : Int :=
  if times.offline then offlineExpiration realm client times
  else onlineExpiration realm client times

end SessionTimes

end IdentityDirectory
