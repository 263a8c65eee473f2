import IdentityDirectory.StringMap
import IdentityDirectory.Text.Blank
import IdentityDirectory.Text.Decimal

/-! Clients are the applications registered in a realm. -/

namespace IdentityDirectory

/-- `id` is internal; `clientId` is the public name, unique in the realm. -/
structure Client where
  realmId : String := ""
  id : String := ""
  clientId : String := ""
  enabled : Bool := false
  attributes : StringMap String := ∅
  redirectUris : StringSet := ∅
  deriving DecidableEq

structure ClientTimeouts where
  sessionIdleTimeout : Option Int := none
  sessionMaxLifespan : Option Int := none
  offlineSessionIdleTimeout : Option Int := none
  offlineSessionMaxLifespan : Option Int := none
  deriving DecidableEq

namespace Client

/-- An attribute that is no whole number counts as unset. -/
def seconds? (c : Client) (name : String) : Option Int :=
  (c.attributes.get? name).bind fun v => Text.signed64? (Text.trim v)

def timeouts (c : Client) : ClientTimeouts where
  sessionIdleTimeout := c.seconds? "client.session.idle.timeout"
  sessionMaxLifespan := c.seconds? "client.session.max.lifespan"
  offlineSessionIdleTimeout := c.seconds? "client.offline.session.idle.timeout"
  offlineSessionMaxLifespan := c.seconds? "client.offline.session.max.lifespan"

end Client

end IdentityDirectory
