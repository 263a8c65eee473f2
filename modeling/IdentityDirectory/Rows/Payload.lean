import IdentityDirectory.Client.Record
import IdentityDirectory.Group.Record
import IdentityDirectory.Login.Record
import IdentityDirectory.Realm.Record
import IdentityDirectory.Role.Record
import IdentityDirectory.Scope.Record
import IdentityDirectory.Session.Record
import IdentityDirectory.User.Record

/-!
What a row carries: a record, the values of an attribute, the instant of a claim, or plain bytes,
which are no record of any kind.
-/

namespace IdentityDirectory

inductive Payload where
  | bytes (bytes : List UInt8)
  | values (values : List String)
  | stamp (instant : Int)
  | realm (realm : Realm)
  | client (client : Client)
  | user (user : User)
  | userSession (session : UserSession)
  | clientSession (session : ClientSession)
  | rootAuthenticationSession (root : RootAuthenticationSession)
  | loginFailure (failure : LoginFailure)
  | singleUseObject (object : SingleUseObject)
  | realmRoles (roles : RealmRoles)
  | realmGroups (groups : RealmGroups)
  | realmClientScopes (scopes : RealmClientScopes)
  deriving DecidableEq

class Storable (α : Type) where
  payload : α → Payload
  ofPayload? : Payload → Option α
  ofPayload?_payload (a : α) : ofPayload? (payload a) = some a := by intros; rfl

instance : Storable (List String) where
  payload := .values
  ofPayload? | .values a => some a | _ => none

instance : Storable Int where
  payload := .stamp
  ofPayload? | .stamp a => some a | _ => none

instance : Storable Realm where
  payload := .realm
  ofPayload? | .realm a => some a | _ => none

instance : Storable Client where
  payload := .client
  ofPayload? | .client a => some a | _ => none

instance : Storable User where
  payload := .user
  ofPayload? | .user a => some a | _ => none

instance : Storable UserSession where
  payload := .userSession
  ofPayload? | .userSession a => some a | _ => none

instance : Storable ClientSession where
  payload := .clientSession
  ofPayload? | .clientSession a => some a | _ => none

instance : Storable RootAuthenticationSession where
  payload := .rootAuthenticationSession
  ofPayload? | .rootAuthenticationSession a => some a | _ => none

instance : Storable LoginFailure where
  payload := .loginFailure
  ofPayload? | .loginFailure a => some a | _ => none

instance : Storable SingleUseObject where
  payload := .singleUseObject
  ofPayload? | .singleUseObject a => some a | _ => none

instance : Storable RealmRoles where
  payload := .realmRoles
  ofPayload? | .realmRoles a => some a | _ => none

instance : Storable RealmGroups where
  payload := .realmGroups
  ofPayload? | .realmGroups a => some a | _ => none

instance : Storable RealmClientScopes where
  payload := .realmClientScopes
  ofPayload? | .realmClientScopes a => some a | _ => none

end IdentityDirectory
