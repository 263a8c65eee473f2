import IdentityDirectory.Rows.Store
import IdentityDirectory.Text.Quoted

/-! Why an operation refuses or fails, and how each refusal is worded. Absence is never an error. -/

namespace IdentityDirectory

inductive UniqueKind where
  | realmId
  | realm
  | client
  | user
  | email
  | serviceAccount
  | userSession
  | roleId
  | role
  | group
  | clientScope
  | other (label : String)
  deriving DecidableEq

def UniqueKind.label : UniqueKind → String
  | realmId => "realm id"
  | realm => "realm"
  | client => "client"
  | user => "user"
  | email => "email"
  | serviceAccount => "service account"
  | userSession => "user session"
  | roleId => "role id"
  | role => "role"
  | group => "group"
  | clientScope => "client scope"
  | other label => label

inductive ContainerKind where
  | roles
  | groups
  | clientScopes
  deriving DecidableEq

def ContainerKind.label : ContainerKind → String
  | roles => "roles"
  | groups => "groups"
  | clientScopes => "client scopes"

inductive BadArgument where
  | reservedAttribute (name : String)
  | missingRole (id : String)
  | missingParentGroup (id : String)
  | other (text : String)
  deriving DecidableEq

def BadArgument.text : BadArgument → String
  | reservedAttribute name => "attribute name " ++ name ++ " is reserved"
  | missingRole id => "role " ++ id ++ " does not exist"
  | missingParentGroup id => "parent group " ++ id ++ " does not exist"
  | other text => text

inductive StoreError where
  | duplicateKey (kind : UniqueKind) (key : String)
  | indexInconsistency (name value : String) (owners : List String)
  | concurrentModification (kind : ContainerKind) (key : String)
  | invalidArgument (argument : BadArgument)
  | transient (fault : StorageFault)
  | noUnusedId (attempts : Nat)
  deriving DecidableEq

def StoreError.message : StoreError → String
  | duplicateKey kind key => "Duplicate " ++ kind.label ++ ": " ++ key
  | indexInconsistency name value owners =>
    "Index inconsistency: " ++ name ++ "=" ++ value ++ " is claimed by "
      ++ Text.quotedList owners
  | concurrentModification kind key => "Concurrent modification of " ++ kind.label ++ " " ++ key
  | invalidArgument argument => "Invalid argument: " ++ argument.text
  | transient .decode => "Database error: unreadable content"
  | transient .io => "Database error: no directory"
  | noUnusedId attempts => "No unused id in " ++ toString attempts ++ " attempts"

end IdentityDirectory
