import IdentityDirectory.AttributeIndex
import IdentityDirectory.QueryCache

/-! The realms of a directory. A name belongs to one realm at most. -/

namespace IdentityDirectory

inductive RealmLookup where
  | byId (id : String)
  | byName (name : String)
  deriving DecidableEq

abbrev RealmCache := QueryCache RealmLookup (Option Realm)

namespace Realms

def scope : String := "realms"

def nameAttribute : String := "$name"

def key (id : String) : RowKey := .single id

def load (id : String) : Query (Option Realm) := Query.record .realms (key id)

def holdsName (name owner : String) : Query Bool := do
  return (← load owner).any (·.name = name)

def claimName (id name : String) : Update Unit :=
  AttributeIndex.realms.claimUnique scope id nameAttribute .realm name none (holdsName name)

def commitName (id name : String) : Update Unit :=
  AttributeIndex.realms.commitUnique scope id nameAttribute (some name) none

def insert (realm : Realm) : Update Realm := do
  if (← Query.row .realms (key realm.id)).isSome then throw (.duplicateKey .realmId realm.id)
  claimName realm.id realm.name
  unless ← Update.putIfAbsent .realms (key realm.id) realm do
    throw (.duplicateKey .realmId realm.id)
  commitName realm.id realm.name
  return realm

def replace (realm : Realm) : Update Bool := do
  match ← load realm.id with
  | none => return false
  | some previous =>
    if previous.name = realm.name then
      let _ ← Update.put .realms (key realm.id) realm
    else
      claimName realm.id realm.name
      let _ ← Update.put .realms (key realm.id) realm
      commitName realm.id realm.name
    return true

def delete (id : String) : Update Bool := do
  let removed ← Update.delete .realms (key id)
  let _ ← AttributeIndex.realms.removeAttributesOf scope id
  return removed

def loadByName (name : String) : Query (Option Realm) := do
  match ← AttributeIndex.realms.findUnique scope nameAttribute name with
  | none => return none
  | some id => return (← load id).filter (·.name = name)

def whole : Part RealmCache RealmCache := { get := id, set := fun c _ => c }

def invalidate : Work RealmCache Unit := Work.modifyHeld QueryCache.forget

def create (id : Option String) (name : String) : Work RealmCache Realm := do
  let id ← match id with
    | some id => pure id
    | none => Work.newId
  invalidate
  insert { id, name, enabled := true }

def findById (id : String) : Work RealmCache (Option Realm) :=
  Work.cached whole (.byId id) (load id)

def findByName (name : String) : Work RealmCache (Option Realm) :=
  Work.cached whole (.byName name) (loadByName name)

def list : Query (List Realm) := do
  return (← Query.allRecords Realm .realms).mergeSort fun a b => a.name ≤ b.name

def update (realm : Realm) : Work RealmCache Bool := do
  invalidate
  replace realm

def remove (id : String) : Work RealmCache Bool := do
  invalidate
  delete id

end Realms

end IdentityDirectory
