import IdentityDirectory.Work.Basic

/-! Tokens that can be redeemed once, each within a fixed lifespan from when it was put. -/

namespace IdentityDirectory.Tokens

abbrev Notes := StringMap String

def rowKey (key : String) : RowKey := .single key

def load (key : String) : Query (Option SingleUseObject) :=
  Query.record .singleUseObjects (rowKey key)

def token (key : String) (lifespan : Int) (notes : Notes) : Query SingleUseObject := do
  let expiration := Time.add (← Query.now) (Time.ofSeconds lifespan)
  return { key, notes, expiration := some expiration }

def put (key : String) (lifespan : Int) (notes : Notes) : Update Unit := do
  let object ← token key lifespan notes
  discard (Update.putExpirable .singleUseObjects (rowKey key) object)

def putIfAbsent (key : String) (lifespan : Int) : Update Bool := do
  let object ← token key lifespan ∅
  let lifetime := Lifetime.of object (← Query.now)
  Update.putIfAbsent .singleUseObjects (rowKey key) object lifetime

def get (key : String) : Query (Option Notes) := do
  return (← load key).map (·.notes)

def contains (key : String) : Query Bool := do
  return (← Query.row .singleUseObjects (rowKey key)).isSome

/-- Replaces the notes of a live token, which keeps its expiration. -/
def replace (key : String) (notes : Notes) : Update Bool := do
  match ← load key with
  | none => return false
  | some object =>
    let _ ← Update.putExpirable .singleUseObjects (rowKey key) { object with notes }
    return true

def redeem (key : String) : Update (Option Notes) := do
  match ← Update.take .singleUseObjects (rowKey key) with
  | none => return none
  | some row =>
    let object : SingleUseObject ← Query.ofRows fun _ => row.read
    return some object.notes

end IdentityDirectory.Tokens
