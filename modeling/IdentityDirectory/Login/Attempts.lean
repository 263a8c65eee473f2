import IdentityDirectory.Realm.Record
import IdentityDirectory.Work.Basic

/-!
Logins in progress. A root holds the open tabs of one browser and lives for the realm's longest
access-code lifespan, counted from its last change.
-/

namespace IdentityDirectory.LoginAttempts

def key (realmId id : String) : RowKey := ⟨realmId, id⟩

def findRoot (realmId id : String) : Query (Option RootAuthenticationSession) :=
  Query.record .authSessions (key realmId id)

def put (realm : Realm) (root : RootAuthenticationSession) : Update RootAuthenticationSession := do
  let now ← Query.now
  let expiration := Time.add now (Time.ofSeconds realm.timeouts.authSession)
  let root := { root with timestamp := now, expiration := some expiration }
  let _ ← Update.putExpirable .authSessions (key realm.id root.id) root
  return root

def unusedTabId? (used : StringMap AuthenticationSession) (draws : Draws) :
    Nat → Option (String × Draws)
  | 0 => none
  | tries + 1 =>
    let tabId := Identifier.short (draws.value draws.next)
    let draws := { draws with next := draws.next + 1 }
    if tabId ∈ used then unusedTabId? used draws tries else some (tabId, draws)

def newTabId (used : StringMap AuthenticationSession) : Work Unit String := fun d =>
  match unusedTabId? used d.draws d.draws.patience with
  | some (tabId, draws) => (.ok tabId, { d with draws })
  | none => (.error (.noUnusedId d.draws.patience), d)

def createRoot (realm : Realm) (id : Option String) : Work Unit RootAuthenticationSession := do
  let id ← match id with
    | some id => pure id
    | none => Work.newId
  put realm { realmId := realm.id, id }

def createChild (realm : Realm) (rootId clientId : String) :
    Work Unit (Option AuthenticationSession) := do
  match ← findRoot realm.id rootId with
  | none => return none
  | some root =>
    let tabId ← newTabId root.sessions
    let child : AuthenticationSession := { tabId, clientId, timestamp := ← Query.now }
    let _ ← put realm { root with sessions := root.sessions.insert tabId child }
    return some child

def findChild (realmId rootId clientId tabId : String) : Query (Option AuthenticationSession) := do
  let tab := (← findRoot realmId rootId).bind (·.sessions.get? tabId)
  return tab.filter (·.clientId = clientId)

def updateChild (realm : Realm) (rootId : String) (child : AuthenticationSession) :
    Update Bool := do
  match ← findRoot realm.id rootId with
  | none => return false
  | some root =>
    if child.tabId ∈ root.sessions then
      let child := { child with timestamp := ← Query.now }
      let _ ← put realm { root with sessions := root.sessions.insert child.tabId child }
      return true
    else return false

def removeRoot (realmId id : String) : Update Bool :=
  Update.delete .authSessions (key realmId id)

def removeChild (realm : Realm) (rootId tabId : String) : Update Bool := do
  match ← findRoot realm.id rootId with
  | none => return false
  | some root =>
    if tabId ∈ root.sessions then
      let sessions := root.sessions.erase tabId
      if sessions.isEmpty then discard (removeRoot realm.id rootId)
      else discard (put realm { root with sessions })
      return true
    else return false

def removeAll (realmId : String) : Update Nat := Update.deletePartition .authSessions realmId

end IdentityDirectory.LoginAttempts
