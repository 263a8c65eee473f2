import IdentityDirectory.AttributeIndex
import IdentityDirectory.QueryCache
import IdentityDirectory.Text.Search

/-! The clients of a realm. A public client id belongs to one client of the realm at most. -/

namespace IdentityDirectory

inductive ClientLookup where
  | byId (realmId id : String)
  | byClientId (realmId clientId : String)
  deriving DecidableEq

structure ClientCache where
  lookups : QueryCache ClientLookup (Option Client)
  lists : QueryCache String (List Client)

namespace Clients

def clientIdAttribute : String := "$client_id"

def key (realmId id : String) : RowKey := ⟨realmId, id⟩

def load (realmId id : String) : Query (Option Client) := Query.record .clients (key realmId id)

def holdsClientId (client : Client) (owner : String) : Query Bool := do
  return (← load client.realmId owner).any (·.clientId = client.clientId)

def claimClientId (client : Client) : Update Unit :=
  AttributeIndex.clients.claimUnique client.realmId client.id clientIdAttribute .client
    client.clientId none (holdsClientId client)

def commitClientId (client : Client) : Update Unit :=
  AttributeIndex.clients.commitUnique client.realmId client.id clientIdAttribute
    (some client.clientId) none

def put (client : Client) : Update Unit :=
  discard (Update.put .clients (key client.realmId client.id) client)

def putClaimed (client : Client) : Update Unit :=
  try put client
  catch e =>
    let _ ← AttributeIndex.clients.releaseClaim client.realmId client.id clientIdAttribute
      client.clientId
    throw e

def insert (client : Client) : Update Client := do
  claimClientId client
  putClaimed client
  commitClientId client
  return client

def replace (client : Client) : Update Bool := do
  match ← load client.realmId client.id with
  | none => return false
  | some previous =>
    if previous.clientId = client.clientId then put client
    else
      claimClientId client
      putClaimed client
      commitClientId client
    return true

def delete (realmId id : String) : Update Bool := do
  let removed ← Update.delete .clients (key realmId id)
  let _ ← AttributeIndex.clients.removeAttributesOf realmId id
  return removed

def deleteAll (realmId : String) : Update Nat := do
  let clients ← Query.records Client .clients realmId
  clients.forM fun c => discard (AttributeIndex.clients.removeAttributesOf realmId c.id)
  let _ ← Update.deletePartition .clients realmId
  return clients.length

def loadByClientId (realmId clientId : String) : Query (Option Client) := do
  match ← AttributeIndex.clients.findUnique realmId clientIdAttribute clientId with
  | none => return none
  | some id => return (← load realmId id).filter (·.clientId = clientId)

def loadAll (realmId : String) : Query (List Client) := do
  return (← Query.records Client .clients realmId).mergeSort fun a b => a.clientId ≤ b.clientId

def lookups : Part ClientCache (QueryCache ClientLookup (Option Client)) where
  get := ClientCache.lookups
  set c s := { s with lookups := c }

def lists : Part ClientCache (QueryCache String (List Client)) where
  get := ClientCache.lists
  set c s := { s with lists := c }

def invalidate : Work ClientCache Unit :=
  Work.modifyHeld fun c => ⟨c.lookups.forget, c.lists.forget⟩

def create (realmId clientId : String) : Work ClientCache Client := do
  invalidate
  insert { realmId, id := ← Work.newId, clientId, enabled := true }

def findById (realmId id : String) : Work ClientCache (Option Client) :=
  Work.cached lookups (.byId realmId id) (load realmId id)

def findByClientId (realmId clientId : String) : Work ClientCache (Option Client) :=
  Work.cached lookups (.byClientId realmId clientId) (loadByClientId realmId clientId)

def all (realmId : String) : Work ClientCache (List Client) :=
  Work.cached lists realmId (loadAll realmId)

def list (realmId : String) (page : Page) : Work ClientCache (List Client) := do
  return page.of (← all realmId)

def search (realmId fragment : String) (page : Page) : Work ClientCache (List Client) := do
  return page.of ((← all realmId).filter fun c => Text.matchesSearch c.clientId (some fragment))

def count (realmId : String) : Work ClientCache Nat := do
  return (← all realmId).length

def update (client : Client) : Work ClientCache Bool := do
  invalidate
  replace client

/-- Removes the record and its index rows; roles and sessions that name the client stay. -/
def remove (realmId id : String) : Work ClientCache Bool := do
  invalidate
  delete realmId id

def removeAll (realmId : String) : Work ClientCache Nat := do
  invalidate
  deleteAll realmId

end Clients

end IdentityDirectory
