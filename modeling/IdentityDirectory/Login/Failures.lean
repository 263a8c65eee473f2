import IdentityDirectory.Work.Basic

/-! Failed logins, counted for each user of a realm until the user logs in or is removed. -/

namespace IdentityDirectory.LoginFailures

def key (realmId userId : String) : RowKey := ⟨realmId, userId⟩

def mostFailures : Nat := 0xFFFFFFFF

def get (realmId userId : String) : Query (Option LoginFailure) :=
  Query.record .loginFailures (key realmId userId)

def put (realmId userId : String) (failure : LoginFailure) : Update Unit :=
  discard (Update.put .loginFailures (key realmId userId) failure)

def record (realmId userId : String) (ipAddress : Option String) : Update LoginFailure := do
  let known := (← get realmId userId).getD { realmId, userId }
  let failure :=
    { known with
      numFailures := min (known.numFailures + 1) mostFailures
      lastFailure := ← Query.now
      lastIpFailure := ipAddress }
  put realmId userId failure
  return failure

def alter (realmId userId : String) (change : LoginFailure → LoginFailure) : Update Bool := do
  match ← get realmId userId with
  | none => return false
  | some failure =>
    put realmId userId (change failure)
    return true

def setNotBefore (realmId userId : String) (notBefore : Int) : Update Bool :=
  alter realmId userId fun f => { f with failedLoginNotBefore := notBefore }

def clear (realmId userId : String) : Update Bool :=
  alter realmId userId fun f => { realmId := f.realmId, userId := f.userId }

def remove (realmId userId : String) : Update Bool :=
  Update.delete .loginFailures (key realmId userId)

def removeAll (realmId : String) : Update Nat := Update.deletePartition .loginFailures realmId

end IdentityDirectory.LoginFailures
