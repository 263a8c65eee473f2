/-! The tables of the store. The order of the constructors is the order in which they are listed. -/

namespace IdentityDirectory

inductive Table where
  | realms
  | realmAttributes
  | attributeRealms
  | clients
  | clientAttributes
  | attributeClients
  | users
  | userAttributes
  | attributeUsers
  | userSessions
  | userSessionAttributes
  | attributeUserSessions
  | clientSessions
  | authSessions
  | loginFailures
  | singleUseObjects
  | realmRoles
  | realmGroups
  | realmClientScopes
  deriving DecidableEq

namespace Table

def all : List Table :=
  [realms, realmAttributes, attributeRealms, clients, clientAttributes, attributeClients, users,
    userAttributes, attributeUsers, userSessions, userSessionAttributes, attributeUserSessions,
    clientSessions, authSessions, loginFailures, singleUseObjects, realmRoles, realmGroups,
    realmClientScopes]

def name : Table → String
  | realms => "realms"
  | realmAttributes => "realm_attributes"
  | attributeRealms => "attribute_realms"
  | clients => "clients"
  | clientAttributes => "client_attributes"
  | attributeClients => "attribute_clients"
  | users => "users"
  | userAttributes => "user_attributes"
  | attributeUsers => "attribute_users"
  | userSessions => "user_sessions"
  | userSessionAttributes => "user_session_attributes"
  | attributeUserSessions => "attribute_user_sessions"
  | clientSessions => "client_sessions"
  | authSessions => "auth_sessions"
  | loginFailures => "login_failures"
  | singleUseObjects => "single_use_objects"
  | realmRoles => "realm_roles"
  | realmGroups => "realm_groups"
  | realmClientScopes => "realm_client_scopes"

def ofName? (name : String) : Option Table := all.find? (·.name = name)

theorem ofName?_name (t : Table) : ofName? t.name = some t := by
  cases t <;> decide

def index : Table → Fin 19
  | realms => 0
  | realmAttributes => 1
  | attributeRealms => 2
  | clients => 3
  | clientAttributes => 4
  | attributeClients => 5
  | users => 6
  | userAttributes => 7
  | attributeUsers => 8
  | userSessions => 9
  | userSessionAttributes => 10
  | attributeUserSessions => 11
  | clientSessions => 12
  | authSessions => 13
  | loginFailures => 14
  | singleUseObjects => 15
  | realmRoles => 16
  | realmGroups => 17
  | realmClientScopes => 18

theorem all_get_index (t : Table) : all[t.index.val]? = some t := by
  cases t <;> rfl

theorem mem_all (t : Table) : t ∈ all := List.mem_of_getElem? (all_get_index t)

theorem index_injective {t u : Table} (h : t.index = u.index) : t = u :=
  Option.some.inj (all_get_index t ▸ h ▸ all_get_index u)

theorem exists_index (i : Fin 19) : ∃ t : Table, t.index = i := by
  have hall : ∀ i : Fin 19, all.any fun t => t.index = i := by decide
  obtain ⟨t, _, ht⟩ := List.any_eq_true.mp (hall i)
  exact ⟨t, of_decide_eq_true ht⟩

end Table

end IdentityDirectory
