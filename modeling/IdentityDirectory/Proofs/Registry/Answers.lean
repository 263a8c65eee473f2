import IdentityDirectory.Proofs.Isolation.Clients
import IdentityDirectory.Proofs.Isolation.Users
import IdentityDirectory.Proofs.Memory.Registries
import IdentityDirectory.Proofs.Registry.Lookups

/-!
What lookups of clients and of users give. Main statements: nothing that is not stored, unless it is
remembered (`Clients.Request.stored`, `Users.Request.stored`), and nobody where no record has the value
(`Clients.loadByClientId_of_free`, `Users.loadByUsername_of_free`).
-/

namespace IdentityDirectory

theorem Registry.Kept.own {α : Type} [Storable α] {R : Registry α} {s : RowStore} {r id : String}
    {U : String → String → Prop} {a : α} (h : R.Kept U s) (hr : R.Scope r)
    (ha : R.record s r id s.now = some a) : R.record s r (R.idOf a) s.now = some a := by
  rw [(h.placed r id a hr ha).1]
  exact ha

theorem Page.mem_of_mem {α : Type} {page : Page} {a : α} {l : List α} (h : a ∈ page.of l) : a ∈ l := by
  rw [of] at h
  split at h
  · exact List.mem_of_mem_drop h
  · exact List.mem_of_mem_drop (List.mem_of_mem_take h)

namespace Clients

variable {α : Type} {s : RowStore} {r id : String} {c : Client}

def Request.Gives {r : String} : {α : Type} → Request r α → α → Client → Prop
  | _, .findById _, found, c | _, .findByClientId _, found, c => found = some c
  | _, .list _, found, c | _, .search .., found, c => c ∈ found
  | _, .create _, _, _ | _, .count, _, _ | _, .update .., _, _ | _, .remove _, _, _
  | _, .removeAll, _, _ => False

section Stored

variable (h : registry.Kept Registry.Always s) (hr : Plain r)
include h hr

theorem stored_of_load (hc : load r id s = .ok (some c)) :
    registry.record s r c.id s.now = some c := by
  rw [load_eq h] at hc
  exact h.own hr (Except.ok.inj hc)

theorem stored_of_loadByClientId {clientId : String}
    (hc : loadByClientId r clientId s = .ok (some c)) : registry.record s r c.id s.now = some c := by
  obtain ⟨owner, -, hrest⟩ := Query.exists_of_bind_ok hc
  cases owner with
  | none => cases hrest
  | some id =>
    obtain ⟨found, hload, hfound⟩ := Query.exists_of_bind_ok hrest
    obtain ⟨rfl, -⟩ := Option.filter_eq_some_iff.mp (Except.ok.inj hfound)
    exact stored_of_load h hr hload

theorem stored_of_loadAll {found : List Client} (hfound : loadAll r s = .ok found) (hc : c ∈ found) :
    registry.record s r c.id s.now = some c := by
  have hrecords : Query.records Client .clients r s = .ok (s.recordsIn Client .clients r) :=
    Query.records_eq h.holds r
  rw [loadAll, Query.bind_of_ok hrecords] at hfound
  obtain rfl := Except.ok.inj hfound
  obtain ⟨id, hrecord⟩ := (Registry.mem_recordsIn_iff (R := registry) (fun _ _ _ => rfl) hr).mp
    (List.mem_mergeSort.mp hc)
  exact h.own hr hrecord

theorem loadByClientId_of_free {clientId : String} (hv : NulFree clientId)
    (hfree : ∀ id c, registry.record s r id s.now = some c → c.clientId ≠ clientId) :
    loadByClientId r clientId s = .ok none := by
  have hsound : AttributeIndex.clients.Sound s := h.regular.sound
  have hnone : AttributeIndex.clients.holders s r clientIdAttribute clientId = [] := by
    refine List.eq_nil_iff_forall_not_mem.mpr fun id hmem => ?_
    obtain ⟨c, hc, hfield⟩ := (Registry.mem_holders_iff (R := registry) h hr
      List.mem_cons_self hv).mp hmem
    exact hfree id c hc (Option.some.inj hfield)
  have hfind := AttributeIndex.findUnique_eq
    (AttributeIndex.findBy_eq hsound r clientIdAttribute clientId)
  rw [hnone] at hfind
  rw [loadByClientId, Query.bind_of_ok hfind]
  rfl

end Stored

theorem Request.stored {d : Desk ClientCache} (h : registry.Kept Registry.Always d.rows)
    (hr : Plain r) (hforgotten : Forgotten d.held) {request : Request r α} {answer : α}
    (hanswer : (request.perform d).1 = .ok answer) (hc : request.Gives answer c) :
    registry.record d.rows r c.id d.rows.now = some c := by
  have hall : ∀ {found d'}, all r d = (.ok found, d') → c ∈ found →
      registry.record d.rows r c.id d.rows.now = some c := by
    intro found d' hfound hmem
    have hload := Work.cached_of_none lists (hforgotten.lists r) (loadAll r)
    exact stored_of_loadAll h hr (hload.symm.trans (congrArg Prod.fst hfound)) hmem
  cases request with
  | findById id =>
    obtain rfl := hc
    have hload := Work.cached_of_none lookups (hforgotten.lookups (.byId r id)) (load r id)
    exact stored_of_load h hr (hload.symm.trans hanswer)
  | findByClientId clientId =>
    obtain rfl := hc
    have hload := Work.cached_of_none lookups (hforgotten.lookups (.byClientId r clientId))
      (loadByClientId r clientId)
    exact stored_of_loadByClientId h hr (hload.symm.trans hanswer)
  | list page =>
    obtain ⟨found, d', hfound, hpage⟩ := Work.exists_of_bind_ok hanswer
    obtain rfl := Except.ok.inj hpage
    exact hall hfound (Page.mem_of_mem hc)
  | search fragment page =>
    obtain ⟨found, d', hfound, hpage⟩ := Work.exists_of_bind_ok hanswer
    obtain rfl := Except.ok.inj hpage
    exact hall hfound (List.mem_of_mem_filter (Page.mem_of_mem hc))
  | create _ | count | update _ _ | remove _ | removeAll => exact hc.elim

end Clients

namespace Users

variable {α : Type} {s : RowStore} {r id : String} {u : User} {U : String → String → Prop}

def Request.Gives : {α : Type} → Request α → α → User → Prop
  | _, .findById _, found, u | _, .findByUsername _, found, u | _, .findByEmail _, found, u
  | _, .findByServiceAccountClient _, found, u => found = some u
  | _, .findByAttribute .., found, u | _, .findByFederationLink _, found, u | _, .list _, found, u
  | _, .search .., found, u => u ∈ found
  | _, .create _, _, _ | _, .count, _, _ | _, .update _, _, _ | _, .joinGroup .., _, _
  | _, .leaveGroup .., _, _ | _, .grantRole .., _, _ | _, .revokeRole .., _, _
  | _, .addRequiredAction .., _, _ | _, .removeRequiredAction .., _, _ | _, .setAttribute .., _, _
  | _, .removeAttribute .., _, _ | _, .attributes _, _, _ | _, .remove _, _, _
  | _, .removeAll, _, _ => False

structure Unread (c : UserCache) : Prop where
  lookups : c.lookups.Blank
  lists : c.lists.Blank

section Stored

variable (h : registry.Kept U s) (hr : Plain r)
include h hr

theorem stored_of_load (hu : load r id s = .ok (some u)) :
    registry.record s r u.id s.now = some u := by
  rw [load_eq h] at hu
  exact h.own hr (Except.ok.inj hu)

theorem stored_of_resolve {ids : List String} {found : List User}
    (hfound : resolve r ids s = .ok found) (hu : u ∈ found) :
    registry.record s r u.id s.now = some u := by
  have hloads : ids.mapM (load r) s = .ok (ids.map fun id => registry.record s r id s.now) :=
    Query.mapM_of_ok fun id _ => load_eq h r id
  rw [resolve, Query.bind_of_ok hloads] at hfound
  obtain rfl := Except.ok.inj hfound
  obtain ⟨stored, hmem, rfl⟩ := List.mem_filterMap.mp hu
  obtain ⟨id, -, hrecord⟩ := List.mem_map.mp hmem
  exact h.own hr hrecord

theorem stored_of_loadByUsername {username : String}
    (hu : loadByUsername r username s = .ok (some u)) :
    registry.record s r u.id s.now = some u := by
  obtain ⟨owner, -, hrest⟩ := Query.exists_of_bind_ok hu
  cases owner with
  | none => cases hrest
  | some id =>
    obtain ⟨found, hload, hfound⟩ := Query.exists_of_bind_ok hrest
    obtain ⟨rfl, -⟩ := Option.filter_eq_some_iff.mp (Except.ok.inj hfound)
    exact stored_of_load h hr hload

theorem stored_of_findByServiceAccountClient {clientId : String}
    (hu : findByServiceAccountClient r clientId s = .ok (some u)) :
    registry.record s r u.id s.now = some u := by
  obtain ⟨owner, -, hrest⟩ := Query.exists_of_bind_ok hu
  cases owner with
  | none => cases hrest
  | some id => exact stored_of_load h hr hrest

theorem stored_of_loadByAttribute {name value : String} {found : List User}
    (hfound : loadByAttribute r name value s = .ok found) (hu : u ∈ found) :
    registry.record s r u.id s.now = some u := by
  obtain ⟨ids, -, hresolve⟩ := Query.exists_of_bind_ok hfound
  exact stored_of_resolve h hr hresolve hu

theorem stored_of_loadAll {found : List User} (hfound : loadAll r s = .ok found) (hu : u ∈ found) :
    registry.record s r u.id s.now = some u := by
  have hrecords : Query.records User .users r s = .ok (s.recordsIn User .users r) :=
    Query.records_eq h.holds r
  rw [loadAll, Query.bind_of_ok hrecords] at hfound
  obtain rfl := Except.ok.inj hfound
  obtain ⟨id, hrecord⟩ := (Registry.mem_recordsIn_iff (R := registry) (fun _ _ _ => rfl) hr).mp
    (List.mem_mergeSort.mp hu)
  exact h.own hr hrecord

end Stored

theorem stored_of_loadByEmail {realm : Realm} (h : registry.Kept U s) (hr : Plain realm.id)
    {email : String} (hu : loadByEmail realm email s = .ok (some u)) :
    registry.record s realm.id u.id s.now = some u := by
  rw [loadByEmail] at hu
  split at hu
  all_goals
    obtain ⟨owners, -, hrest⟩ := Query.exists_of_bind_ok hu
    obtain ⟨found, hresolve, hfound⟩ := Query.exists_of_bind_ok hrest
    rcases hlist : found.filter (·.email = some email) with _ | ⟨user, _ | ⟨other, rest⟩⟩
    · rw [hlist] at hfound
      cases hfound
    · rw [hlist] at hfound
      obtain rfl := Option.some.inj (Except.ok.inj hfound)
      have hmem : user ∈ found.filter (·.email = some email) := by
        rw [hlist]
        exact List.mem_singleton_self user
      exact stored_of_resolve h hr hresolve (List.mem_of_mem_filter hmem)
    · rw [hlist] at hfound
      cases hfound

theorem none_of_free (hr : Plain r) {p : User → Prop} {found : Option User}
    (hfound : ∀ u, found = some u ↔ u ∈ s.recordsIn User .users r ∧ p u)
    (hfree : ∀ id u, registry.record s r id s.now = some u → ¬ p u) : found = none := by
  refine Option.eq_none_iff_forall_ne_some.mpr fun u hu => ?_
  obtain ⟨hmem, hp⟩ := (hfound u).mp hu
  obtain ⟨id, hrecord⟩ := (Registry.mem_recordsIn_iff (R := registry) (fun _ _ _ => rfl) hr).mp hmem
  exact hfree id u hrecord hp

section Free

variable {strict : String → Prop} (h : registry.Kept (Sole strict) s) (hr : Plain r)
include h hr

theorem loadByUsername_of_free {username : String} (hv : NulFree username)
    (hfree : ∀ id u, registry.record s r id s.now = some u → u.username ≠ username) :
    loadByUsername r username s = .ok none := by
  obtain ⟨found, hload, hfound⟩ := loadByUsername_spec h hr hv
  rw [hload, none_of_free hr hfound hfree]

theorem findByServiceAccountClient_of_free {clientId : String} (hv : NulFree clientId)
    (hfree : ∀ id u, registry.record s r id s.now = some u →
      u.serviceAccountClientLink ≠ some clientId) :
    findByServiceAccountClient r clientId s = .ok none := by
  obtain ⟨found, hload, hfound⟩ := findByServiceAccountClient_spec h hr hv
  rw [hload, none_of_free hr hfound hfree]

end Free

theorem Request.stored {realm : Realm} {d : Desk UserCache} (h : registry.Kept U d.rows)
    (hr : Plain realm.id) (hunread : Unread d.held) {request : Request α} {answer : α}
    (hanswer : (request.perform realm d).1 = .ok answer) (hu : request.Gives answer u) :
    registry.record d.rows realm.id u.id d.rows.now = some u := by
  have hall : ∀ {found d'}, all realm.id d = (.ok found, d') → u ∈ found →
      registry.record d.rows realm.id u.id d.rows.now = some u := by
    intro found d' hfound hmem
    have hload := Work.cached_of_none lists (hunread.lists (.all realm.id)) (loadAll realm.id)
    exact stored_of_loadAll h hr (hload.symm.trans (congrArg Prod.fst hfound)) hmem
  cases request with
  | findById id =>
    obtain rfl := hu
    have hload := Work.cached_of_none lookups (hunread.lookups (.byId realm.id id)) (load realm.id id)
    exact stored_of_load h hr (hload.symm.trans hanswer)
  | findByUsername username =>
    obtain rfl := hu
    have hload := Work.cached_of_none lookups
      (hunread.lookups (.byUsername realm.id (Text.lowercase username)))
      (loadByUsername realm.id (Text.lowercase username))
    exact stored_of_loadByUsername h hr (hload.symm.trans hanswer)
  | findByEmail email =>
    obtain rfl := hu
    have hload := Work.cached_of_none lookups
      (hunread.lookups (.byEmail realm.id (Text.lowercase email)))
      (loadByEmail realm (Text.lowercase email))
    exact stored_of_loadByEmail h hr (hload.symm.trans hanswer)
  | findByServiceAccountClient clientId =>
    obtain rfl := hu
    exact stored_of_findByServiceAccountClient h hr hanswer
  | findByAttribute name value =>
    have hload := Work.cached_of_none lists (hunread.lists (.byAttribute realm.id name value))
      (loadByAttribute realm.id name value)
    exact stored_of_loadByAttribute h hr (hload.symm.trans hanswer) hu
  | findByFederationLink link => exact stored_of_loadByAttribute h hr hanswer hu
  | list page =>
    obtain ⟨found, d', hfound, hpage⟩ := Work.exists_of_bind_ok hanswer
    obtain rfl := Except.ok.inj hpage
    exact hall hfound (Page.mem_of_mem hu)
  | search term page =>
    obtain ⟨found, d', hfound, hpage⟩ := Work.exists_of_bind_ok hanswer
    obtain rfl := Except.ok.inj hpage
    exact hall hfound (List.mem_of_mem_filter (Page.mem_of_mem hu))
  | _ => exact hu.elim

end Users

end IdentityDirectory
