import IdentityDirectory.Proofs.Isolation.Footprint
import IdentityDirectory.Proofs.Registry.Backing

/-!
Realms, clients and users with the index rows that are theirs. Main statement: every operation on them
leaves no index row without its record (`Tended.effect`), as long as users are not removed or stripped of
attributes by ids that no user can have.
-/

namespace IdentityDirectory

variable {s s' : RowStore}

namespace Realms

abbrev Backed (s : RowStore) : Prop := registry.Backed (· ∈ registry.fields) s

theorem nameAttribute_mem : nameAttribute ∈ registry.fields := List.mem_singleton_self _

variable {realm : Realm} (hid : NulFree realm.id) (hname : NulFree realm.name)

include hname in
theorem keeps_claimName : Update.Keeps Backed (claimName realm.id realm.name) :=
  Registry.keeps_claimUnique (R := registry) rfl nameAttribute_mem hname .realm _

include hid

theorem keeps_commitName :
    Update.Keeps (registry.BackedWith (· ∈ registry.fields) scope realm.id)
      (commitName realm.id realm.name) :=
  Registry.keeps_commitUnique (R := registry) rfl hid nameAttribute_mem _

include hname

theorem keeps_insert : Update.Keeps Backed (insert realm) := by
  rw [insert]
  refine .bind (Update.keeps_query _) fun found => .optional (.throw _) ?_
  refine .bind (keeps_claimName hname) fun _ => Update.keeps_of fun s h => ?_
  have hreadable : s.Readable .realms := h.holds.readable
  rcases Update.putIfAbsent_cases (key realm.id) hreadable realm none with hput | hput
  · have hwritten : registry.BackedWith (· ∈ registry.fields) scope realm.id
        (s.write .realms (key realm.id).encode (Storable.payload realm) none) :=
      ⟨h.write rfl hid realm, (Registry.has_write_iff rfl rfl).mpr (.inl ⟨rfl, rfl⟩)⟩
    have hcommit : Update.Keeps _ (commitName realm.id realm.name >>= fun _ => pure realm) :=
      .bind (keeps_commitName hid) fun _ => .pure realm
    rw [Update.bind_of_ok hput]
    exact (hcommit.apply hwritten).1
  · rw [Update.bind_of_ok hput]
    exact h

theorem keeps_replace : Update.Keeps Backed (replace realm) := by
  refine .bind (Update.keeps_query _) fun found => ?_
  cases found with
  | none => exact .pure false
  | some previous =>
    have hput : registry.Stores (· ∈ registry.fields) scope realm.id
        (Update.put .realms (key realm.id) realm) :=
      Registry.stores_put (R := registry) rfl hid realm
    refine .ite (hput.bind fun _ => .pure true) ?_
    refine .bind (keeps_claimName hname) fun _ => hput.bind fun _ => ?_
    exact .bind (keeps_commitName hid) fun _ => .pure true

end Realms

namespace Clients

abbrev Backed (s : RowStore) : Prop := registry.Backed (· ∈ registry.fields) s

theorem clientIdAttribute_mem : clientIdAttribute ∈ registry.fields := List.mem_singleton_self _

variable {client : Client} (hr : Plain client.realmId) (hid : NulFree client.id)
  (hname : NulFree client.clientId)
include hr

theorem keeps_claimed {β : Type} (hid : NulFree client.id) (hname : NulFree client.clientId) (b : β) :
    Update.Keeps Backed (do
      claimClientId client
      putClaimed client
      commitClientId client
      return b) := by
  have hput : registry.Stores (· ∈ registry.fields) client.realmId client.id (putClaimed client) :=
    (Registry.stores_put (R := registry) hr hid client).discard.tryCatch _
  have hcommit : Update.Keeps (registry.BackedWith (· ∈ registry.fields) client.realmId client.id)
      (commitClientId client) :=
    Registry.keeps_commitUnique (R := registry) hr hid clientIdAttribute_mem _
  refine .bind ?_ fun _ => hput.bind fun _ => .bind hcommit fun _ => .pure b
  exact Registry.keeps_claimUnique (R := registry) hr clientIdAttribute_mem hname .client _

theorem keeps_replace (hname : NulFree client.clientId) : Update.Keeps Backed (replace client) := by
  refine Update.keeps_bind_query fun s found h hfound => ?_
  cases found with
  | none => exact h
  | some previous =>
    have hid : NulFree client.id := h.ids _ _ hr (h.has_of_record hfound)
    have hput : registry.Stores (· ∈ registry.fields) client.realmId client.id (put client) :=
      (Registry.stores_put (R := registry) hr hid client).discard
    have hrest : Update.Keeps Backed (do
        if previous.clientId = client.clientId then put client
        else
          claimClientId client
          putClaimed client
          commitClientId client
        return true) :=
      .ite (hput.bind fun _ => .pure true) (keeps_claimed hr hid hname true)
    exact hrest.apply h

end Clients

namespace Users

abbrev Backed (s : RowStore) : Prop := registry.Backed (fun _ => True) s

abbrev BackedWith (r id : String) (s : RowStore) : Prop := registry.BackedWith (fun _ => True) r id s

variable {r id : String} {user : User}

theorem keeps_release (r id : String) (claims : List Claim) :
    Update.Keeps Backed (release r id claims) :=
  .forM fun _ _ => Registry.keeps_removeReverse _

theorem keeps_claimFrom (hr : Plain r) (id : String) (taken : List Claim) {claims : List Claim}
    (hv : ∀ c ∈ claims, NulFree c.2) : Update.Keeps Backed (claimFrom r id taken claims) := by
  induction claims generalizing taken with
  | nil => exact .pure ()
  | cons c claims ih =>
    obtain ⟨f, value⟩ := c
    refine .bind (.tryCatch ?_ fun e => ?_) fun _ => ih _ fun c hc => hv c (List.mem_cons_of_mem _ hc)
    · exact Registry.keeps_claimUnique (R := registry) hr (attributeName_mem f)
        (hv _ List.mem_cons_self) f.kind _
    · exact .bind (keeps_release r id taken) fun _ => .throw e

section Writes

variable (hr : Plain user.realmId) (hid : NulFree user.id)
include hr hid

theorem stores_putClaimed (claims : List Claim) :
    registry.Stores (fun _ => True) user.realmId user.id (putClaimed user claims) :=
  (Registry.stores_put (R := registry) hr hid user).discard.tryCatch _

theorem keeps_commit (f : UniqueField) :
    Update.Keeps (BackedWith user.realmId user.id) (commit user f) :=
  Registry.keeps_commitUnique (R := registry) hr hid trivial _

theorem keeps_setIndexed (name : String) (value : Option String) :
    Update.Keeps (BackedWith user.realmId user.id) (setIndexed user name value) :=
  Registry.keeps_setAttribute (R := registry) hr hid trivial _

theorem keeps_insert (hname : NulFree user.username) : Update.Keeps Backed (insert user) := by
  refine .bind (keeps_claimFrom hr user.id [] ?_) fun _ => ?_
  · rintro c hc
    obtain rfl := List.mem_singleton.mp hc
    exact hname
  · exact (stores_putClaimed hr hid _).bind fun _ =>
      .bind (keeps_commit hr hid .username) fun _ => .pure user

theorem keeps_reindex (realm : Realm) (previous : User) :
    Update.Keeps (BackedWith user.realmId user.id) (reindex realm previous user) := by
  rw [reindex_steps]
  refine .bind (.ite (keeps_commit hr hid .username) (.pure ())) fun _ => ?_
  refine .bind (.ite (.ite ?_ (keeps_commit hr hid .email)) (.pure ())) fun _ => ?_
  · exact keeps_setIndexed hr hid _ _
  refine .bind (.ite (keeps_setIndexed hr hid _ _) (.pure ())) fun _ => ?_
  exact .ite (keeps_commit hr hid .serviceAccount) (.pure ())

end Writes

theorem keeps_replace {realm : Realm} (hr : Plain realm.id)
    (hvalues : Indexable (normalize realm user)) : Update.Keeps Backed (replace realm user) := by
  refine Update.keeps_bind_query fun s found h hfound => ?_
  cases found with
  | none => exact h
  | some previous =>
    have hid : NulFree user.id := h.ids _ _ hr (h.has_of_record hfound)
    have hclaims : ∀ c ∈ newClaims realm previous (normalize realm user), NulFree c.2 := by
      rintro ⟨f, value⟩ hc
      obtain ⟨-, hvalue, -⟩ := mem_newClaims_iff.mp hc
      rw [← field_attributeName] at hvalue
      exact hvalues _ (attributeName_mem f) value hvalue
    have hrest : Update.Keeps Backed (do
        claimAll realm.id user.id (newClaims realm previous (normalize realm user))
        putClaimed (normalize realm user) (newClaims realm previous (normalize realm user))
        reindex realm previous (normalize realm user)
        return true) := by
      have hr : Plain (normalize realm user).realmId := hr
      have hid : NulFree (normalize realm user).id := hid
      refine .bind (keeps_claimFrom hr user.id [] hclaims) fun _ => ?_
      refine (stores_putClaimed hr hid _).bind fun _ => ?_
      exact .bind (keeps_reindex hr hid realm previous) fun _ => .pure true
    exact hrest.apply h

section Stored

variable (hr : Plain r)
include hr

theorem keeps_alter (id : String) (change : User → Option User) :
    Update.Keeps Backed (alter r id change) := by
  refine Update.keeps_bind_query fun s found h hfound => ?_
  cases hchanged : found.bind change with
  | none => exact h
  | some user =>
    obtain ⟨previous, rfl, -⟩ := Option.bind_eq_some_iff.mp hchanged
    have hid : NulFree id := h.ids _ _ hr (h.has_of_record hfound)
    have hput : registry.Stores (fun _ => True) r id (Update.put .users (key r id) user) :=
      Registry.stores_put (R := registry) hr hid user
    exact (hput.bind fun _ => Boundary.Isolates.pure true).apply h

theorem keeps_putAttribute (id name : String) (values : List String) :
    Update.Keeps Backed (putAttribute r id name values) := by
  refine Update.keeps_bind_query fun s found h hfound => ?_
  cases found with
  | none => exact h
  | some user =>
    have hhas : registry.Has s r id := h.has_of_record hfound
    have hset : Update.Keeps (BackedWith r id) (do
        AttributeIndex.users.setAttribute r id name values none
        return true) :=
      .bind (Registry.keeps_setAttribute (R := registry) hr (h.ids r id hr hhas) trivial values)
        fun _ => .pure true
    exact (hset.apply ⟨h, hhas⟩).1

end Stored

end Users

namespace Registries

open Registry (Always)

def registryTables : List Table :=
  Realms.registry.tables ++ Clients.registry.tables ++ Users.registry.tables

structure Tended (s : RowStore) : Prop where
  upheld : Upheld (fun _ => False) s
  realms : Realms.Backed s
  clients : Clients.Backed s
  users : Users.Backed s

theorem Upheld.elsewhere {strict : String → Prop} {tables : List Table} (h : Upheld strict s)
    (ho : RowStore.OnlyIn tables s s') (hne : ∀ t ∈ registryTables, t ∉ tables) :
    Upheld strict s' := by
  have ht : ∀ t ∈ registryTables, s'.table t = s.table t := fun t hmem => ho.table t (hne t hmem)
  constructor
  · apply h.realms.congr_tables ho.now <;> apply ht <;> decide
  · apply h.clients.congr_tables ho.now <;> apply ht <;> decide
  · apply h.users.congr_tables ho.now <;> apply ht <;> decide

theorem Tended.elsewhere {tables : List Table} (h : Tended s) (ho : RowStore.OnlyIn tables s s')
    (hne : ∀ t ∈ registryTables, t ∉ tables) : Tended s' := by
  have ht : ∀ t ∈ registryTables, s'.table t = s.table t := fun t hmem => ho.table t (hne t hmem)
  constructor
  · exact h.upheld.elsewhere ho hne
  · apply h.realms.congr_tables ho.now <;> apply ht <;> decide
  · apply h.clients.congr_tables ho.now <;> apply ht <;> decide
  · apply h.users.congr_tables ho.now <;> apply ht <;> decide

structure Tends (s s' : RowStore) : Prop where
  tended : Tended s'
  onlyIn : RowStore.OnlyIn registryTables s s'

theorem Tended.tends (h : Tended s) : Tends s s := ⟨h, .refl _ s⟩

theorem onlyIn_of_confined {α : Type} [Storable α] {R : Registry α} (hc : R.Confined s s')
    (hmem : ∀ t ∈ R.tables, t ∈ registryTables) : RowStore.OnlyIn registryTables s s' :=
  ⟨hc.now, fun _ hnot => hc.table_of_notMem fun ht => hnot (hmem _ ht)⟩

theorem Tended.of_realms (h : Tended s) (hm : Realms.registry.Moved Always s s')
    (hb : Realms.Backed s') : Tends s s' where
  tended :=
    { upheld := h.upheld.of_realms hm
      realms := hb
      clients := h.clients.of_confined hm.confined (by decide)
      users := h.users.of_confined hm.confined (by decide) }
  onlyIn := onlyIn_of_confined hm.confined (by decide)

theorem Tended.of_clients (h : Tended s) (hm : Clients.registry.Moved Always s s')
    (hb : Clients.Backed s') : Tends s s' where
  tended :=
    { upheld := h.upheld.of_clients hm
      realms := h.realms.of_confined hm.confined (by decide)
      clients := hb
      users := h.users.of_confined hm.confined (by decide) }
  onlyIn := onlyIn_of_confined hm.confined (by decide)

theorem Tended.of_users (h : Tended s)
    (hm : Users.registry.Moved (Users.Sole fun _ => False) s s') (hb : Users.Backed s') :
    Tends s s' where
  tended :=
    { upheld := h.upheld.of_users hm
      realms := h.realms.of_confined hm.confined (by decide)
      clients := h.clients.of_confined hm.confined (by decide)
      users := hb }
  onlyIn := onlyIn_of_confined hm.confined (by decide)

theorem tended_empty (now : Int) : Tended (.empty now) :=
  ⟨upheld_empty _ now, Registry.backed_empty _ _ now, Registry.backed_empty _ _ now,
    Registry.backed_empty _ _ now⟩

theorem Tended.sweep (h : Tended s) : Tended s.sweep.2 :=
  ⟨h.upheld.sweep, h.realms.sweep, h.clients.sweep, h.users.sweep⟩

theorem Tended.later (h : Tended s) {now : Int} (hle : s.now ≤ now) : Tended { s with now } :=
  ⟨h.upheld.later hle, h.realms.later h.upheld.realms hle, h.clients.later h.upheld.clients hle,
    h.users.later h.upheld.users hle⟩

theorem tends_discard {α : Type} {u : Update α} (h : Tends s (u s).2) :
    Tends s ((discard u : Update Unit) s).2 := by
  rw [Update.discard_rows]
  exact h

section Removals

variable (h : Tended s) {r : String}
include h

theorem Tended.deleteRealm (id : String) : Tends s (Realms.delete id s).2 := by
  have hkept := h.upheld.realms
  obtain ⟨removed, heq⟩ := Registry.erase_eq hkept.holds hkept.regular.sound Realms.scope id
  have heq : Realms.delete id s = (.ok removed, Realms.registry.erase s Realms.scope id) := heq
  have hbacked : Realms.Backed (Realms.registry.erase s Realms.scope id) :=
    h.realms.erase rfl (.inr fun name hn => (Realms.registry.fields_plain name hn).1)
  rw [heq]
  dsimp only
  exact h.of_realms (hkept.erase rfl id) hbacked

theorem Tended.deleteClient (hr : Plain r) (id : String) : Tends s (Clients.delete r id s).2 := by
  obtain ⟨removed, heq⟩ := Registry.erase_eq h.upheld.clients.holds h.upheld.clients.regular.sound r id
  have heq : Clients.delete r id s = (.ok removed, Clients.registry.erase s r id) := heq
  have hbacked : Clients.Backed (Clients.registry.erase s r id) :=
    h.clients.erase hr (.inr fun name hn => (Clients.registry.fields_plain name hn).1)
  rw [heq]
  dsimp only
  exact h.of_clients (h.upheld.clients.erase hr id) hbacked

theorem Tended.deleteUser (hr : Plain r) {id : String} (hid : NulFree id) :
    Tends s (Users.delete r id s).2 := by
  obtain ⟨removed, heq⟩ := Registry.erase_eq h.upheld.users.holds h.upheld.users.regular.sound r id
  have heq : Users.delete r id s = (.ok removed, Users.registry.erase s r id) := heq
  have hbacked : Users.Backed (Users.registry.erase s r id) := h.users.erase hr (.inl hid)
  rw [heq]
  dsimp only
  exact h.of_users (h.upheld.users.erase hr id) hbacked

theorem Tended.deleteClients (hr : Plain r) : Tends s (Clients.deleteAll r s).2 := by
  have heq : Clients.deleteAll r s = (_, Clients.registry.eraseAll s r) :=
    Registry.eraseAll_eq h.upheld.clients.holds h.upheld.clients.regular.sound r
  have hkey : ∀ r id, Plain r → Clients.key r id = ⟨r, id⟩ := fun _ _ _ => rfl
  have hbacked : Clients.Backed (Clients.registry.eraseAll s r) :=
    h.clients.eraseAll hkey h.upheld.clients hr
  rw [heq]
  dsimp only
  exact h.of_clients (h.upheld.clients.eraseAll hkey hr) hbacked

theorem Tended.deleteUsers (hr : Plain r) : Tends s (Users.deleteAll r s).2 := by
  have heq : Users.deleteAll r s = (_, Users.registry.eraseAll s r) :=
    Registry.eraseAll_eq h.upheld.users.holds h.upheld.users.regular.sound r
  have hkey : ∀ r id, Plain r → Users.key r id = ⟨r, id⟩ := fun _ _ _ => rfl
  have hbacked : Users.Backed (Users.registry.eraseAll s r) :=
    h.users.eraseAll hkey h.upheld.users hr
  rw [heq]
  dsimp only
  exact h.of_users (h.upheld.users.eraseAll hkey hr) hbacked

end Removals

/-- Users are removed and stripped of attributes by ids whose index keys can be told apart. -/
def Operation.Addressed : Operation → Prop
  | removeUser _ id | removeAttribute _ id _ => NulFree id
  | _ => True

instance : (op : Operation) → Decidable op.Addressed
  | .removeUser _ id | .removeAttribute _ id _ => inferInstanceAs (Decidable (NulFree id))
  | .createRealm .. | .updateRealm _ | .removeRealm _ | .createClient .. | .updateClient _
  | .removeClient .. | .removeClients _ | .createUser .. | .updateUser .. | .removeUsers _
  | .joinGroup .. | .leaveGroup .. | .grantRole .. | .revokeRole .. | .addRequiredAction ..
  | .removeRequiredAction .. | .setAttribute .. => inferInstanceAs (Decidable True)

section Effects

variable (h : Tended s) {drawn : String} (hdrawn : NulFree drawn)
include h

theorem Tended.alter {r : String} (hr : Plain r) (id : String) {change : User → Option User}
    (hchange : Users.KeepsFields change) : Tends s (Users.alter r id change s).2 := by
  obtain ⟨done, s', heq, hmoved⟩ : ∃ done s', Users.alter r id change s = (.ok done, s') ∧
      Users.registry.Moved (Users.Sole fun _ => False) s s' :=
    Users.alter_spec h.upheld.users hr hchange
  have hbacked := (Users.keeps_alter hr id change).apply h.users
  rw [heq] at hbacked ⊢
  exact h.of_users hmoved hbacked

include hdrawn

theorem Tended.createRealm {id : Option String} {name : String}
    (hv : (Operation.createRealm id name).Valid s drawn) :
    Tends s (Realms.insert { id := id.getD drawn, name, enabled := true } s).2 := by
  have hid : NulFree (id.getD drawn) := by
    cases id with
    | none => exact hdrawn
    | some i => exact (hv.2.1 i rfl).1
  refine h.of_realms (Realms.insert_spec h.upheld.realms ?_ hv.1).1
    ((Realms.keeps_insert ?_ hv.1).apply h.realms)
  · exact hid
  · exact hid

theorem Tended.createClient {realmId clientId : String}
    (hv : (Operation.createClient realmId clientId).Valid s drawn) :
    Tends s (Clients.insert { realmId, id := drawn, clientId, enabled := true } s).2 := by
  refine h.of_clients (Clients.insert_spec h.upheld.clients hv.1 ?_ hv.2.1).1
    ((Clients.keeps_claimed hv.1 ?_ hv.2.1 _).apply h.clients)
  · exact hdrawn
  · exact hdrawn

theorem Tended.createUser {realm : Realm} {username : String}
    (hv : (Operation.createUser realm username).Valid s drawn) :
    Tends s (Operation.insertUser realm username drawn s).2 := by
  obtain ⟨hr, hname, hfresh⟩ := hv
  let user : User :=
    { realmId := realm.id
      id := drawn
      username := Text.lowercase username
      createdTimestamp := s.now }
  rw [Users.load_eq h.upheld.users] at hfresh
  have hspec : Users.registry.Moved (Users.Sole fun _ => False) s (Users.insert user s).2 ∧ _ :=
    Users.insert_spec h.upheld.users hr hdrawn hname (Except.ok.inj hfresh)
      (Users.field_of_created _ _ _ _)
  have hkeeps : Update.Keeps Users.Backed (Users.insert user) :=
    Users.keeps_insert hr hdrawn hname
  have hbacked := hkeeps.apply h.users
  have hinsert : Operation.insertUser realm username drawn s = Users.insert user s :=
    Update.bind_liftM_of_ok (Query.now_apply s) _
  rw [hinsert]
  exact h.of_users hspec.1 hbacked

theorem Tended.effect {op : Operation} (hv : op.Valid s drawn) (haddressed : op.Addressed) :
    Tends s (op.effect drawn s).2 := by
  cases op with
  | createRealm id name => exact tends_discard (h.createRealm hdrawn hv)
  | updateRealm realm =>
    exact tends_discard <| h.of_realms (Realms.replace_spec h.upheld.realms hv.1.1 hv.2).1
      ((Realms.keeps_replace hv.1.1 hv.2).apply h.realms)
  | removeRealm id => exact tends_discard (h.deleteRealm id)
  | createClient realmId clientId => exact tends_discard (h.createClient hdrawn hv)
  | updateClient client =>
    exact tends_discard <| h.of_clients (Clients.replace_spec h.upheld.clients hv.1 hv.2).1
      ((Clients.keeps_replace hv.1 hv.2).apply h.clients)
  | removeClient realmId id => exact tends_discard (h.deleteClient hv id)
  | removeClients realmId => exact tends_discard (h.deleteClients hv)
  | createUser realm username => exact tends_discard (h.createUser hdrawn hv)
  | updateUser realm user =>
    exact tends_discard <|
      h.of_users (Users.replace_spec h.upheld.users hv.1 hv.2 False.elim).1
        ((Users.keeps_replace hv.1 hv.2).apply h.users)
  | removeUser realmId id => exact tends_discard (h.deleteUser hv haddressed)
  | removeUsers realmId => exact tends_discard (h.deleteUsers hv)
  | joinGroup realmId id group | leaveGroup realmId id group =>
    exact tends_discard (h.alter hv id (Users.keepsFields_withGroups _))
  | grantRole realmId id role | revokeRole realmId id role =>
    exact tends_discard (h.alter hv id (Users.keepsFields_withRoles _))
  | addRequiredAction realmId id action | removeRequiredAction realmId id action =>
    exact tends_discard (h.alter hv id (Users.keepsFields_withActions _))
  | setAttribute realmId id name values =>
    apply tends_discard
    rw [Operation.unlessInternal]
    split
    · exact h.tends
    · next hname =>
      obtain ⟨done, s', heq, hmoved⟩ : ∃ done s',
          Users.putAttribute realmId id name values s = (.ok done, s') ∧
            Users.registry.Moved (Users.Sole fun _ => False) s s' :=
        Users.putAttribute_spec h.upheld.users hv (Bool.eq_false_iff.mpr hname) values
      have hbacked := (Users.keeps_putAttribute hv id name values).apply h.users
      rw [heq] at hbacked ⊢
      exact h.of_users hmoved hbacked
  | removeAttribute realmId id name =>
    apply tends_discard
    rw [Operation.unlessInternal]
    split
    · exact h.tends
    · next hname =>
      obtain ⟨removed, s', heq, hmoved⟩ := Registry.clearOther_eq (of_decide_eq_false
        (Bool.eq_false_iff.mpr hname)) h.upheld.users hv id
      have heq : AttributeIndex.users.removeAttribute realmId id name s = (.ok removed, s') := heq
      have hbacked : Users.Backed (AttributeIndex.users.removeAttribute realmId id name s).2 :=
        (Registry.keeps_removeAttribute (R := Users.registry) hv haddressed).apply h.users
      rw [heq] at hbacked ⊢
      exact h.of_users hmoved hbacked

end Effects

end Registries

end IdentityDirectory
