import IdentityDirectory.Proofs.Isolation.Reads
import IdentityDirectory.Proofs.Memory.Rules
import IdentityDirectory.Proofs.Registry.Footprint
import IdentityDirectory.Proofs.Registry.Staleness

/-!
Users with and without a memory of what was looked up. A unit of work that has the store to itself gets
the same answers either way, but for one: an email that several users share is nobody's where the realm
allows that and an error where it does not, and what was remembered under the one policy is answered
under the other. Main statements: `Request.oblivious`, and `answers_agree_unless_masked`.
-/

namespace IdentityDirectory.Users

open Registries (Right)
open Work (Oblivious)

variable {α β : Type} {s s' : RowStore} {c : UserCache} {d d' : Desk UserCache} {realm : Realm}

def Lasting (cell : Option Cell) : Prop := ∀ row, cell = some (.row row) → row.expiresAt = none

def ofUsers (t : Table) : Prop :=
  t = .users ∨ t = AttributeIndex.users.forward ∨ t = AttributeIndex.users.reverse

def AllLasting (s : RowStore) : Prop := ∀ t key, ofUsers t → Lasting ((s.table t).get? key)

def lasting (_ : Int) (_ : Table) (_ : String) (cell : Option Cell) : Prop := Lasting cell

theorem lasting_none : Lasting none := by
  intro row hcell
  cases hcell

theorem puts_lasting (now : Int) (t : Table) (key : String) (payload : Payload) :
    RowStore.Puts lasting now t key payload none := by
  intro version row hcell
  obtain rfl := Cell.row.inj (Option.some.inj hcell)
  rfl

theorem allLasting_empty (now : Int) : AllLasting (.empty now) := by
  intro t key _
  rw [RowStore.table_empty]
  exact lasting_none

theorem AllLasting.wrote (h : AllLasting s) (hw : RowStore.Wrote lasting s s') : AllLasting s' := by
  intro t key ht
  rcases hw.cells t key with hsame | hnew
  · exact hsame ▸ h t key ht
  · exact hnew

theorem writable_lasting : registry.Writable lasting where
  removed _ _ _ _ := lasting_none
  written now t key payload _ := puts_lasting now t key payload

def Timeless (q : Query α) : Prop := ∀ s now, AllLasting s → q { s with now } = q s

theorem AllLasting.lastingIn (h : AllLasting s) : RowStore.LastingIn registry.tables s :=
  fun t ht key row hcell => h t key (Registry.mem_tables_iff.mp ht) row hcell

theorem timeless_of_reads {q : Query α} (h : Query.ReadsOnly registry.tables q) : Timeless q :=
  fun _ _ hs => h _ _ ⟨fun _ _ => rfl, .inr hs.lastingIn⟩

theorem reads_load (r id : String) : Query.ReadsOnly registry.tables (load r id) :=
  .record (by decide) _

theorem reads_resolve (r : String) (ids : List String) :
    Query.ReadsOnly registry.tables (resolve r ids) :=
  .bind (.mapM fun id _ => reads_load r id) fun _ => .pure _

theorem reads_findBy (r name value : String) :
    Query.ReadsOnly registry.tables (AttributeIndex.users.findBy r name value) :=
  AttributeIndex.reads_findBy (by decide) r name value

theorem reads_findUnique (r name value : String) :
    Query.ReadsOnly registry.tables (AttributeIndex.users.findUnique r name value) :=
  AttributeIndex.reads_findUnique (by decide) r name value

theorem reads_loadByUsername (r username : String) :
    Query.ReadsOnly registry.tables (loadByUsername r username) := by
  refine .bind (reads_findUnique r _ _) fun owner => ?_
  cases owner with
  | none => exact .pure none
  | some id => exact .bind (reads_load r id) fun _ => .pure _

theorem reads_loadByEmail (realm : Realm) (email : String) :
    Query.ReadsOnly registry.tables (loadByEmail realm email) := by
  rw [loadByEmail]
  split
  · refine .bind (reads_findBy _ _ _) fun owners => ?_
    refine .bind (reads_resolve _ owners) fun users => ?_
    split <;> exact .pure _
  · refine .bind (.bind (reads_findUnique _ _ _) fun _ => .pure _) fun owners => ?_
    refine .bind (reads_resolve _ owners) fun users => ?_
    split <;> exact .pure _

theorem reads_loadByAttribute (r name value : String) :
    Query.ReadsOnly registry.tables (loadByAttribute r name value) :=
  .bind (reads_findBy r name value) fun ids => reads_resolve r ids

theorem reads_loadAll (r : String) : Query.ReadsOnly registry.tables (loadAll r) :=
  .bind (.records (by decide) r) fun _ => .pure _

/-- The index names several owners of an email. -/
def SharedEmail (s : RowStore) (r email : String) (owners : List String) : Prop :=
  AttributeIndex.users.findBy r UniqueField.email.attributeName email s = .ok owners ∧
    2 ≤ owners.length

instance (s : RowStore) (r email : String) (owners : List String) :
    Decidable (SharedEmail s r email owners) := inferInstanceAs (Decidable (_ ∧ _))

theorem findUnique_of_few {r name value : String} {owners : List String}
    (h : AttributeIndex.users.findBy r name value s = .ok owners) (hfew : ¬ 2 ≤ owners.length) :
    (Option.toList <$> AttributeIndex.users.findUnique r name value : Query (List String)) s =
      .ok owners := by
  obtain ⟨owner, hfound, rfl⟩ : ∃ owner,
      AttributeIndex.users.findUnique r name value s = .ok owner ∧ owner.toList = owners := by
    rw [AttributeIndex.findUnique, Query.bind_of_ok h]
    rcases owners with _ | ⟨owner, _ | ⟨other, owners⟩⟩
    · exact ⟨none, rfl, rfl⟩
    · exact ⟨some owner, rfl, rfl⟩
    · simp at hfew
  exact Query.map_of_ok hfound _

theorem loadByEmail_of_few {realm' : Realm} (hid : realm'.id = realm.id) {email : String}
    {owners : List String}
    (h : AttributeIndex.users.findBy realm.id UniqueField.email.attributeName email s = .ok owners)
    (hfew : ¬ 2 ≤ owners.length) : loadByEmail realm' email s = loadByEmail realm email s := by
  have hunique := findUnique_of_few h hfew
  rw [loadByEmail, loadByEmail, hid]
  split
  · split
    · rfl
    · rw [Query.bind_of_ok h, Query.bind_of_ok hunique]
  · split
    · rw [Query.bind_of_ok h, Query.bind_of_ok hunique]
    · rfl

theorem loadByEmail_of_shared {email : String} {owners : List String}
    (hpolicy : realm.duplicateEmailsAllowed = false) (h : SharedEmail s realm.id email owners) :
    loadByEmail realm email s =
      .error (.indexInconsistency UniqueField.email.attributeName email owners) := by
  have hunique : AttributeIndex.users.findUnique realm.id UniqueField.email.attributeName email s =
      .error (.indexInconsistency UniqueField.email.attributeName email owners) := by
    rw [AttributeIndex.findUnique, Query.bind_of_ok h.1]
    obtain ⟨-, hlength⟩ := h
    rcases owners with _ | ⟨owner, _ | ⟨other, owners⟩⟩
    · simp at hlength
    · simp at hlength
    · rfl
  rw [loadByEmail, hpolicy]
  exact Query.bind_of_error (Query.map_of_error hunique _) _

theorem loadByEmail_congr {realm realm' : Realm} (hid : realm'.id = realm.id)
    (hpolicy : realm'.duplicateEmailsAllowed = realm.duplicateEmailsAllowed) (email : String) :
    loadByEmail realm' email s = loadByEmail realm email s := by
  rw [loadByEmail, loadByEmail, hid, hpolicy]

theorem findBy_of_loadByEmail {email : String} {found : Option User}
    (h : loadByEmail realm email s = .ok found) : ∃ owners,
    AttributeIndex.users.findBy realm.id UniqueField.email.attributeName email s = .ok owners := by
  cases howners : AttributeIndex.users.findBy realm.id UniqueField.email.attributeName email s with
  | ok owners => exact ⟨owners, rfl⟩
  | error e =>
    have hunique : AttributeIndex.users.findUnique realm.id UniqueField.email.attributeName email s =
        .error e := by
      rw [AttributeIndex.findUnique, Query.bind_of_error howners]
    have hfail : loadByEmail realm email s = .error e := by
      rw [loadByEmail]
      split
      · exact Query.bind_of_error howners _
      · exact Query.bind_of_error (Query.map_of_error hunique _) _
    rw [hfail] at h
    cases h

def lenient (realm : Realm) : Realm := { realm with duplicateEmailsAllowed := true }

theorem loadByEmail_or_shared {realm' : Realm} (hid : realm'.id = realm.id) {email : String}
    {found : Option User} (h : loadByEmail realm' email s = .ok found) :
    loadByEmail realm email s = .ok found ∨ realm.duplicateEmailsAllowed = false ∧
      (∃ owners, SharedEmail s realm.id email owners) ∧
      loadByEmail (lenient realm) email s = .ok found := by
  obtain ⟨owners, howners⟩ := findBy_of_loadByEmail h
  rw [hid] at howners
  by_cases hshared : 2 ≤ owners.length
  · cases hpolicy' : realm'.duplicateEmailsAllowed with
    | false =>
      have hsame : SharedEmail s realm'.id email owners := ⟨hid ▸ howners, hshared⟩
      rw [loadByEmail_of_shared hpolicy' hsame] at h
      cases h
    | true =>
      cases hpolicy : realm.duplicateEmailsAllowed with
      | false =>
        have hlenient : loadByEmail realm' email s = loadByEmail (lenient realm) email s :=
          loadByEmail_congr (show realm'.id = (lenient realm).id from hid) hpolicy' email
        exact .inr ⟨rfl, ⟨owners, howners, hshared⟩, hlenient.symm.trans h⟩
      | true => exact .inl ((loadByEmail_congr hid (hpolicy'.trans hpolicy.symm) email).symm.trans h)
  · exact .inl ((loadByEmail_of_few hid howners hshared).symm.trans h)

def RightList (s : RowStore) (found : List User) : UserListing → Prop
  | .all r => loadAll r s = .ok found
  | .byAttribute r name value => loadByAttribute r name value s = .ok found

structure Remembering (s : RowStore) (c : UserCache) : Prop where
  lasting : AllLasting s
  lookups : ∀ key found, c.lookups.find? key = some found → Right s found key
  lists : ∀ key found, c.lists.find? key = some found → RightList s found key

structure Forgotten (s : RowStore) (c : UserCache) : Prop where
  lasting : AllLasting s
  lookups : ∀ key, c.lookups.find? key = none
  lists : ∀ key, c.lists.find? key = none

def Disabled (c : UserCache) : Prop := c.lookups.enabled = false ∧ c.lists.enabled = false

theorem Forgotten.remembering (h : Forgotten s c) : Remembering s c := by
  refine ⟨h.lasting, fun key found hfound => ?_, fun key found hfound => ?_⟩
  · rw [h.lookups] at hfound
    cases hfound
  · rw [h.lists] at hfound
    cases hfound

theorem Remembering.at_time (h : Remembering s c) (now : Int) : Remembering { s with now } c := by
  refine ⟨h.lasting, fun key found hfound => ?_, fun key found hfound => ?_⟩
  · have hright := h.lookups key found hfound
    cases key with
    | byId r id => exact (timeless_of_reads (reads_load r id) s now h.lasting).trans hright
    | byUsername r name =>
      exact (timeless_of_reads (reads_loadByUsername r name) s now h.lasting).trans hright
    | byEmail r email =>
      obtain ⟨realm, hid, hload⟩ := hright
      have hsame := timeless_of_reads (reads_loadByEmail realm email) s now h.lasting
      exact ⟨realm, hid, hsame.trans hload⟩
  · have hright := h.lists key found hfound
    cases key with
    | all r => exact (timeless_of_reads (reads_loadAll r) s now h.lasting).trans hright
    | byAttribute r name value =>
      exact (timeless_of_reads (reads_loadByAttribute r name value) s now h.lasting).trans hright

theorem Remembering.lookedUp {key : UserLookup} {found : Option User} (h : Remembering s c)
    (hright : Right s found key) :
    Remembering s { c with lookups := c.lookups.remember key found } := by
  refine ⟨h.lasting, fun key' found' hfound => ?_, h.lists⟩
  rcases QueryCache.of_find?_remember hfound with ⟨rfl, rfl⟩ | hold
  · exact hright
  · exact h.lookups key' found' hold

theorem Remembering.listed {key : UserListing} {found : List User} (h : Remembering s c)
    (hright : RightList s found key) :
    Remembering s { c with lists := c.lists.remember key found } := by
  refine ⟨h.lasting, h.lookups, fun key' found' hfound => ?_⟩
  rcases QueryCache.of_find?_remember hfound with ⟨rfl, rfl⟩ | hold
  · exact hright
  · exact h.lists key' found' hold

theorem oblivious_forgetting {work : Work UserCache α} (h : Oblivious Forgotten Disabled work) :
    Oblivious Remembering Disabled (invalidate >>= fun _ => work) :=
  Oblivious.forgetting (fun _ c hI => ⟨hI.lasting, c.lookups.find?_forget, c.lists.find?_forget⟩)
    (fun _ hc => hc) (fun _ _ hI => hI.remembering) h

theorem oblivious_update {u : Update α} (h : Update.Writes lasting u) :
    Oblivious Forgotten Disabled (liftM u : Work UserCache α) :=
  Oblivious.update fun s _ hI => ⟨hI.lasting.wrote (h.wrote s), hI.lookups, hI.lists⟩

theorem oblivious_lookup {key : UserLookup} {load : Query (Option User)}
    (h : ∀ s found, Right s found key ↔ load s = .ok found) :
    Oblivious Remembering Disabled (Work.cached lookups key load) :=
  Oblivious.cached (fun _ hc => hc.1) (fun s _ found hI hload => hI.lookedUp ((h s found).mpr hload))
    fun s _ found hI hfound => (h s found).mp (hI.lookups key found hfound)

theorem oblivious_listing {key : UserListing} {load : Query (List User)}
    (h : ∀ s found, RightList s found key ↔ load s = .ok found) :
    Oblivious Remembering Disabled (Work.cached lists key load) :=
  Oblivious.cached (fun _ hc => hc.2) (fun s _ found hI hload => hI.listed ((h s found).mpr hload))
    fun s _ found hI hfound => (h s found).mp (hI.lists key found hfound)

theorem oblivious_all (r : String) : Oblivious Remembering Disabled (all r) :=
  oblivious_listing fun _ _ => Iff.rfl

theorem oblivious_create (realm : Realm) (username : String) :
    Oblivious Remembering Disabled (create realm username) := by
  refine oblivious_forgetting (.bind Oblivious.newId fun id => ?_)
  refine .bind (Oblivious.query _) fun now => oblivious_update ?_
  exact writes_insert (writable_of_registry writable_lasting _ _)

theorem oblivious_modify (r id : String) (change : User → Option User) :
    Oblivious Remembering Disabled (modify r id change) :=
  oblivious_forgetting (oblivious_update (writes_alter writable_lasting r id change))

theorem oblivious_refuseInternal (name : String) :
    Oblivious Remembering Disabled (refuseInternal name) := by
  rw [refuseInternal]
  split
  · exact .throw _
  · exact .pure ()

/-- The request looks up an email, whose owner depends on more than what it is remembered under. -/
def Request.AsksEmail : Request α → Prop
  | findByEmail _ => True
  | _ => False

theorem Request.oblivious (realm : Realm) {request : Request α} (h : ¬ request.AsksEmail) :
    Oblivious Remembering Disabled (request.perform realm) := by
  cases request with
  | findByEmail email => exact absurd trivial h
  | create username => exact oblivious_create realm username
  | findById id => exact oblivious_lookup fun _ _ => Iff.rfl
  | findByUsername username => exact oblivious_lookup fun _ _ => Iff.rfl
  | findByAttribute name value => exact oblivious_listing fun _ _ => Iff.rfl
  | findByFederationLink link => exact Oblivious.query _
  | findByServiceAccountClient clientId => exact Oblivious.query _
  | list page => exact .bind (oblivious_all realm.id) fun _ => .pure _
  | search term page => exact .bind (oblivious_all realm.id) fun _ => .pure _
  | count => exact .bind (oblivious_all realm.id) fun _ => .pure _
  | update user =>
    refine oblivious_forgetting (oblivious_update ?_)
    exact writes_replace realm user (writable_of_registry writable_lasting _ _)
  | joinGroup | leaveGroup | grantRole | revokeRole | addRequiredAction | removeRequiredAction =>
    exact oblivious_modify realm.id _ _
  | setAttribute id name values =>
    refine .bind (oblivious_refuseInternal name) fun _ => ?_
    refine oblivious_forgetting (oblivious_update ?_)
    exact writes_putAttribute ((writable_lasting.index realm.id).owns id name) values
  | removeAttribute id name =>
    refine .bind (oblivious_refuseInternal name) fun _ => oblivious_forgetting (oblivious_update ?_)
    exact ((writable_lasting.index realm.id).owns id name).writes_removeAttribute
  | attributes id => exact Oblivious.query _
  | remove id =>
    exact oblivious_forgetting (oblivious_update (writes_delete writable_lasting realm.id id))
  | removeAll =>
    exact oblivious_forgetting (oblivious_update (writes_deleteAll writable_lasting realm.id))

abbrev Alike (d d' : Desk UserCache) : Prop :=
  (Boundary.memory Remembering Disabled).shared d d'

theorem Alike.findByEmail (h : Alike d d') (realm : Realm) (email : String) :
    Alike (Users.findByEmail realm email d).2 (Users.findByEmail realm email d').2 :=
  Work.shared_cached (fun _ hc => hc.1) (fun _ _ _ hI hload => hI.lookedUp ⟨realm, rfl, hload⟩) h

/-- The desk remembers an answer for an email that is shared, though the realm does not allow that. -/
def Masked (d : Desk UserCache) (realm : Realm) (email : String) (found : Option User)
    (owners : List String) : Prop :=
  realm.duplicateEmailsAllowed = false ∧
    d.held.lookups.find? (.byEmail realm.id (Text.lowercase email)) = some found ∧
    SharedEmail d.rows realm.id (Text.lowercase email) owners

instance (d : Desk UserCache) (realm : Realm) (email : String) (found : Option User)
    (owners : List String) : Decidable (Masked d realm email found owners) :=
  inferInstanceAs (Decidable (_ ∧ _ ∧ _))

theorem Alike.findByEmail_of_masked {email : String} {found : Option User} {owners : List String}
    (h : Alike d d') (hm : Masked d realm email found owners) :
    (Users.findByEmail realm email d).1 = .ok found ∧
      (Users.findByEmail realm email d').1 = .error
        (.indexInconsistency UniqueField.email.attributeName (Text.lowercase email) owners) ∧
      loadByEmail (lenient realm) (Text.lowercase email) d.rows = .ok found := by
  obtain ⟨hpolicy, hfound, hshared⟩ := hm
  have hfail := loadByEmail_of_shared hpolicy hshared
  refine ⟨Work.cached_of_some lookups hfound _, ?_, ?_⟩
  · rw [Users.findByEmail, Work.cached_of_disabled (p := lookups) h.2.2.2.1, ← h.1]
    exact hfail
  · obtain ⟨realm', hid, hload⟩ := h.2.2.1.lookups _ found hfound
    have hid : realm'.id = realm.id := hid
    rcases loadByEmail_or_shared hid hload with hsame | ⟨-, -, hlenient⟩
    · rw [hfail] at hsame
      cases hsame
    · exact hlenient

theorem Alike.findByEmail_of_not_masked {email : String} (h : Alike d d')
    (hnot : ∀ found owners, ¬ Masked d realm email found owners) :
    (Users.findByEmail realm email d).1 = (Users.findByEmail realm email d').1 := by
  have hdisabled : ∀ c : UserCache, Disabled c → (lookups.get c).enabled = false := fun _ hc => hc.1
  refine Work.cached_eq_load hdisabled h fun found hfound => ?_
  obtain ⟨realm', hid, hload⟩ := h.2.2.1.lookups _ found hfound
  rcases loadByEmail_or_shared hid hload with hsame | ⟨hpolicy, ⟨owners, hshared⟩, -⟩
  · exact hsame
  · exact absurd ⟨hpolicy, hfound, hshared⟩ (hnot found owners)

theorem Alike.request (h : Alike d d') (realm : Realm) (request : Request α) :
    Alike (request.perform realm d).2 (request.perform realm d').2 := by
  by_cases hasks : request.AsksEmail
  · cases request with
    | findByEmail email => exact h.findByEmail realm email
    | _ => exact hasks.elim
  · exact (Request.oblivious realm hasks d d' h).2.1

open Alone (Event InRealm)

def run (d : Desk UserCache) (events : List (Event (InRealm Request))) : Desk UserCache :=
  Alone.run (fun request => request.2.perform request.1) d events

theorem Alike.run (h : Alike d d') (events : List (Event (InRealm Request))) :
    Alike (Users.run d events) (Users.run d' events) :=
  Alone.memory_run (fun request _ _ h => Alike.request h request.1 request.2)
    (fun _ hI => hI.at_time _) h events

def unread (enabled : Bool) : UserCache := ⟨{ enabled }, { enabled }⟩

theorem alike_unread {rows : RowStore} (h : AllLasting rows) (draws : Draws) :
    Alike ⟨rows, draws, unread true⟩ ⟨rows, draws, unread false⟩ := by
  refine ⟨rfl, rfl, ⟨h, fun key found hfound => ?_, fun key found hfound => ?_⟩, rfl, rfl⟩
  · cases hfound
  · cases hfound

/-- With and without a memory, a unit of work that has the store to itself leaves the same rows, draws
the same identifiers and gets the same answers, but that an email that several users share, once it has
been looked up where the realm allowed that, is still nobody's where it no longer does. -/
theorem answers_agree_unless_masked {rows : RowStore} (h : AllLasting rows) (draws : Draws)
    (events : List (Event (InRealm Request))) :
    let d := run ⟨rows, draws, unread true⟩ events
    let d' := run ⟨rows, draws, unread false⟩ events
    d.rows = d'.rows ∧ d.draws = d'.draws ∧
      (∀ (realm : Realm) {α : Type} (request : Request α), ¬ request.AsksEmail →
        (request.perform realm d).1 = (request.perform realm d').1) ∧
      ∀ realm email,
        ((∀ found owners, ¬ Masked d realm email found owners) →
          (findByEmail realm email d).1 = (findByEmail realm email d').1) ∧
        ∀ found owners, Masked d realm email found owners →
          (findByEmail realm email d).1 = .ok found ∧
          (findByEmail realm email d').1 = .error
            (.indexInconsistency UniqueField.email.attributeName (Text.lowercase email) owners) ∧
          loadByEmail (lenient realm) (Text.lowercase email) d.rows = .ok found := by
  intro d d'
  have hlike : Alike d d' := (alike_unread h draws).run events
  refine ⟨hlike.1, hlike.2.1, fun realm α request hasks => ?_, fun realm email => ⟨?_, ?_⟩⟩
  · exact (Request.oblivious realm hasks d d' hlike).1
  · exact hlike.findByEmail_of_not_masked
  · exact fun found owners hm => hlike.findByEmail_of_masked hm

def strict : Realm := { id := "r" }

def start (enabled : Bool) : Desk UserCache := ⟨.empty 0, { value := fun n => n }, unread enabled⟩

def owners : List String := [Identifier.hyphenated 0, Identifier.hyphenated 1]

def sharing : List (Event (InRealm Request)) :=
  [.request (strict, .create "ann"), .request (strict, .create "bob"),
    .request (lenient strict,
      .update { id := Identifier.hyphenated 0, username := "ann", email := some "e@x" }),
    .request (lenient strict,
      .update { id := Identifier.hyphenated 1, username := "bob", email := some "e@x" }),
    .request (lenient strict, .findByEmail "e@x")]

theorem masked_sharing : Masked (run (start true) sharing) strict "E@X" none owners := by
  decide +kernel

theorem shared_email_found_once_asked :
    (findByEmail strict "E@X" (run (start true) sharing)).1 ≠
      (findByEmail strict "E@X" (run (start false) sharing)).1 := by
  have hlike := (alike_unread (allLasting_empty 0) { value := fun n => n }).run sharing
  obtain ⟨hfound, hrefused, -⟩ := hlike.findByEmail_of_masked masked_sharing
  rw [start, start, hfound, hrefused]
  nofun

theorem answers_agree_unless_masked_by_policy :
    let d := run (start true) sharing
    let d' := run (start false) sharing
    (findByEmail (lenient strict) "e@x" d).1 = (findByEmail (lenient strict) "e@x" d').1 ∧
      Masked d strict "E@X" none owners ∧ (findByEmail strict "E@X" d).1 = .ok none ∧
      (findByEmail strict "E@X" d').1 = .error
        (.indexInconsistency UniqueField.email.attributeName (Text.lowercase "E@X") owners) := by
  intro d d'
  obtain ⟨-, -, -, h⟩ := answers_agree_unless_masked (allLasting_empty 0) { value := fun n => n }
    sharing
  obtain ⟨hfound, hrefused, -⟩ := (h strict "E@X").2 none owners masked_sharing
  have hagree := (h (lenient strict) "e@x").1 fun _ _ hm => Bool.noConfusion hm.1
  exact ⟨hagree, masked_sharing, hfound, hrefused⟩

end IdentityDirectory.Users
