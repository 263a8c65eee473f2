import IdentityDirectory.Proofs.Isolation.Region
import IdentityDirectory.Proofs.Registry.Attributes

/-!
What identifies users: their records, and the index rows of the names that are reserved to the
directory. Lookups by such a name, claims on unique values and all writes of users go by these rows
alone, and the attributes that callers set and remove, whatever their names and values and whoever
they are given to, are written elsewhere. Main statements: `depends_loadByUsername` and its like,
`repeats_insert`, `repeats_replace` and `owns_foreign`.
-/

namespace IdentityDirectory.Users

open AttributeIndex (forwardKey reverseKey valuePartition)
open RowStore (AgreeOn Wrote)
open Update (Repeats)
open Query (Depends)

variable {s s' : RowStore} {r r' id name f : String} {user : User}

/-- A record of a user, a forward row of a field, or a row that is listed under the name of a field. -/
inductive Identifying : Table → String → Prop
  | record (key : String) : Identifying .users key
  | values {r id f : String} (hr : Plain r) (hid : NulFree id) (hf : f ∈ fields) :
    Identifying .userAttributes (forwardKey r id f).encode
  | holder {r f v key : String} (hr : Plain r) (hf : f ∈ fields)
    (hkey : (RowKey.lead (valuePartition r f v)).toList <+: key.toList) :
    Identifying .attributeUsers key

theorem listed_identifying (hr : Plain r) (hf : f ∈ fields) :
    AttributeIndex.users.Listed Identifying r f :=
  fun _ _ hkey => .holder hr hf hkey

theorem inRegion_identifying (hr : Plain r) (hid : NulFree id) (hf : f ∈ fields) :
    AttributeIndex.users.InRegion Identifying r id f where
  forward := .values hr hid hf
  reverse := listed_identifying hr hf

theorem depends_load (r id : String) : Depends Identifying (load r id) := .record (.record _)

theorem depends_resolve (r : String) (ids : List String) : Depends Identifying (resolve r ids) :=
  (Depends.mapM fun id _ => depends_load r id).bind fun _ => .pure _

theorem depends_holds (r : String) (field : UniqueField) (value owner : String) :
    Depends Identifying (holds r field value owner) :=
  (depends_load r owner).bind fun _ => .pure _

section Lookups

variable (hr : Plain r)
include hr

theorem depends_loadByUsername (username : String) :
    Depends Identifying (loadByUsername r username) := by
  have hlisted := listed_identifying hr (attributeName_mem .username)
  refine (AttributeIndex.depends_findUnique hlisted username).bind fun owner => ?_
  cases owner with
  | none => exact .pure none
  | some id => exact (depends_load r id).bind fun _ => .pure _

theorem depends_findByFederationLink (link : String) :
    Depends Identifying (findByFederationLink r link) := by
  have hlisted : AttributeIndex.users.Listed Identifying r federationLinkAttribute :=
    listed_identifying hr (mem_fields_iff.mpr (.inr rfl))
  exact (AttributeIndex.depends_findBy hlisted link).bind fun ids => depends_resolve r ids

theorem depends_findByServiceAccountClient (clientId : String) :
    Depends Identifying (findByServiceAccountClient r clientId) := by
  have hlisted := listed_identifying hr (attributeName_mem .serviceAccount)
  refine (AttributeIndex.depends_findUnique hlisted clientId).bind fun owner => ?_
  cases owner with
  | none => exact .pure none
  | some id => exact depends_load r id

end Lookups

theorem depends_loadByEmail {realm : Realm} (hr : Plain realm.id) (email : String) :
    Depends Identifying (loadByEmail realm email) := by
  have hlisted := listed_identifying hr (attributeName_mem .email)
  have hfound {f : List User → Query (Option User)} (hf : ∀ users, Depends Identifying (f users))
      (owners : List String) : Depends Identifying (resolve realm.id owners >>= f) :=
    (depends_resolve realm.id owners).bind hf
  rw [loadByEmail]
  split
  · exact (AttributeIndex.depends_findBy hlisted email).bind <|
      hfound fun users => by split <;> exact .pure _
  · have hunique := AttributeIndex.depends_findUnique hlisted email
    exact (hunique.bind fun _ => .pure _).bind <|
      hfound fun users => by split <;> exact .pure _

section Claims

variable (hr : Plain r)
include hr

theorem repeats_release (id : String) (claims : List Claim) :
    Repeats Identifying (release r id claims) :=
  .forM fun c _ => .discard <|
    AttributeIndex.repeats_releaseClaim (listed_identifying hr (attributeName_mem c.1)) _ _

theorem repeats_claimFrom (id : String) (taken claims : List Claim) :
    Repeats Identifying (claimFrom r id taken claims) := by
  induction claims generalizing taken with
  | nil => exact .pure ()
  | cons claim claims ih =>
    obtain ⟨field, value⟩ := claim
    have hlisted := listed_identifying hr (attributeName_mem field)
    refine .bind (.tryCatch ?_ fun e => ?_) fun _ => ih _
    · exact AttributeIndex.repeats_claimUnique hlisted (depends_holds r field value) _ _ _
    · exact .bind (repeats_release hr id taken) fun _ => .throw e

end Claims

section Stored

variable (hr : Plain user.realmId) (hid : NulFree user.id)

theorem repeats_put (user : User) : Repeats Identifying (put user) :=
  .discard (Update.repeats_put (.record _) _)

include hr

theorem repeats_putClaimed (claims : List Claim) : Repeats Identifying (putClaimed user claims) :=
  .tryCatch (repeats_put user) fun e => .bind (repeats_release hr user.id claims) fun _ => .throw e

include hid

theorem repeats_commit (field : UniqueField) : Repeats Identifying (commit user field) :=
  AttributeIndex.repeats_commitUnique (inRegion_identifying hr hid (attributeName_mem field)) _

theorem repeats_insert : Repeats Identifying (insert user) := by
  refine .bind (repeats_claimFrom hr user.id [] _) fun _ => ?_
  refine .bind (repeats_putClaimed hr _) fun _ => ?_
  exact .bind (repeats_commit hr hid .username) fun _ => .pure user

theorem repeats_setIndexed (hf : f ∈ fields) (value : Option String) :
    Repeats Identifying (setIndexed user f value) :=
  AttributeIndex.repeats_setAttribute (inRegion_identifying hr hid hf) _

theorem repeats_reindex (realm : Realm) (previous : User) :
    Repeats Identifying (reindex realm previous user) := by
  have hset := fun {f} (hf : f ∈ fields) value => repeats_setIndexed hr hid hf value
  have hlinks : Repeats Identifying (do
      if previous.federationLink ≠ user.federationLink then
        setIndexed user federationLinkAttribute user.federationLink
      if changed .serviceAccount previous user then commit user .serviceAccount) :=
    .optional (hset (mem_fields_iff.mpr (.inr rfl)) _)
      (.ite (repeats_commit hr hid .serviceAccount) (.pure ()))
  refine .optional (repeats_commit hr hid .username) (.ite (.ite ?_ ?_) hlinks)
  · exact .bind (hset (attributeName_mem .email) _) fun _ => hlinks
  · exact .bind (repeats_commit hr hid .email) fun _ => hlinks

end Stored

theorem repeats_replace {realm : Realm} (hr : Plain realm.id) (hid : NulFree user.id) :
    Repeats Identifying (replace realm user) := by
  refine .bind (depends_load realm.id user.id).update fun found => ?_
  cases found with
  | none => exact .pure false
  | some previous =>
    have hr' : Plain (normalize realm user).realmId := hr
    have hid' : NulFree (normalize realm user).id := hid
    refine .bind (repeats_claimFrom hr _ [] _) fun _ => ?_
    refine .bind (repeats_putClaimed hr' _) fun _ => ?_
    exact .bind (repeats_reindex hr' hid' realm previous) fun _ => .pure true

theorem repeats_alter (r id : String) (change : User → Option User) :
    Repeats Identifying (alter r id change) := by
  refine .bind (depends_load r id).update fun found => ?_
  cases found.bind change with
  | none => exact .pure false
  | some user => exact .bind (Update.repeats_put (.record _) _) fun _ => .pure true

def foreign (_ : Int) (t : Table) (key : String) (_ : Option Cell) : Prop := ¬ Identifying t key

section Foreign

variable (hr : Plain r) (hname : isInternal name = false)
include hr hname

theorem apart_of_field (hr' : Plain r') (hf : f ∈ fields) (id : String) :
    AttributeIndex.Apart r id name r' f := by
  by_cases hsame : r = r'
  · subst hsame
    obtain ⟨hplain, hhead⟩ := registry.fields_internal f hf
    exact Registry.apart_of_head hr hplain.1 hhead (of_decide_eq_false hname) id
  · exact AttributeIndex.apart_of_scope_ne hr hr' hsame id name f

theorem forwardKey_foreign (id : String) :
    ¬ Identifying .userAttributes (forwardKey r id name).encode := by
  generalize hkey : (forwardKey r id name).encode = key
  intro h
  cases h with
  | values hr' hid hf => exact (apart_of_field hr hname hr' hf id).forward _ hid hkey

theorem reverse_foreign {value key : String}
    (hkey : (RowKey.lead (valuePartition r name value)).toList <+: key.toList) :
    ¬ Identifying .attributeUsers key := by
  -- No choice of a name, a value and an identifier makes a row that is listed under a field.
  intro h
  cases h with
  | holder hr' hf hkey' =>
    obtain ⟨id, rfl⟩ := RowKey.lead_prefix_iff.mp hkey
    obtain ⟨id', heq⟩ := RowKey.lead_prefix_iff.mp hkey'
    exact (apart_of_field hr hname hr' hf id).reverse value id' _ heq

theorem owns_foreign (id : String) : AttributeIndex.users.Owns foreign r id name none where
  removed _ := forwardKey_foreign hr hname id
  written _ _ _ := forwardKey_foreign hr hname id
  grants _ :=
    { removed := fun _ _ hkey => reverse_foreign hr hname hkey
      written := fun _ _ _ hkey _ => reverse_foreign hr hname hkey }

end Foreign

theorem writes_foreign_of_visible {u : Update Bool}
    (h : isInternal name = false → Update.Writes foreign u) :
    Update.Writes foreign (Registries.Operation.unlessInternal name u) := by
  rw [Registries.Operation.unlessInternal]
  split
  · exact .throw _
  · next hname => exact h (by simpa using hname)

end IdentityDirectory.Users
