import IdentityDirectory.Proofs.Memory.Rules
import IdentityDirectory.Proofs.Registry.Footprint

/-!
What the creation of a user does to the lookup of another name, for all strings. It does nothing to it,
unless one of the two names is the other one continued past a U+0000, by which the partition of the one
takes in the rows of the other. Main statements: `Users.wrote_insert`, `Users.loadByUsername_eq` and
`Users.lookup_unchanged_by_create`.
-/

namespace IdentityDirectory.Users

open AttributeIndex (forwardKey valuePartition)
open RowKey (partitionEnd)
open RowStore (Wrote)

variable {s s' : RowStore} {user : User} {r id name : String}

def nameAttribute : String := UniqueField.username.attributeName

def nameLead (r name : String) : String := RowKey.lead (valuePartition r nameAttribute name)

theorem toList_nameLead (r name : String) : (nameLead r name).toList =
    r.toList ++ '\x1f' :: (nameAttribute.toList ++ '\x1f' :: (name.toList ++ [partitionEnd])) := by
  rw [nameLead, RowKey.toList_lead, valuePartition, RowKey.toList_composite_three]
  simp only [List.append_assoc, List.cons_append]

theorem eq_of_nameLeads {other key : String} (h : (nameLead r name).toList <+: key.toList)
    (h' : (nameLead r other).toList <+: key.toList) (hforth : ¬ Continues partitionEnd name other)
    (hback : ¬ Continues partitionEnd other name) : name = other := by
  have hcancel : ∀ {a b : String}, (nameLead r a).toList <+: (nameLead r b).toList →
      a.toList ++ [partitionEnd] <+: b.toList ++ [partitionEnd] := by
    intro a b hab
    rw [toList_nameLead, toList_nameLead, List.prefix_append_right_inj] at hab
    have hab := (List.cons_prefix_cons.mp hab).2
    rw [List.prefix_append_right_inj] at hab
    exact (List.cons_prefix_cons.mp hab).2
  have hsame : ∀ {a b : String}, ¬ Continues partitionEnd a b →
      a.toList ++ [partitionEnd] <+: b.toList ++ [partitionEnd] → a = b := by
    intro a b hnot hab
    rcases List.prefix_concat_iff.mp hab with heq | hlonger
    · exact String.toList_inj.mp (List.append_cancel_right heq)
    · exact absurd hlonger hnot
  rcases List.prefix_or_prefix_of_prefix h h' with hab | hba
  · exact hsame hforth (hcancel hab)
  · exact (hsame hback (hcancel hba)).symm

def storing (user : User) (_ : Int) (t : Table) (key : String) (cell : Option Cell) : Prop :=
  t = AttributeIndex.users.reverse ∧ (nameLead user.realmId user.username).toList <+: key.toList ∨
  t = .users ∧ key = (Users.key user.realmId user.id).encode ∧
    ∃ version, cell = some (.row ⟨none, version, Storable.payload user⟩)

def naming (user : User) (now : Int) (t : Table) (key : String) (cell : Option Cell) : Prop :=
  storing user now t key cell ∨ t = AttributeIndex.users.forward

structure Unused (s : RowStore) (r id : String) : Prop where
  record : load r id s = .ok none
  name : AttributeIndex.users.valuesOf r id nameAttribute s = .ok []

theorem grants_storing (user : User) : AttributeIndex.users.Grants (storing user) user.realmId
    nameAttribute user.username none where
  removed _ _ hkey := .inl ⟨rfl, hkey⟩
  written _ _ _ hkey _ := .inl ⟨rfl, hkey⟩

theorem storing_claimAll (user : User) : Update.Writes (storing user)
    (claimAll user.realmId user.id [(.username, user.username)]) := by
  refine .bind (.tryCatch ?_ fun e => .bind (.pure ()) fun _ => .throw e) fun _ => .pure ()
  exact AttributeIndex.writes_claimUnique (grants_storing user) user.id _ _

theorem storing_putClaimed (user : User) :
    Update.Writes (storing user) (putClaimed user [(.username, user.username)]) := by
  refine .tryCatch ?_ fun e => .bind (.forM fun c hc => ?_) fun _ => .throw e
  · exact .discard (Update.writes_put fun _ version => .inr ⟨rfl, rfl, version, rfl⟩)
  · obtain rfl := List.mem_singleton.mp hc
    exact .discard (AttributeIndex.writes_releaseClaim (grants_storing user) user.id)

theorem wrote_commit
    (h : AttributeIndex.users.valuesOf user.realmId user.id nameAttribute s = .ok []) :
    Wrote (naming user) s (commit user .username s).2 := by
  have hforward : Update.Writes (naming user)
      (AttributeIndex.users.putForward user.realmId user.id nameAttribute [user.username] none) :=
    .discard (Update.writes_put fun _ _ => .inr rfl)
  have hcommit : Update.Writes (naming user) (do
      AttributeIndex.users.putForward user.realmId user.id nameAttribute [user.username] none
      AttributeIndex.users.withdraw user.realmId user.id nameAttribute []) :=
    .bind hforward fun _ => .pure ()
  have heq : commit user .username s = _ := Update.bind_liftM_of_ok h _
  rw [heq]
  exact hcommit.wrote s

theorem wrote_insert (h : Unused s user.realmId user.id) :
    Wrote (naming user) s (insert user s).2 := by
  have hstored : ∀ {s s' : RowStore}, Wrote (storing user) s s' → Wrote (naming user) s s' :=
    fun h => h.mono fun _ _ _ _ => .inl
  refine Update.wrote_bind (hstored ((storing_claimAll user).wrote s)) fun _ s₁ h₁ => ?_
  refine Update.wrote_bind (hstored ((storing_putClaimed user).wrote s₁)) fun _ s₂ h₂ => ?_
  refine Update.wrote_bind (wrote_commit ?_) fun _ s₃ _ => .refl s₃
  -- Up to here no forward row has been written.
  have hclaimed := (storing_claimAll user).wrote s
  rw [h₁] at hclaimed
  have hput := (storing_putClaimed user).wrote s₁
  rw [h₂] at hput
  have honly : RowStore.OnlyIn [AttributeIndex.users.reverse, .users] s s₂ := by
    apply (hclaimed.trans hput).onlyIn
    rintro _ t _ _ (⟨rfl, -⟩ | ⟨rfl, -⟩) <;> decide
  have hreads : Query.ReadsOnly [AttributeIndex.users.forward]
      (AttributeIndex.users.valuesOf user.realmId user.id nameAttribute) :=
    .bind (.record (by decide) _) fun _ => .pure _
  exact (hreads s s₂ (.of_onlyIn honly (by decide))).trans h.name

section Lookup

variable (h : Wrote (naming user) s s')
include h

theorem findUnique_kept (hne : name ≠ user.username)
    (hforth : ¬ Continues partitionEnd name user.username)
    (hback : ¬ Continues partitionEnd user.username name) :
    AttributeIndex.users.findUnique user.realmId nameAttribute name s' =
      AttributeIndex.users.findUnique user.realmId nameAttribute name s := by
  have hcells : ∀ key : String, (nameLead user.realmId name).toList <+: key.toList →
      (s'.table AttributeIndex.users.reverse).get? key =
        (s.table AttributeIndex.users.reverse).get? key := by
    intro key hkey
    rcases h.cells AttributeIndex.users.reverse key with hsame | (⟨-, hlead⟩ | ⟨hu, -⟩) | hf
    · exact hsame
    · exact absurd (eq_of_nameLeads hkey hlead hforth hback) hne
    · cases hu
    · cases hf
  have hscan : Query.scanPartition AttributeIndex.users.reverse
      (valuePartition user.realmId nameAttribute name) s' = Query.scanPartition
        AttributeIndex.users.reverse (valuePartition user.realmId nameAttribute name) s :=
    congrArg (Except.mapError _) (RowStore.scanPartition_congr hcells h.now)
  refine Query.bind_congr (Query.bind_congr hscan fun _ _ => rfl) fun owners _ => ?_
  split <;> rfl

theorem load_eq_of_ne (hne : id ≠ user.id) : load user.realmId id s' = load user.realmId id s := by
  have hcell : (s'.table .users).get? (key user.realmId id).encode =
      (s.table .users).get? (key user.realmId id).encode := by
    rcases h.cells .users (key user.realmId id).encode with hsame | (⟨hr, -⟩ | ⟨-, hkey, -⟩) | hf
    · exact hsame
    · cases hr
    · rw [← String.toList_inj, RowKey.toList_encode, RowKey.toList_encode] at hkey
      have hids := (List.cons.inj (List.append_cancel_left hkey)).2
      exact absurd (String.toList_inj.mp hids) hne
    · cases hf
  rw [load, Query.record, Query.ofRows, Query.ofRows, RowStore.get_congr h.now hcell]

theorem load_stored (hnone : load user.realmId user.id s = .ok none) :
    load user.realmId user.id s' = .ok none ∨ load user.realmId user.id s' = .ok (some user) := by
  rcases h.cells .users (key user.realmId user.id).encode with
    hsame | (⟨hr, -⟩ | ⟨-, -, version, hcell⟩) | hf
  · left
    rw [load, Query.record, Query.ofRows, RowStore.get_congr h.now hsame]
    exact hnone
  · cases hr
  · right
    have hget : s'.get .users (key user.realmId user.id) =
        .ok (some ⟨none, version, Storable.payload user⟩) := by
      rw [RowStore.get, RowStore.row?, hcell]
      rfl
    rw [load, Query.record]
    apply Query.ofRows_of_ok
    rw [hget]
    rfl
  · cases hf

theorem loadByUsername_eq (hne : name ≠ user.username)
    (hforth : ¬ Continues partitionEnd name user.username)
    (hback : ¬ Continues partitionEnd user.username name)
    (hnone : load user.realmId user.id s = .ok none) :
    loadByUsername user.realmId name s' = loadByUsername user.realmId name s := by
  refine Query.bind_congr (findUnique_kept h hne hforth hback) fun found _ => ?_
  cases found with
  | none => rfl
  | some owner =>
    by_cases howner : owner = user.id
    · subst howner
      have hother : (some user).filter (·.username = name) = none := by
        rw [Option.filter_some, decide_eq_false (Ne.symm hne)]
        rfl
      rcases load_stored h hnone with hload | hload
      · exact Query.bind_congr (hload.trans hnone.symm) fun _ _ => rfl
      · change (load _ _ >>= _) s' = (load _ _ >>= _) s
        rw [Query.bind_of_ok hload, Query.bind_of_ok hnone, hother]
        rfl
    · exact Query.bind_congr (load_eq_of_ne h howner) fun _ _ => rfl

end Lookup

def drafted (realm : Realm) (username : String) (d : Desk UserCache) : User where
  realmId := realm.id
  id := Identifier.hyphenated (d.draws.value d.draws.next)
  username := Text.lowercase username
  createdTimestamp := d.rows.now

theorem create_desk (realm : Realm) (username : String) (d : Desk UserCache) :
    (create realm username d).2 =
      { rows := (insert (drafted realm username d) d.rows).2
        draws := { d.draws with next := d.draws.next + 1 }
        held := ⟨d.held.lookups.forget, d.held.lists.forget⟩ } := rfl

/-- Whether the creation of a user is granted or refused, a name is found as before, unless one of the
two names continues the other past a U+0000. -/
theorem lookup_unchanged_by_create (realm : Realm) (name other : String) (d : Desk UserCache)
    (hoff : d.held.lookups.enabled = false)
    (hfresh : Unused d.rows realm.id (Identifier.hyphenated (d.draws.value d.draws.next)))
    (hne : Text.lowercase name ≠ Text.lowercase other)
    (hforth : ¬ Continues partitionEnd (Text.lowercase name) (Text.lowercase other))
    (hback : ¬ Continues partitionEnd (Text.lowercase other) (Text.lowercase name)) :
    (findByUsername realm.id name (create realm other d).2).1 =
      (findByUsername realm.id name d).1 := by
  have hcreated : Wrote (naming (drafted realm other d)) d.rows
      (insert (drafted realm other d) d.rows).2 := wrote_insert hfresh
  have hkept := loadByUsername_eq hcreated hne hforth hback hfresh.record
  rw [findByUsername, create_desk, Work.cached_of_disabled hoff, Work.cached_of_disabled hoff]
  exact hkept

theorem lookup_unchanged_by_longer_name :
    let realm : Realm := { id := "r" }
    let d := (create realm "Bob" ⟨.empty 0, { value := fun n => n }, ⟨⟨false, []⟩, ⟨false, []⟩⟩⟩).2
    (findByUsername realm.id "BOB" d).1 =
        .ok (some { realmId := "r", id := Identifier.hyphenated 0, username := "bob" }) ∧
      (findByUsername realm.id "BOB" (create realm "Bobby" d).2).1 =
        (findByUsername realm.id "BOB" d).1 := by
  intro realm d
  have hfresh : Unused d.rows realm.id (Identifier.hyphenated (d.draws.value d.draws.next)) :=
    ⟨by decide +kernel, by decide +kernel⟩
  exact ⟨by decide +kernel, lookup_unchanged_by_create realm "BOB" "Bobby" d rfl hfresh
    (by decide +kernel) (by decide +kernel) (by decide +kernel)⟩

theorem lookup_fails_after_continuation :
    let realm : Realm := { id := "r" }
    let d := (create realm "bob" ⟨.empty 0, { value := fun n => n }, ⟨⟨false, []⟩, ⟨false, []⟩⟩⟩).2
    Text.lowercase "bob" ≠ Text.lowercase "bob\x00x" ∧
      (findByUsername realm.id "bob" d).1 =
        .ok (some { realmId := "r", id := Identifier.hyphenated 0, username := "bob" }) ∧
      (findByUsername realm.id "bob" (create realm "bob\x00x" d).2).1 =
        .error (.indexInconsistency "$username" "bob"
          [Identifier.hyphenated 0, "x\x00" ++ Identifier.hyphenated 1]) := by
  decide +kernel

example :
    let realm : Realm := { id := "r" }
    let d := (create realm "a\x00b" ⟨.empty 0, { value := fun n => n }, ⟨⟨false, []⟩, ⟨false, []⟩⟩⟩).2
    let later := { (create realm "a\x00b\x00c" d).2 with rows.now := 30000 }
    (findByUsername realm.id "a\x00b" later).1 = .error (.indexInconsistency "$username" "a\x00b"
        ["b\x00" ++ Identifier.hyphenated 0, "b\x00c\x00" ++ Identifier.hyphenated 1]) ∧
      (findByUsername realm.id "a\x00b" (create realm "a" later).2).1 = .ok none := by
  decide +kernel

end IdentityDirectory.Users
