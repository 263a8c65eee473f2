import IdentityDirectory.Proofs.Index.Reflection
import IdentityDirectory.Proofs.Memory.Rules
import IdentityDirectory.Proofs.Registry.Footprint

/-!
The lookup of users by an attribute that callers give them, for any usernames, emails, attribute names
and values. It is exact for names and values that are free of U+0000, unless an attribute is set whose
name continues the one that is asked for past a U+001F. Main statements: `Findable.effect` for each
operation, `Findable.loadByAttribute_eq`, and `found_by_attribute` for runs.
-/

namespace IdentityDirectory

variable {s s' : RowStore} {r id name value : String} {user : User}

namespace Users

open AttributeIndex (forwardKey reverseKey valuePartition)
open RowStore (Wrote OnlyIn)

structure Placed (s : RowStore) : Prop where
  holds : s.Holds User .users
  place : ∀ key row, s.rowAt .users key = some row → ∃ user : User, Plain user.realmId ∧
    NulFree user.id ∧ key = (Users.key user.realmId user.id).encode ∧
      row.payload = Storable.payload user

theorem placed_empty (now : Int) : Placed (.empty now) where
  holds := RowStore.holds_empty now _
  place key row hrow := by
    rw [RowStore.rowAt_empty] at hrow
    cases hrow

theorem Placed.of_record {time : Int} (h : Placed s) (hr : Plain r)
    (hu : registry.record s r id time = some user) : user.realmId = r ∧ user.id = id ∧ NulFree id := by
  obtain ⟨payload, hseen, hread⟩ := Option.bind_eq_some_iff.mp hu
  obtain ⟨row, hrow, -, rfl⟩ := RowStore.seen_eq_some_iff.mp hseen
  obtain ⟨u, hrealm, hid, hkey, hpayload⟩ := h.place _ row hrow
  rw [hpayload, Storable.ofPayload?_payload] at hread
  obtain rfl := Option.some.inj hread
  obtain ⟨rfl, rfl⟩ := RowKey.mk.inj ((RowKey.encode_inj (k := key r id) hr.1 hrealm.1).mp hkey)
  exact ⟨rfl, rfl, hid⟩

theorem Placed.load_eq (h : Placed s) (r id : String) :
    load r id s = .ok (registry.record s r id s.now) :=
  Query.record_eq h.holds _

theorem Placed.resolve_eq (h : Placed s) (r : String) (ids : List String) :
    resolve r ids s = .ok (ids.filterMap fun id => registry.record s r id s.now) := by
  rw [resolve, Query.bind_of_ok (Query.mapM_of_ok fun id _ => h.load_eq r id), Query.pure_apply,
    List.filterMap_map]
  rfl

theorem Placed.congr (h : Placed s) (ht : s'.table .users = s.table .users) : Placed s' where
  holds := RowStore.holds_congr ht h.holds
  place key row hrow := h.place key row (RowStore.rowAt_congr ht key ▸ hrow)

theorem Placed.within (h : Placed s) (hw : AttributeIndex.users.Within s s') : Placed s' :=
  h.congr (hw.table .users (by decide) (by decide))

theorem Placed.remove (h : Placed s) (t : Table) (key : String) : Placed (s.remove t key) where
  holds := h.holds.remove t key
  place key' row hrow := by
    rw [RowStore.rowAt_remove] at hrow
    split at hrow
    · cases hrow
    · exact h.place key' row hrow

theorem Placed.removePartition (h : Placed s) (t : Table) (partition : String) :
    Placed (s.removePartition t partition) where
  holds := h.holds.removePartition t partition
  place key row hrow := by
    rw [RowStore.rowAt_removePartition] at hrow
    split at hrow
    · cases hrow
    · exact h.place key row hrow

theorem Placed.reclaimed (h : Placed s) (hs : RowStore.Reclaimed s s') : Placed s' where
  holds := h.holds.reclaimed hs
  place key row hrow := by
    rcases hs.rows .users key with hsame | ⟨hnone, -⟩
    · exact h.place key row (hsame ▸ hrow)
    · rw [hnone] at hrow
      cases hrow

inductive Proper (now : Int) : Table → String → Option Cell → Prop
  | record {user : User} (version : Nat) (hr : Plain user.realmId) (hid : NulFree user.id) :
    Proper now .users (key user.realmId user.id).encode
      (some (.row ⟨none, version, Storable.payload user⟩))
  | cleared {r id f : String} (hr : Plain r) (hid : NulFree id) (hf : f ∈ fields) :
    Proper now .userAttributes (forwardKey r id f).encode none
  | valued {r id f : String} (values : List String) (version : Nat) (hr : Plain r)
    (hid : NulFree id) (hf : f ∈ fields) : Proper now .userAttributes (forwardKey r id f).encode
      (some (.row ⟨none, version, Storable.payload values⟩))
  | claimed {r f v key : String} {cell : Option Cell} (hr : Plain r) (hf : f ∈ fields)
    (hkey : (RowKey.lead (valuePartition r f v)).toList <+: key.toList)
    (hcell : cell ≠ some .unreadable) : Proper now .attributeUsers key cell

theorem writable_proper (hr : Plain r) (hid : NulFree id) : Writable Proper r id where
  record now user hrealm hsame version := by
    subst hrealm hsame
    exact .record version hr hid
  fields f hf :=
    { removed := fun now => .cleared hr hid hf
      written := fun now values version => .valued values version hr hid hf
      grants := fun value =>
        { removed := fun now key hkey => .claimed hr hf hkey nofun
          written := fun now key payload hkey version => .claimed hr hf hkey (by simp) } }

theorem Proper.field_of_forward {now : Int} {entity : String} {cell : Option Cell} (hr : Plain r)
    (he : NulFree entity)
    (h : Proper now AttributeIndex.users.forward (forwardKey r entity name).encode cell) :
    name ∈ fields := by
  generalize hkey : (forwardKey r entity name).encode = key at h
  cases h with
  | cleared hr' hid hf | valued _ _ hr' hid hf =>
    obtain ⟨-, -, rfl⟩ := (AttributeIndex.forwardKey_inj hr he hr' hid).mp hkey
    exact hf

theorem Proper.field_of_reverse {now : Int} {entity : String} {cell : Option Cell} (hr : Plain r)
    (hn : Plain name)
    (h : Proper now AttributeIndex.users.reverse (reverseKey r entity name value).encode cell) :
    name ∈ fields := by
  cases h with
  | claimed hr' hf hkey hcell =>
    have hf' := registry.fields_plain _ hf
    obtain ⟨entity', hkey⟩ := RowKey.lead_prefix_iff.mp hkey
    have hkey : _ = (reverseKey _ entity' _ _).encode := hkey
    rw [← String.toList_inj, AttributeIndex.toList_reverseKey, AttributeIndex.toList_reverseKey,
      cons_append_inj hr.2 hr'.2, cons_append_inj hn.2 hf'.2] at hkey
    exact String.toList_inj.mp hkey.2.1 ▸ hf

theorem Placed.wrote (h : Placed s) (hw : Wrote Proper s s') : Placed s' where
  holds := by
    refine hw.holds h.holds (fun key hnew => by cases hnew) fun key row hnew => ?_
    cases hnew with
    | record version hr hid => exact ⟨_, rfl⟩
  place key row hrow := by
    rcases hw.rowAt_cases hrow with hold | hnew
    · exact h.place key row hold
    · cases hnew with
      | record version hr hid => exact ⟨_, hr, hid, rfl, rfl⟩

theorem sound_wrote (h : AttributeIndex.users.Sound s) (hw : Wrote Proper s s') :
    AttributeIndex.users.Sound s' where
  forward := by
    refine hw.holds h.forward (fun key hnew => by cases hnew) fun key row hnew => ?_
    cases hnew with
    | valued values version hr hid hf => exact ⟨values, rfl⟩
  reverse := by
    refine hw.readable h.reverse fun key hnew => ?_
    cases hnew with
    | claimed hr hf hkey hcell => exact hcell rfl

theorem named_wrote {P : String → Prop} (hr : Plain r) (hfields : ∀ f ∈ fields, P f)
    (h : AttributeIndex.users.Named s r P) (hw : Wrote Proper s s') :
    AttributeIndex.users.Named s' r P := by
  intro entity other he hsome
  obtain ⟨values, hvalues⟩ := Option.isSome_iff_exists.mp hsome
  obtain ⟨payload, hseen, hread⟩ := Option.bind_eq_some_iff.mp hvalues
  obtain ⟨row, hrow, hlive, rfl⟩ := RowStore.seen_eq_some_iff.mp hseen
  rcases hw.rowAt_cases hrow with hold | hnew
  · rw [hw.now] at hlive
    have hseen := RowStore.seen_eq_some_iff.mpr ⟨row, hold, hlive, rfl⟩
    exact h entity other he (Option.isSome_iff_exists.mpr
      ⟨values, Option.bind_eq_some_iff.mpr ⟨_, hseen, hread⟩⟩)
  · exact hfields other (hnew.field_of_forward hr he)

structure Findable (s : RowStore) (r name : String) : Prop extends Placed s where
  sound : AttributeIndex.users.Sound s
  uncontinued : AttributeIndex.users.Uncontinued s r name
  reflects : NulFree name → AttributeIndex.users.Reflects s r name

theorem findable_empty (now : Int) (r name : String) : Findable (.empty now) r name where
  toPlaced := placed_empty now
  sound := AttributeIndex.sound_empty _ now
  uncontinued := AttributeIndex.named_empty _ now r _
  reflects _ := AttributeIndex.reflects_empty _ now r name

theorem Findable.later (h : Findable s r name) {now : Int} (hle : s.now ≤ now) :
    Findable { s with now } r name where
  toPlaced := h.toPlaced.congr rfl
  sound := AttributeIndex.Sound.congr (s := s) rfl rfl h.sound
  uncontinued := h.uncontinued.later hle
  reflects hfree := (h.reflects hfree).later hle

theorem Findable.reclaimed (h : Findable s r name) (hs : RowStore.Reclaimed s s') :
    Findable s' r name where
  toPlaced := h.toPlaced.reclaimed hs
  sound := h.sound.reclaimed hs
  uncontinued := h.uncontinued.reclaimed hs
  reflects hfree := (h.reflects hfree).reclaimed hs

theorem Findable.of_placed (h : Findable s r name) (hplaced : Placed s') (hnow : s'.now = s.now)
    (hf : s'.table AttributeIndex.users.forward = s.table AttributeIndex.users.forward)
    (hr : s'.table AttributeIndex.users.reverse = s.table AttributeIndex.users.reverse) :
    Findable s' r name where
  toPlaced := hplaced
  sound := h.sound.congr hf hr
  uncontinued := h.uncontinued.congr_table hf hnow
  reflects hfree := (h.reflects hfree).congr_tables hf hr hnow

theorem Findable.onlyIn {tables : List Table} (h : Findable s r name) (ho : OnlyIn tables s s')
    (hne : ∀ t ∈ registry.tables, t ∉ tables) : Findable s' r name := by
  refine h.of_placed (h.toPlaced.congr ?_) ho.now ?_ ?_ <;>
    exact ho.table _ (hne _ (by decide))

theorem Findable.remove (h : Findable s r name) (key : String) :
    Findable (s.remove .users key) r name :=
  h.of_placed (h.toPlaced.remove .users key) (s.now_remove .users key)
    (s.table_remove_of_ne (by decide) key) (s.table_remove_of_ne (by decide) key)

theorem Findable.removePartition (h : Findable s r name) (partition : String) :
    Findable (s.removePartition .users partition) r name :=
  h.of_placed (h.toPlaced.removePartition .users partition) (RowStore.now_removePartition partition)
    (RowStore.table_removePartition_of_ne (by decide) partition)
    (RowStore.table_removePartition_of_ne (by decide) partition)

def KeepsPlace (change : User → Option User) : Prop :=
  ∀ u u', change u = some u' → u'.realmId = u.realmId ∧ u'.id = u.id

theorem keepsPlace_withGroups (f : StringSet → Option StringSet) : KeepsPlace (withGroups f) := by
  intro u u' hsome
  obtain ⟨m, -, rfl⟩ := Option.map_eq_some_iff.mp hsome
  exact ⟨rfl, rfl⟩

theorem keepsPlace_withRoles (f : StringSet → Option StringSet) : KeepsPlace (withRoles f) := by
  intro u u' hsome
  obtain ⟨m, -, rfl⟩ := Option.map_eq_some_iff.mp hsome
  exact ⟨rfl, rfl⟩

theorem keepsPlace_withActions (f : StringSet → Option StringSet) : KeepsPlace (withActions f) := by
  intro u u' hsome
  obtain ⟨m, -, rfl⟩ := Option.map_eq_some_iff.mp hsome
  exact ⟨rfl, rfl⟩

theorem Placed.replace_of_not_nulFree {realm : Realm} (h : Placed s) (hrealm : Plain realm.id)
    (hid : ¬ NulFree user.id) : replace realm user s = (.ok false, s) := by
  have hnone : registry.record s realm.id user.id s.now = none :=
    Option.eq_none_iff_forall_ne_some.mpr fun u hu => hid (h.of_record hrealm hu).2.2
  rw [Users.replace, Update.bind_liftM_of_ok (h.load_eq realm.id user.id), hnone]
  rfl

theorem Placed.wrote_replace {realm : Realm} (h : Placed s) (hrealm : Plain realm.id) (user : User) :
    Wrote Proper s (replace realm user s).2 := by
  by_cases hid : NulFree user.id
  · exact (writes_replace realm user (writable_proper hrealm hid)).wrote s
  · rw [h.replace_of_not_nulFree hrealm hid]
    exact .refl s

theorem Placed.wrote_alter (h : Placed s) (hr : Plain r) (id : String)
    {change : User → Option User} (hchange : KeepsPlace change) :
    Wrote Proper s (alter r id change s).2 := by
  rw [Users.alter, Update.bind_liftM_of_ok (h.load_eq r id)]
  cases hrecord : registry.record s r id s.now with
  | none => exact .refl s
  | some previous =>
    cases hchanged : change previous with
    | none =>
      rw [Option.bind_some, hchanged]
      exact .refl s
    | some user =>
      obtain ⟨hrealm, hsame, hid⟩ := h.of_record hr hrecord
      obtain ⟨hrealm', hsame'⟩ := hchange previous user hchanged
      have hput : Update.Writes Proper
          (Update.put .users (key r id) user >>= fun _ => (pure true : Update Bool)) :=
        .bind (Update.writes_put fun now => (writable_proper hr hid).record now user
          (hrealm'.trans hrealm) (hsame'.trans hsame)) fun _ => .pure true
      rw [Option.bind_some, hchanged]
      exact hput.wrote s

section Writes

variable (hr : Plain r) (hn : '\x1f' ∉ name.toList)
include hr hn

theorem Findable.wrote (h : Findable s r name) (hvisible : isInternal name = false)
    (hw : Wrote Proper s s') : Findable s' r name where
  toPlaced := h.toPlaced.wrote hw
  sound := sound_wrote h.sound hw
  uncontinued := named_wrote hr (fun other hf hcont => (registry.fields_plain other hf).2 hcont.mem)
    h.uncontinued hw
  reflects hfree := by
    -- Fields have names of their own, so their rows are not mistaken for those of the attribute.
    have hother : name ∉ fields := fun hf =>
      of_decide_eq_false hvisible (registry.fields_internal name hf).2
    refine (h.reflects hfree).spared hw.now (fun entity he => ?_) fun entity value _ _ => ?_
    · exact (hw.cells _ _).resolve_right fun hnew => hother (hnew.field_of_forward hr he)
    · exact (hw.cells _ _).resolve_right fun hnew => hother (hnew.field_of_reverse hr ⟨hfree, hn⟩)

theorem Findable.set {other : String} {values : List String} (h : Findable s r name) {r' : String}
    (hr' : Plain r') (hid : NulFree id) (hother : r' = r → ¬ Continues '\x1f' name other) :
    Findable (AttributeIndex.users.set s r' id other values none) r name where
  toPlaced := h.toPlaced.within AttributeIndex.within_set
  sound := AttributeIndex.sound_set h.sound
  uncontinued := h.uncontinued.set hr hr' hid hother
  reflects hfree := (h.reflects hfree).set hr ⟨hfree, hn⟩ hr' hid h.uncontinued hother

theorem Findable.clear {other : String} (h : Findable s r name) {r' : String} (hr' : Plain r') :
    Findable (AttributeIndex.users.clear s r' id other) r name where
  toPlaced := h.toPlaced.within AttributeIndex.within_clear
  sound := AttributeIndex.sound_clear h.sound
  uncontinued := AttributeIndex.Named.clear h.uncontinued
  reflects hfree := (h.reflects hfree).clear hr ⟨hfree, hn⟩ hr' h.uncontinued

theorem Findable.clearAll (h : Findable s r name) {r' : String} (hr' : Plain r') :
    Findable (AttributeIndex.users.clearAll s r' id) r name where
  toPlaced := h.toPlaced.within AttributeIndex.within_clearAll
  sound := AttributeIndex.sound_clearAll h.sound
  uncontinued := AttributeIndex.Named.clearAll h.uncontinued
  reflects hfree := (h.reflects hfree).clearAll hr ⟨hfree, hn⟩ hr' h.sound h.uncontinued

theorem Findable.clearEach {ids : List String} (h : Findable s r name) {r' : String}
    (hr' : Plain r') : Findable (AttributeIndex.users.clearEach s r' ids) r name := by
  induction ids generalizing s with
  | nil => exact h
  | cons id ids ih => exact ih (h.clearAll hr hn hr')

theorem Findable.replace (h : Findable s r name) (hvisible : isInternal name = false) (realm : Realm)
    (hrealm : Plain realm.id) (user : User) : Findable (replace realm user s).2 r name :=
  h.wrote hr hn hvisible (h.wrote_replace hrealm user)

theorem Findable.alter (h : Findable s r name) (hvisible : isInternal name = false) {r' : String}
    (hr' : Plain r') (id : String) {change : User → Option User} (hchange : KeepsPlace change) :
    Findable (alter r' id change s).2 r name :=
  h.wrote hr hn hvisible (h.wrote_alter hr' id hchange)

theorem Findable.putAttribute (h : Findable s r name) {r' : String} (hr' : Plain r') (id : String)
    {other : String} (values : List String)
    (hother : r' = r → ¬ Continues '\x1f' name other) :
    Findable (putAttribute r' id other values s).2 r name := by
  rw [Users.putAttribute, Update.bind_liftM_of_ok (h.load_eq r' id)]
  cases hrecord : registry.record s r' id s.now with
  | none => exact h
  | some user =>
    have hid := (h.of_record hr' hrecord).2.2
    rw [if_neg (by simp), Update.bind_of_ok (AttributeIndex.setAttribute_eq h.sound _ _ _ _ _)]
    exact h.set hr hn hr' hid hother

theorem Findable.removeAttribute (h : Findable s r name) {r' : String} (hr' : Plain r')
    (id other : String) :
    Findable (AttributeIndex.users.removeAttribute r' id other s).2 r name := by
  rw [AttributeIndex.removeAttribute_eq h.sound]
  exact h.clear hr hn hr'

theorem Findable.delete (h : Findable s r name) {r' : String} (hr' : Plain r') (id : String) :
    Findable (delete r' id s).2 r name := by
  obtain ⟨removed, heq⟩ := Registry.erase_eq (R := registry) h.holds h.sound r' id
  have heq : Users.delete r' id s = (.ok removed, registry.erase s r' id) := heq
  have herased : Findable (registry.erase s r' id) r name :=
    (h.remove (key r' id).encode).clearAll hr hn hr'
  rw [heq]
  dsimp only
  exact herased

theorem Findable.deleteAll (h : Findable s r name) {r' : String} (hr' : Plain r') :
    Findable (deleteAll r' s).2 r name := by
  have heq : Users.deleteAll r' s = (_, registry.eraseAll s r') :=
    Registry.eraseAll_eq (R := registry) h.holds h.sound r'
  have herased : Findable (registry.eraseAll s r') r name :=
    (h.clearEach hr hn hr').removePartition r'
  rw [heq]
  dsimp only
  exact herased

end Writes

section Answers

variable (h : Findable s r name) (hr : Plain r)
include h

theorem Findable.loadByAttribute_holders (value : String) : loadByAttribute r name value s =
    .ok ((AttributeIndex.users.holders s r name value).filterMap
      fun id => registry.record s r id s.now) := by
  rw [loadByAttribute, Query.bind_of_ok (AttributeIndex.findBy_eq h.sound r name value)]
  exact h.resolve_eq r _

theorem Findable.attributes_eq (r id : String) : attributes r id s =
    .ok ((AttributeIndex.users.attributesAt s r id).filterKeys (!isInternal ·)) := by
  rw [attributes, Query.bind_of_ok (AttributeIndex.attributesOf_eq h.sound r id)]
  rfl

include hr

theorem Findable.ids_ascending : (s.recordsIn User .users r).Pairwise (·.id < ·.id) := by
  apply RowStore.pairwise_recordsIn_of_lt hr.1
  intro c c' u u' hlt hu hu'
  have hu : registry.record s r c s.now = some u := hu
  have hu' : registry.record s r c' s.now = some u' := hu'
  rwa [(h.of_record hr hu).2.1, (h.of_record hr hu').2.1]

theorem Findable.mem_recordsIn_iff : user ∈ s.recordsIn User .users r ↔
    registry.record s r user.id s.now = some user := by
  rw [RowStore.mem_recordsIn_iff hr.1]
  constructor
  · rintro ⟨c, hu⟩
    have hu : registry.record s r c s.now = some user := hu
    obtain ⟨-, rfl, -⟩ := h.of_record hr hu
    exact hu
  · exact fun hu => ⟨user.id, hu⟩

theorem Findable.loadByAttribute_eq (hn : Plain name) (hv : NulFree value) :
    loadByAttribute r name value s = .ok ((s.recordsIn User .users r).filter
      fun u => value ∈ AttributeIndex.users.valuesAt s r u.id name s.now) := by
  rw [h.loadByAttribute_holders]
  refine congrArg Except.ok (eq_of_ascending (f := User.id) ?_ ((h.ids_ascending hr).filter _) ?_)
  · have hscan := RowStore.scan_ascending (t := AttributeIndex.users.reverse) (s := s)
      (AttributeIndex.valuePartition_nulFree hr hn hv)
    rw [AttributeIndex.holders, List.filterMap_map, List.pairwise_filterMap]
    refine hscan.imp fun {e e'} hlt u hu u' hu' => ?_
    rwa [(h.of_record hr hu).2.1, (h.of_record hr hu').2.1]
  · intro u
    rw [List.mem_filterMap, List.mem_filter, h.mem_recordsIn_iff hr, decide_eq_true_eq]
    constructor
    · rintro ⟨id, hmem, hu⟩
      obtain ⟨-, rfl, hid⟩ := h.of_record hr hu
      rw [AttributeIndex.mem_holders_iff hr hn hv] at hmem
      exact ⟨hu, (h.reflects hn.1 u.id value s.now hid hv (Int.le_refl _)).mp hmem⟩
    · rintro ⟨hu, hmem⟩
      have hid := (h.of_record hr hu).2.2
      refine ⟨u.id, (AttributeIndex.mem_holders_iff hr hn hv).mpr ?_, hu⟩
      exact (h.reflects hn.1 u.id value s.now hid hv (Int.le_refl _)).mpr hmem

theorem Findable.loadByAttribute_nil (hnul : ¬ (NulFree name ∧ NulFree value)) :
    loadByAttribute r name value s = .ok [] := by
  rw [h.loadByAttribute_holders]
  refine congrArg Except.ok (List.filterMap_eq_nil_iff.mpr fun id hmem => ?_)
  refine Option.eq_none_iff_forall_ne_some.mpr fun u hu => ?_
  have hid := (h.of_record hr hu).2.2
  obtain ⟨⟨k, row⟩, hscan, rfl⟩ := List.mem_map.mp hmem
  obtain ⟨key, -, -, hdecode, rest, hlead⟩ := RowStore.mem_scan.mp hscan
  obtain ⟨rfl, hpart⟩ := RowKey.eq_of_decode? hdecode
  rw [RowKey.toList_lead, RowKey.toList_encode, List.append_assoc, List.singleton_append,
    append_cons_inj hpart hid, String.toList_inj] at hlead
  rw [← hlead.1, valuePartition, RowKey.nulFree_composite_three] at hpart
  exact hnul hpart.2

end Answers

end Users

namespace Registries.Operation

/-- The realm can be told apart from others, and in the given realm no attribute is set whose name
continues the given one. -/
def KeepsApart (r name : String) : Operation → Prop
  | createUser realm _ | updateUser realm _ => Plain realm.id
  | setAttribute r' _ other _ => Plain r' ∧ (r' = r → ¬ Continues '\x1f' name other)
  | removeUser r' _ | removeUsers r' | joinGroup r' _ _ | leaveGroup r' _ _ | grantRole r' _ _
  | revokeRole r' _ _ | addRequiredAction r' _ _ | removeRequiredAction r' _ _
  | removeAttribute r' _ _ => Plain r'
  | createRealm .. | updateRealm _ | removeRealm _ | createClient .. | updateClient _
  | removeClient .. | removeClients _ => True

instance (r name : String) : (op : Operation) → Decidable (op.KeepsApart r name)
  | createUser realm _ | updateUser realm _ => inferInstanceAs (Decidable (Plain realm.id))
  | setAttribute r' _ other _ =>
    inferInstanceAs (Decidable (Plain r' ∧ (r' = r → ¬ Continues '\x1f' name other)))
  | removeUser r' _ | removeUsers r' | joinGroup r' _ _ | leaveGroup r' _ _ | grantRole r' _ _
  | revokeRole r' _ _ | addRequiredAction r' _ _ | removeRequiredAction r' _ _
  | removeAttribute r' _ _ => inferInstanceAs (Decidable (Plain r'))
  | createRealm .. | updateRealm _ | removeRealm _ | createClient .. | updateClient _
  | removeClient .. | removeClients _ => inferInstanceAs (Decidable True)

end Registries.Operation

namespace Users

open Registries (Operation)

theorem Findable.discard {α : Type} {u : Update α} (h : Findable (u s).2 r name) :
    Findable (Functor.discard u s).2 r name := by
  rw [Update.discard_rows]
  exact h

theorem Findable.unlessInternal {u : Update Bool} {other : String} (h : Findable s r name)
    (hu : Findable (u s).2 r name) : Findable (Operation.unlessInternal other u s).2 r name := by
  rw [Operation.unlessInternal]
  split
  · exact h
  · exact hu

section Runs

variable (hr : Plain r) (hn : '\x1f' ∉ name.toList) (hvisible : isInternal name = false)
include hr hn hvisible

theorem Findable.effect (h : Findable s r name) {op : Operation} (hop : op.KeepsApart r name)
    {drawn : String} (hdrawn : NulFree drawn) : Findable (op.effect drawn s).2 r name := by
  have hrealms : ∀ {u : Update Unit}, Update.Writes (RowStore.within Realms.registry.tables) u →
      Findable (u s).2 r name := fun hu => h.onlyIn (hu.wrote s).onlyIn_within (by decide)
  have hclients : ∀ {u : Update Unit}, Update.Writes (RowStore.within Clients.registry.tables) u →
      Findable (u s).2 r name := fun hu => h.onlyIn (hu.wrote s).onlyIn_within (by decide)
  cases op with
  | createRealm id name =>
    exact hrealms (.discard (Realms.writes_insert Realms.registry.writable_within _))
  | updateRealm realm =>
    exact hrealms (.discard (Realms.writes_replace Realms.registry.writable_within realm))
  | removeRealm id =>
    exact hrealms (.discard (Realms.writes_delete Realms.registry.writable_within id))
  | createClient realmId clientId =>
    exact hclients (.discard (Clients.writes_insert Clients.registry.writable_within _))
  | updateClient client =>
    exact hclients (.discard (Clients.writes_replace Clients.registry.writable_within client))
  | removeClient realmId id =>
    exact hclients (.discard (Clients.writes_delete Clients.registry.writable_within realmId id))
  | removeClients realmId =>
    exact hclients (.discard (Clients.writes_deleteAll Clients.registry.writable_within realmId))
  | createUser realm username =>
    have hwrites : Update.Writes Proper (Operation.insertUser realm username drawn) :=
      .bind (Update.writes_query _) fun _ => writes_insert (writable_proper hop hdrawn)
    exact (h.wrote hr hn hvisible (hwrites.wrote s)).discard
  | updateUser realm user => exact (h.replace hr hn hvisible realm hop user).discard
  | removeUser r' id => exact (h.delete hr hn hop id).discard
  | removeUsers r' => exact (h.deleteAll hr hn hop).discard
  | joinGroup r' id _ | leaveGroup r' id _ =>
    exact (h.alter hr hn hvisible hop id (keepsPlace_withGroups _)).discard
  | grantRole r' id _ | revokeRole r' id _ =>
    exact (h.alter hr hn hvisible hop id (keepsPlace_withRoles _)).discard
  | addRequiredAction r' id _ | removeRequiredAction r' id _ =>
    exact (h.alter hr hn hvisible hop id (keepsPlace_withActions _)).discard
  | setAttribute r' id other values =>
    exact (h.unlessInternal (h.putAttribute hr hn hop.1 id values hop.2)).discard
  | removeAttribute r' id other =>
    exact (h.unlessInternal (h.removeAttribute hr hn hop id other)).discard

theorem findable_run (linearizable caching : Bool) (now : Int) (draws : Draws)
    {events : List (World.Event Operation)}
    (hevents : ∀ e ∈ events, e.Forall fun op => op.KeepsApart r name) :
    Findable ((World.opened linearizable caching now draws).run Operation.perform events).rows r
      name := by
  have hsweep : ∀ s, Findable s r name → Findable s.sweep.2 r name :=
    fun s h => h.reclaimed s.reclaimed_sweep
  have hadvance : ∀ s (millis : Nat), Findable s r name →
      Findable { s with now := s.now + millis } r name := fun s millis h => h.later (by omega)
  have hopened : Findable (World.opened linearizable caching now draws).rows r name :=
    findable_empty now r name
  refine World.keeps_run Operation.perform (fun op hop d h => ?_) hsweep hadvance hevents hopened
  have hacts : (op.perform d).2.rows = _ := congrArg Prod.snd (op.acts_effect d)
  refine ⟨?_, fun _ _ => trivial⟩
  rw [hacts]
  exact h.effect hr hn hvisible hop (Identifier.hyphenated_plain _).1

end Runs

/-- An attribute lookup finds the stored users of the realm that have the value, each once and in the
order of their identifiers, or nobody where the name or the value holds a U+0000. -/
theorem found_by_attribute (linearizable caching : Bool) (now : Int) (draws : Draws) (r name : String)
    (hr : Plain r) (hn : '\x1f' ∉ name.toList) (hvisible : isInternal name = false)
    (events : List (World.Event Operation))
    (hevents : ∀ e ∈ events, e.Forall fun op => op.KeepsApart r name) (d : Desk UserCache)
    (hrows : d.rows =
      ((World.opened linearizable caching now draws).run Operation.perform events).rows)
    (hoff : d.held.lists.enabled = false) (value : String) :
    ∃ (users : List User) (attributesOf : String → StringMap (List String)),
      Query.records User .users r d.rows = .ok users ∧ users.Pairwise (·.id < ·.id) ∧
      (∀ u ∈ users, attributes r u.id d.rows = .ok (attributesOf u.id)) ∧
      (findByAttribute r name value d).1 = .ok (if NulFree name ∧ NulFree value then
        users.filter fun u => value ∈ ((attributesOf u.id).get? name).getD [] else []) := by
  have h := findable_run hr hn hvisible linearizable caching now draws hevents
  rw [← hrows] at h
  refine ⟨d.rows.recordsIn User .users r,
    fun id => (AttributeIndex.users.attributesAt d.rows r id).filterKeys (!isInternal ·),
    Query.records_eq h.holds r, h.ids_ascending hr, fun u _ => h.attributes_eq r u.id, ?_⟩
  rw [findByAttribute, Work.cached_of_disabled hoff]
  split
  · next hfree =>
    rw [h.loadByAttribute_eq hr ⟨hfree.1, hn⟩ hfree.2]
    refine congrArg Except.ok (List.filter_congr fun u hu => ?_)
    have hid := (h.of_record hr ((h.mem_recordsIn_iff hr).mp hu)).2.2
    rw [StringMap.get?_filterKeys, hvisible, AttributeIndex.valuesAt_eq_attributesAt h.sound hr hid]
    rfl
  · next hnul => exact h.loadByAttribute_nil hr hnul

def deskAfter (operations : List Operation) : Desk UserCache where
  rows := ((World.opened true true 0 { value := fun n => n }).run Operation.perform
    (operations.map (.call 0))).rows
  draws := { value := fun n => n }
  held := ⟨⟨false, []⟩, ⟨false, []⟩⟩

theorem rows_deskAfter (operations : List Operation) : (deskAfter operations).rows =
    ((World.opened true true 0 { value := fun n => n }).run Operation.perform
      (operations.map (.call 0))).rows := rfl

theorem found_by_attribute_after_removal :
    let first := Identifier.hyphenated 0
    let second := Identifier.hyphenated 1
    let operations : List Operation := [.createUser { id := "r" } "a\x00b",
      .createUser { id := "r" } "c", .setAttribute "r" first "city" ["Oslo", "Rome"],
      .setAttribute "r" second "city" ["Oslo"], .setAttribute "r" first "a\x1fb" ["Oslo"],
      .removeUser "r" second]
    let d := deskAfter operations
    (findByAttribute "r" "city" "Oslo" d).1 =
        .ok [{ realmId := "r", id := first, username := "a\x00b" }] ∧
      ∃ (users : List User) (attributesOf : String → StringMap (List String)),
        Query.records User .users "r" d.rows = .ok users ∧ users.Pairwise (·.id < ·.id) ∧
        (∀ u ∈ users, attributes "r" u.id d.rows = .ok (attributesOf u.id)) ∧
        (findByAttribute "r" "city" "Oslo" d).1 =
          .ok (if NulFree "city" ∧ NulFree "Oslo" then
            users.filter fun u => "Oslo" ∈ ((attributesOf u.id).get? "city").getD [] else []) := by
  intro first second operations d
  have hevents : ∀ e ∈ operations.map (World.Event.call 0),
      e.Forall fun op => op.KeepsApart "r" "city" := by decide +kernel
  refine ⟨by decide +kernel, ?_⟩
  exact found_by_attribute true true 0 { value := fun n => n } "r" "city" (by decide) (by decide)
    (by decide) _ hevents d (rows_deskAfter operations) rfl "Oslo"

/-- A name and a value that are cut in another place give the same rows, and a value that holds a
U+0000 gives rows that are never found. -/
theorem strays_found_and_values_lost :
    let u : User := { realmId := "r", id := Identifier.hyphenated 0, username := "u" }
    let d := deskAfter [.createUser { id := "r" } "u", .setAttribute "r" u.id "a\x1fb" ["c"],
      .setAttribute "r" u.id "n" ["v\x00x"]]
    attributes "r" u.id d.rows = .ok (.ofList [("a\x1fb", ["c"]), ("n", ["v\x00x"])]) ∧
      (findByAttribute "r" "a" "b\x1fc" d).1 = .ok [u] ∧
      (findByAttribute "r" "n" "v\x00x" d).1 = .ok [] := by
  decide +kernel

end Users

end IdentityDirectory
