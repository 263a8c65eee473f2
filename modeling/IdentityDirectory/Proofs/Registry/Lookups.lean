import IdentityDirectory.Proofs.Registry.Uniqueness
import IdentityDirectory.Proofs.Text.Lowercase

/-!
Lookups of users by a value of a field, which give what a scan of the stored users gives. Main
statements: `Registry.holders_eq`, for any kind of records, and `Users.loadByUsername_spec` and
`Users.loadByEmail_eq`.
-/

namespace IdentityDirectory

namespace Registry

variable {α : Type} [Storable α] {R : Registry α} {s : RowStore} {r id name value : String}
  {U : String → String → Prop}

theorem mem_holders_iff (h : R.Kept U s) (hr : R.Scope r) (hn : name ∈ R.fields)
    (hv : NulFree value) : id ∈ R.index.holders s r name value ↔
      ∃ a, R.record s r id s.now = some a ∧ R.field name a = some value := by
  have hplain := R.scope_plain r hr
  rw [AttributeIndex.mem_holders_iff hplain (R.fields_plain name hn) hv,
    (h.regular.mirrors r name hplain hn).lists_iff id value s.now hv (Int.le_refl _)]
  constructor
  · rintro ⟨hid, hvalue | hclaimed⟩
    · rw [h.values r id name s.now hr hid hn (Int.le_refl _), Option.mem_toList] at hvalue
      exact Option.bind_eq_some_iff.mp hvalue
    · exact hclaimed.elim
  · rintro ⟨a, ha, hfield⟩
    have hid := (h.placed r id a hr ha).2
    refine ⟨hid, .inl ?_⟩
    rw [h.values r id name s.now hr hid hn (Int.le_refl _), ha, Option.mem_toList]
    exact hfield

theorem recordsIn_ascending (hkey : ∀ r id, R.Scope r → R.key r id = ⟨r, id⟩) (h : R.Kept U s)
    (hr : R.Scope r) : (s.recordsIn α R.table r).Pairwise fun a b => R.idOf a < R.idOf b := by
  apply RowStore.pairwise_recordsIn_of_lt (R.scope_plain r hr).1
  intro c c' a b hlt ha hb
  rw [← hkey r c hr] at ha
  rw [← hkey r c' hr] at hb
  rw [(h.placed r c a hr ha).1, (h.placed r c' b hr hb).1]
  exact hlt

theorem holders_eq (hkey : ∀ r id, R.Scope r → R.key r id = ⟨r, id⟩) (h : R.Kept U s)
    (hr : R.Scope r) (hn : name ∈ R.fields) (hv : NulFree value) :
    R.index.holders s r name value =
      ((s.recordsIn α R.table r).filter (R.field name · = some value)).map R.idOf := by
  have hl := listing_recordsIn hkey h hr
  have hasc : (R.index.holders s r name value).Pairwise (· < ·) := by
    have hp := AttributeIndex.valuePartition_nulFree (R.scope_plain r hr) (R.fields_plain name hn) hv
    exact List.pairwise_map.mpr (RowStore.scan_ascending hp)
  have hasc' : (((s.recordsIn α R.table r).filter (R.field name · = some value)).map
      R.idOf).Pairwise (· < ·) :=
    List.pairwise_map.mpr ((recordsIn_ascending hkey h hr).filter _)
  refine eq_of_ascending (f := id) hasc hasc' fun id => ?_
  rw [mem_holders_iff h hr hn hv, List.mem_map]
  simp only [List.mem_filter, decide_eq_true_eq, hl.record_iff h hr]
  exact ⟨fun ⟨a, ⟨hmem, hid⟩, hfield⟩ => ⟨a, ⟨hmem, hfield⟩, hid⟩,
    fun ⟨a, ⟨hmem, hfield⟩, hid⟩ => ⟨a, ⟨hmem, hid⟩, hfield⟩⟩

end Registry

namespace AttributeIndex

def soleOwner (name value : String) : List String → Except StoreError (Option String)
  | [] => .ok none
  | [owner] => .ok (some owner)
  | owners => .error (.indexInconsistency name value owners)

theorem findUnique_eq {ix : AttributeIndex} {s : RowStore} {scope name value : String}
    {owners : List String} (h : ix.findBy scope name value s = .ok owners) :
    ix.findUnique scope name value s = soleOwner name value owners := by
  rw [findUnique, Query.bind_of_ok h]
  rcases owners with _ | ⟨owner, _ | ⟨other, rest⟩⟩ <;> rfl

end AttributeIndex

namespace Users

variable {s : RowStore} {r : String} {U : String → String → Prop}

def having (s : RowStore) (r name value : String) : List User :=
  (s.recordsIn User .users r).filter (field name · = some value)

theorem mem_having_iff {name value : String} {u : User} : u ∈ having s r name value ↔
    u ∈ s.recordsIn User .users r ∧ field name u = some value := by
  rw [having, List.mem_filter, decide_eq_true_eq]

section Loads

variable (h : registry.Kept U s) (hr : Plain r) {name value : String}
include h hr

theorem findBy_eq (hn : name ∈ fields) (hv : NulFree value) :
    AttributeIndex.users.findBy r name value s = .ok ((having s r name value).map (·.id)) := by
  have hsound : AttributeIndex.users.Sound s := h.regular.sound
  have hholders : AttributeIndex.users.holders s r name value =
      (having s r name value).map (·.id) :=
    Registry.holders_eq (R := registry) (fun _ _ _ => rfl) h hr hn hv
  rw [AttributeIndex.findBy_eq hsound, hholders]

theorem load_of_mem {u : User} (hu : u ∈ s.recordsIn User .users r) :
    load r u.id s = .ok (some u) := by
  have hl := Registry.listing_recordsIn (R := registry) (fun _ _ _ => rfl) h hr
  have hrecord : registry.record s r u.id s.now = some u := (hl.record_iff h hr).mpr ⟨hu, rfl⟩
  rw [load_eq h, hrecord]

theorem resolve_eq {l : List User} (hl : ∀ u ∈ l, u ∈ s.recordsIn User .users r) :
    resolve r (l.map (·.id)) s = .ok l := by
  have hloads : (l.map (·.id)).mapM (load r) s = .ok (l.map some) := by
    induction l with
    | nil => rfl
    | cons u l ih =>
      have hrest := ih fun v hv => hl v (List.mem_cons_of_mem _ hv)
      have hone := load_of_mem h hr (hl u List.mem_cons_self)
      rw [List.map_cons, List.mapM_cons, Query.bind_of_ok hone, Query.bind_of_ok hrest]
      rfl
  rw [resolve, Query.bind_of_ok hloads]
  simp [Query.pure_apply]

theorem loadByAttribute_eq (hn : name ∈ fields) (hv : NulFree value) :
    loadByAttribute r name value s = .ok (having s r name value) := by
  rw [loadByAttribute, Query.bind_of_ok (findBy_eq h hr hn hv)]
  exact resolve_eq h hr fun u hu => (mem_having_iff.mp hu).1

theorem having_unique (hu : U r name) (hn : name ∈ fields) (value : String) :
    having s r name value = [] ∨ ∃ u, having s r name value = [u] := by
  have hl := Registry.listing_recordsIn (R := registry) (fun _ _ _ => rfl) h hr
  have hpair : (having s r name value).Pairwise fun a b =>
      ∀ v, field name a = some v → field name b ≠ some v := (hl.unique h hr hu hn).filter _
  have hhas : ∀ u ∈ having s r name value, field name u = some value :=
    fun u hu => (mem_having_iff.mp hu).2
  rcases hlist : having s r name value with _ | ⟨a, _ | ⟨b, rest⟩⟩
  · exact .inl rfl
  · exact .inr ⟨a, rfl⟩
  · rw [hlist] at hpair hhas
    have hab := (List.pairwise_cons.mp hpair).1 b List.mem_cons_self
    exact absurd (hhas b (by simp)) (hab value (hhas a (by simp)))

end Loads

/-- What a lookup by email is to give: several users that share it are nobody where duplicates are
allowed, else an error that lists them. -/
def emailAnswer (realm : Realm) (email : String) : List User → Except StoreError (Option User)
  | [] => .ok none
  | [user] => .ok (some user)
  | owners =>
    if realm.duplicateEmailsAllowed then .ok none
    else .error (.indexInconsistency UniqueField.email.attributeName email (owners.map (·.id)))

section Answers

variable {strict : String → Prop} (h : registry.Kept (Sole strict) s) (hr : Plain r)
  {value : String} (hv : NulFree value)
include h hr hv

theorem findUnique_eq (f : UniqueField) :
    AttributeIndex.users.findUnique r f.attributeName value s =
      AttributeIndex.soleOwner f.attributeName value
        ((having s r f.attributeName value).map (·.id)) :=
  AttributeIndex.findUnique_eq (findBy_eq h hr (attributeName_mem f) hv)

theorem sole_holder (f : UniqueField) (hf : f = .email → strict r) :
    ∃ found, AttributeIndex.users.findUnique r f.attributeName value s =
        .ok (found.map User.id) ∧
      ∀ u, found = some u ↔ u ∈ s.recordsIn User .users r ∧ f.value? u = some value := by
  have hmem : ∀ u, u ∈ having s r f.attributeName value ↔
      u ∈ s.recordsIn User .users r ∧ f.value? u = some value := by
    intro u
    rw [mem_having_iff, field_attributeName]
  have hfind := findUnique_eq h hr hv f
  rcases having_unique h hr ⟨f, rfl, hf⟩ (attributeName_mem f) value with hnone | ⟨u, hsole⟩
  · rw [hnone] at hfind hmem
    exact ⟨none, hfind, fun u => by rw [← hmem]; simp⟩
  · rw [hsole] at hfind hmem
    refine ⟨some u, hfind, fun u' => ?_⟩
    rw [← hmem, List.mem_singleton, Option.some.injEq, eq_comm]

theorem loadByUsername_spec : ∃ found, loadByUsername r value s = .ok found ∧
    ∀ u, found = some u ↔ u ∈ s.recordsIn User .users r ∧ u.username = value := by
  obtain ⟨found, hfind, hfound⟩ := sole_holder h hr hv .username nofun
  have hfound : ∀ u, found = some u ↔ u ∈ s.recordsIn User .users r ∧ u.username = value :=
    fun u => (hfound u).trans (and_congr_right fun _ => by
      rw [UniqueField.value?, Option.some.injEq])
  refine ⟨found, ?_, hfound⟩
  rw [loadByUsername, Query.bind_of_ok hfind]
  cases found with
  | none => rfl
  | some u =>
    obtain ⟨hu, hname⟩ := (hfound u).mp rfl
    show (load r u.id >>= _) s = _
    rw [Query.bind_of_ok (load_of_mem h hr hu), Query.pure_apply, Option.filter_some, hname]
    simp

theorem findByServiceAccountClient_spec :
    ∃ found, findByServiceAccountClient r value s = .ok found ∧
      ∀ u, found = some u ↔
        u ∈ s.recordsIn User .users r ∧ u.serviceAccountClientLink = some value := by
  obtain ⟨found, hfind, hfound⟩ := sole_holder h hr hv .serviceAccount nofun
  refine ⟨found, ?_, hfound⟩
  rw [findByServiceAccountClient, Query.bind_of_ok hfind]
  cases found with
  | none => rfl
  | some u => exact load_of_mem h hr ((hfound u).mp rfl).1

theorem loadByEmail_eq {realm : Realm} (hrealm : realm.id = r) : loadByEmail realm value s =
    emailAnswer realm value ((s.recordsIn User .users r).filter (·.email = some value)) := by
  subst hrealm
  have hlist : (s.recordsIn User .users realm.id).filter (·.email = some value) =
      having s realm.id UniqueField.email.attributeName value := by
    rw [having]
    simp only [field_attributeName]
    rfl
  rw [hlist]
  have hby := findBy_eq h hr (attributeName_mem .email) hv
  have hsole := findUnique_eq h hr hv .email
  have hresolve := resolve_eq h hr (l := having s realm.id UniqueField.email.attributeName value)
    fun u hu => (mem_having_iff.mp hu).1
  have hemail : ∀ u ∈ having s realm.id UniqueField.email.attributeName value,
      u.email = some value := fun u hu => (mem_having_iff.mp hu).2
  generalize having s realm.id UniqueField.email.attributeName value = holders
    at hby hsole hresolve hemail
  have hfilter : holders.filter (fun u => u.email = some value) = holders :=
    List.filter_eq_self.mpr fun u hu => decide_eq_true (hemail u hu)
  rw [loadByEmail]
  cases hpolicy : realm.duplicateEmailsAllowed with
  | true =>
    simp only [↓reduceIte]
    rw [Query.bind_of_ok hby, Query.bind_of_ok hresolve, hfilter]
    rcases holders with _ | ⟨u, _ | ⟨u', rest⟩⟩
    · rfl
    · rfl
    · exact (if_pos hpolicy).symm
  | false =>
    simp only [Bool.false_eq_true, ↓reduceIte]
    rcases holders with _ | ⟨u, _ | ⟨u', rest⟩⟩
    · rw [Query.bind_of_ok (Query.map_of_ok hsole _)]
      rfl
    · rw [Query.bind_of_ok (Query.map_of_ok hsole _)]
      show (resolve realm.id ([u].map (·.id)) >>= _) s = _
      rw [Query.bind_of_ok hresolve, hfilter]
      rfl
    · rw [Query.bind_of_error (Query.map_of_error hsole _)]
      exact (if_neg (Bool.eq_false_iff.mp hpolicy)).symm

end Answers

end Users

end IdentityDirectory
