import IdentityDirectory.Proofs.Registry.Storing
import IdentityDirectory.User.Repository

/-!
The registry of users and the claims on their unique values. Main statement: `claimAll_eq`, by
which either all claims are granted or none is left.
-/

namespace IdentityDirectory.Users

variable {s₀ s : RowStore} {r id : String} {U : String → String → Prop}

def fields : List String :=
  [UniqueField.username.attributeName, UniqueField.email.attributeName,
    UniqueField.serviceAccount.attributeName, federationLinkAttribute]

def field (name : String) (user : User) : Option String :=
  if name = UniqueField.username.attributeName then some user.username
  else if name = UniqueField.email.attributeName then user.email
  else if name = UniqueField.serviceAccount.attributeName then user.serviceAccountClientLink
  else user.federationLink

theorem attributeName_mem (f : UniqueField) : f.attributeName ∈ fields := by
  cases f <;> decide

@[simp] theorem attributeName_inj {f g : UniqueField} : f.attributeName = g.attributeName ↔ f = g := by
  constructor
  · intro h
    cases f <;> cases g <;> first | rfl | (revert h; decide)
  · rintro rfl
    rfl

theorem attributeName_ne_link (f : UniqueField) : f.attributeName ≠ federationLinkAttribute := by
  cases f <;> decide

theorem mem_fields_iff {name : String} :
    name ∈ fields ↔ (∃ f : UniqueField, name = f.attributeName) ∨ name = federationLinkAttribute := by
  constructor
  · intro hn
    simp only [fields, List.mem_cons, List.not_mem_nil, or_false] at hn
    rcases hn with rfl | rfl | rfl | rfl
    · exact .inl ⟨.username, rfl⟩
    · exact .inl ⟨.email, rfl⟩
    · exact .inl ⟨.serviceAccount, rfl⟩
    · exact .inr rfl
  · rintro (⟨f, rfl⟩ | rfl)
    · exact attributeName_mem f
    · decide

@[simp] theorem field_attributeName (f : UniqueField) (user : User) :
    field f.attributeName user = f.value? user := by
  cases f <;> rfl

@[simp] theorem field_link (user : User) :
    field federationLinkAttribute user = user.federationLink := rfl

def registry : Registry User where
  table := .users
  index := .users
  Scope := Plain
  key := key
  idOf := User.id
  fields := fields
  field := field
  scope_plain _ := fun h => h
  key_inj r r' id id' hr hr' := by
    rw [RowKey.encode_inj (k := key r id) hr.1 hr'.1, key, key, RowKey.mk.injEq]
  table_ne := by decide
  fields_internal := by decide

/-- Usernames and service accounts have one holder each, and so have emails where that is asked for. -/
def Sole (strict : String → Prop) (r name : String) : Prop :=
  ∃ f : UniqueField, name = f.attributeName ∧ (f = .email → strict r)

theorem load_eq (h : registry.Kept U s) (r id : String) :
    load r id s = .ok (registry.record s r id s.now) :=
  Registry.record_eq h r id

theorem holds_eq (hs : s.Holds User .users) (r : String) (f : UniqueField) (value owner : String) :
    holds r f value owner s = .ok ((registry.record s r owner s.now).any
      fun u => field f.attributeName u = some value) := by
  rw [holds, Query.bind_of_ok (show load r owner s = _ from Query.record_eq hs _)]
  simp only [field_attributeName]
  rfl

def Held (claims : List Claim) (name value : String) : Prop :=
  ∃ f : UniqueField, name = f.attributeName ∧ (f, value) ∈ claims

theorem held_iff {claims : List Claim} {f : UniqueField} {value : String} :
    Held claims f.attributeName value ↔ (f, value) ∈ claims := by
  constructor
  · rintro ⟨g, hg, hmem⟩
    obtain rfl := attributeName_inj.mp hg
    exact hmem
  · intro hmem
    exact ⟨f, rfl, hmem⟩

theorem not_held_link {claims : List Claim} {value : String} :
    ¬ Held claims federationLinkAttribute value := by
  rintro ⟨f, hf, -⟩
  exact attributeName_ne_link f hf.symm

def Fresh (s : RowStore) (r id : String) (claims : List Claim) : Prop :=
  ∀ c ∈ claims, NulFree c.2 ∧
    c.2 ∉ AttributeIndex.users.valuesAt s r id c.1.attributeName s.now

theorem held_append {taken : List Claim} {f : UniqueField} {value : String} (n v : String) :
    Held taken n v ∨ n = f.attributeName ∧ v = value ↔ Held (taken ++ [(f, value)]) n v := by
  constructor
  · rintro (⟨g, rfl, hmem⟩ | ⟨rfl, rfl⟩)
    · exact ⟨g, rfl, List.mem_append_left _ hmem⟩
    · exact ⟨f, rfl, List.mem_append_right _ (List.mem_singleton_self _)⟩
  · rintro ⟨g, rfl, hmem⟩
    rcases List.mem_append.mp hmem with hmem | hmem
    · exact .inl ⟨g, rfl, hmem⟩
    · obtain ⟨rfl, rfl⟩ := Prod.mk.inj (List.mem_singleton.mp hmem)
      exact .inr ⟨rfl, rfl⟩

theorem pending_held_nil (h : registry.Kept U s) (r id : String) :
    registry.Pending U s s r id (Held []) := by
  apply (h.pending r id).claims_congr
  intro n v
  refine iff_of_false (fun hf => hf) ?_
  rintro ⟨f, -, hmem⟩
  cases hmem

section Claims

variable (hr : Plain r) (hid : NulFree id)
include hr hid

theorem release_eq {claims : String → String → Prop} {l : List Claim}
    (h : registry.Pending U s₀ s r id claims) (hl : Fresh s₀ r id l)
    (hcover : ∀ n v, claims n v → Held l n v) :
    ∃ s', release r id l s = (.ok (), s') ∧ registry.Moved U s₀ s' := by
  induction l generalizing s claims with
  | nil =>
    refine ⟨s, rfl, h.moved ?_⟩
    intro n v hc
    obtain ⟨f, -, hmem⟩ := hcover n v hc
    cases hmem
  | cons c l ih =>
    obtain ⟨f, value⟩ := c
    obtain ⟨hv, hnew⟩ : NulFree value ∧ value ∉ _ := hl (f, value) List.mem_cons_self
    obtain ⟨s₁, hone, hpending⟩ := h.release_eq hr hid (attributeName_mem f) hv hnew
    have hone : (discard (AttributeIndex.users.releaseClaim r id f.attributeName value) :
      Update Unit) s = (.ok (), s₁) := hone
    have hrest : ∀ n v, claims n v ∧ ¬ (n = f.attributeName ∧ v = value) → Held l n v := by
      rintro n v ⟨hc, hne⟩
      obtain ⟨g, rfl, hmem⟩ := hcover n v hc
      rcases List.mem_cons.mp hmem with heq | hmem
      · obtain ⟨rfl, rfl⟩ := Prod.mk.inj heq
        exact absurd ⟨rfl, rfl⟩ hne
      · exact ⟨g, rfl, hmem⟩
    obtain ⟨s', heq, hmoved⟩ := ih hpending (fun c hc => hl c (List.mem_cons_of_mem _ hc)) hrest
    refine ⟨s', ?_, hmoved⟩
    rw [show release r id ((f, value) :: l) = (discard (AttributeIndex.users.releaseClaim r id
      f.attributeName value) >>= fun _ => release r id l) from rfl, Update.bind_of_ok hone, heq]

theorem claimFrom_eq {taken rest : List Claim} (h : registry.Pending U s₀ s r id (Held taken))
    (hfresh : Fresh s₀ r id (taken ++ rest)) :
    (∃ s', claimFrom r id taken rest s = (.ok (), s') ∧
      registry.Pending U s₀ s' r id (Held (taken ++ rest)) ∧
      ∀ c ∈ rest, ¬ registry.Taken s₀ r id c.1.attributeName c.2) ∨
    ∃ s' c, c ∈ rest ∧ registry.Taken s₀ r id c.1.attributeName c.2 ∧
      claimFrom r id taken rest s = (.error (.duplicateKey c.1.kind c.2), s') ∧
      registry.Moved U s₀ s' := by
  induction rest generalizing s taken with
  | nil =>
    refine .inl ⟨s, rfl, ?_, fun c hc => by cases hc⟩
    rwa [List.append_nil]
  | cons c rest ih =>
    obtain ⟨f, value⟩ := c
    have hmem : (f, value) ∈ taken ++ (f, value) :: rest :=
      List.mem_append_right _ List.mem_cons_self
    obtain ⟨hrefused, hgranted⟩ := h.claim_eq hr hid (attributeName_mem f) (hfresh _ hmem).1 f.kind
      (holds_eq h.holds r f value)
    by_cases htaken : registry.Taken s₀ r id f.attributeName value
    · -- The claims granted so far are released again.
      have hl : Fresh s₀ r id taken := fun c hc => hfresh c (List.mem_append_left _ hc)
      obtain ⟨s', hrelease, hmoved⟩ := release_eq hr hid h hl fun _ _ hc => hc
      refine .inr ⟨s', (f, value), List.mem_cons_self, htaken, ?_, hmoved⟩
      rw [claimFrom]
      apply Update.bind_of_error
      have hrefused : AttributeIndex.users.claimUnique r id f.attributeName f.kind value none
        (holds r f value) s = _ := hrefused htaken
      rw [Update.tryCatch_of_error hrefused, Update.bind_of_ok hrelease]
      rfl
    · obtain ⟨s₁, hclaim, hpending⟩ := hgranted htaken
      have hclaim : AttributeIndex.users.claimUnique r id f.attributeName f.kind value none
        (holds r f value) s = _ := hclaim
      rw [claimFrom, Update.bind_of_ok (Update.tryCatch_of_ok hclaim _)]
      have hnext : registry.Pending U s₀ s₁ r id (Held (taken ++ [(f, value)])) :=
        hpending.claims_congr held_append
      have hlist : taken ++ (f, value) :: rest = taken ++ [(f, value)] ++ rest := by simp
      rw [hlist] at hfresh ⊢
      rcases ih hnext hfresh with ⟨s', heq, hdone, hfree⟩ | ⟨s', c, hc, htaken', heq, hmoved⟩
      · refine .inl ⟨s', heq, hdone, ?_⟩
        intro c hc
        rcases List.mem_cons.mp hc with rfl | hc
        · exact htaken
        · exact hfree c hc
      · exact .inr ⟨s', c, List.mem_cons_of_mem _ hc, htaken', heq, hmoved⟩

theorem claimAll_eq {claims : List Claim} (h : registry.Kept U s) (hfresh : Fresh s r id claims) :
    (∃ s', claimAll r id claims s = (.ok (), s') ∧
      registry.Pending U s s' r id (Held claims) ∧
      ∀ c ∈ claims, ¬ registry.Taken s r id c.1.attributeName c.2) ∨
    ∃ s' c, c ∈ claims ∧ registry.Taken s r id c.1.attributeName c.2 ∧
      claimAll r id claims s = (.error (.duplicateKey c.1.kind c.2), s') ∧
      registry.Moved U s s' := by
  exact claimFrom_eq hr hid (pending_held_nil h r id) hfresh

end Claims

end IdentityDirectory.Users
