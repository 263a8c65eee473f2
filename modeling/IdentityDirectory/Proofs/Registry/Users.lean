import IdentityDirectory.Proofs.Registry.UserClaims

/-!
Changes of users. Main statements: `reindex_eq`, by which every index row follows its field, and one
lemma for each change of rows.
-/

namespace IdentityDirectory.Users

variable {s₀ s : RowStore} {r id : String} {U : String → String → Prop}
  {claims : String → String → Prop} {done : String → Prop} {realm : Realm} {previous user : User}

def Indexable (user : User) : Prop := ∀ name ∈ fields, ∀ value ∈ field name user, NulFree value

instance (user : User) : Decidable (Indexable user) :=
  inferInstanceAs (Decidable (∀ name ∈ fields, _))

theorem changed_iff {f : UniqueField} :
    changed f previous user ↔ f.value? previous ≠ f.value? user := decide_eq_true_iff

theorem mem_newClaims_iff {f : UniqueField} {value : String} :
    (f, value) ∈ newClaims realm previous user ↔
      f.value? previous ≠ f.value? user ∧ f.value? user = some value ∧
        (f = .email → realm.duplicateEmailsAllowed = false) := by
  have hclaims : ∀ g : UniqueField, (f, value) ∈ claimsOf g previous user ↔
      f = g ∧ f.value? previous ≠ f.value? user ∧ f.value? user = some value := by
    intro g
    simp only [claimsOf, changed, decide_eq_true_eq]
    split
    · next hne =>
      simp only [List.mem_map, Option.mem_toList, Prod.mk.injEq]
      constructor
      · rintro ⟨v, hv, rfl, rfl⟩
        exact ⟨rfl, hne, hv⟩
      · rintro ⟨rfl, -, hv⟩
        exact ⟨value, hv, rfl, rfl⟩
    · next heq =>
      refine iff_of_false (by simp) ?_
      rintro ⟨rfl, hne, -⟩
      exact heq hne
  rw [newClaims, List.mem_append, List.mem_append, hclaims, hclaims]
  cases f <;> cases hpolicy : realm.duplicateEmailsAllowed <;> simp [hclaims]

theorem reindex_steps (realm : Realm) (previous user : User) : reindex realm previous user =
    ((if changed .username previous user then commit user .username else pure ()) >>= fun _ =>
    (if changed .email previous user then
      (if realm.duplicateEmailsAllowed then
        setIndexed user UniqueField.email.attributeName user.email
      else commit user .email)
    else pure ()) >>= fun _ =>
    (if previous.federationLink ≠ user.federationLink then
      setIndexed user federationLinkAttribute user.federationLink
    else pure ()) >>= fun _ =>
    (if changed .serviceAccount previous user then commit user .serviceAccount else pure ())) := by
  rw [reindex]
  dsimp only
  rw [Update.ite_bind]
  refine congrArg _ (funext fun _ => ?_)
  rw [Update.ite_bind]
  by_cases hemail : changed .email previous user
  · by_cases hpolicy : realm.duplicateEmailsAllowed
    · rw [if_pos hemail, if_pos hemail, if_pos hpolicy, if_pos hpolicy]
    · rw [if_pos hemail, if_pos hemail, if_neg hpolicy, if_neg hpolicy]
  · rw [if_neg hemail, if_neg hemail]
    rfl

section Steps

variable (hr : Plain user.realmId) (hid : NulFree user.id) (hvalues : Indexable user)
  (h : registry.Writing s₀ s user.realmId user.id user claims done)
include hr hid hvalues h

theorem commit_if_eq (previous : User) (f : UniqueField)
    (hdone : field f.attributeName user = field f.attributeName previous → done f.attributeName)
    (hclaims : ∀ v, claims f.attributeName v ↔
      f.value? previous ≠ f.value? user ∧ f.value? user = some v) :
    ∃ s', (if changed f previous user then commit user f else pure ()) s = (.ok (), s') ∧
      registry.Writing s₀ s' user.realmId user.id user
        (fun n v => claims n v ∧ n ≠ f.attributeName) fun n => done n ∨ n = f.attributeName := by
  have hmem := attributeName_mem f
  by_cases hne : f.value? previous = f.value? user
  · rw [if_neg fun hchanged => changed_iff.mp hchanged hne]
    refine ⟨s, rfl, h.skip ?_ ?_⟩
    · apply hdone
      rw [field_attributeName, field_attributeName, hne]
    · intro v hc
      exact ((hclaims v).mp hc).1 hne
  · have hfield : registry.field f.attributeName user = f.value? user := field_attributeName f user
    rw [if_pos (changed_iff.mpr hne)]
    obtain ⟨s', heq, hwriting⟩ := h.commit_eq hr hid hmem (hvalues _ hmem) fun v => by
      rw [hclaims v, hfield]
      exact and_iff_right hne
    rw [hfield] at heq
    exact ⟨s', heq, hwriting⟩

theorem setIndexed_if_eq (c : Prop) [Decidable c] {name : String} (hn : name ∈ fields)
    (hdone : ¬ c → done name) (hnone : ∀ v, ¬ claims name v) :
    ∃ s', (if c then setIndexed user name (field name user) else pure ()) s = (.ok (), s') ∧
      registry.Writing s₀ s' user.realmId user.id user (fun n v => claims n v ∧ n ≠ name)
        fun n => done n ∨ n = name := by
  by_cases hc : c
  · rw [if_pos hc]
    exact h.set_eq hr hid hn (hvalues name hn) hnone
  · rw [if_neg hc]
    exact ⟨s, rfl, h.skip (hdone hc) hnone⟩

theorem email_if_eq (realm : Realm) (previous : User)
    (hdone : field UniqueField.email.attributeName user =
      field UniqueField.email.attributeName previous → done UniqueField.email.attributeName)
    (hclaims : ∀ v, claims UniqueField.email.attributeName v ↔
      (.email, v) ∈ newClaims realm previous user) :
    ∃ s', (if changed .email previous user then
        (if realm.duplicateEmailsAllowed then
          setIndexed user UniqueField.email.attributeName user.email
        else commit user .email)
      else pure ()) s = (.ok (), s') ∧
      registry.Writing s₀ s' user.realmId user.id user
        (fun n v => claims n v ∧ n ≠ UniqueField.email.attributeName)
        fun n => done n ∨ n = UniqueField.email.attributeName := by
  by_cases hpolicy : realm.duplicateEmailsAllowed
  · rw [if_pos hpolicy]
    apply setIndexed_if_eq hr hid hvalues h _ (attributeName_mem .email)
    · intro hsame
      rw [changed_iff, Decidable.not_not] at hsame
      apply hdone
      rw [field_attributeName, field_attributeName, hsame]
    · intro v hc
      rw [hclaims, mem_newClaims_iff, hpolicy] at hc
      cases hc.2.2 rfl
  · rw [if_neg hpolicy]
    apply commit_if_eq hr hid hvalues h previous .email hdone
    intro v
    rw [hclaims, mem_newClaims_iff]
    simp [hpolicy]

end Steps

theorem reindex_eq (hr : Plain user.realmId) (hid : NulFree user.id) (hvalues : Indexable user)
    (h : registry.Writing s₀ s user.realmId user.id user (Held (newClaims realm previous user))
      fun n => field n user = field n previous) :
    ∃ s' claims' done', reindex realm previous user s = (.ok (), s') ∧
      registry.Writing s₀ s' user.realmId user.id user claims' done' ∧
      (∀ n v, ¬ claims' n v) ∧ ∀ n ∈ fields, done' n := by
  rw [reindex_steps]
  obtain ⟨s₁, h₁, hw₁⟩ := commit_if_eq hr hid hvalues h previous .username (fun hsame => hsame)
    fun v => by rw [held_iff, mem_newClaims_iff]; simp
  rw [Update.bind_of_ok h₁]
  obtain ⟨s₂, h₂, hw₂⟩ := email_if_eq hr hid hvalues hw₁ realm previous .inl
    fun v => by rw [held_iff]; simp
  rw [Update.bind_of_ok h₂]
  obtain ⟨s₃, h₃, hw₃⟩ := setIndexed_if_eq hr hid hvalues hw₂
    (previous.federationLink ≠ user.federationLink)
    (show federationLinkAttribute ∈ fields by decide)
    (fun hsame => .inl (.inl (Decidable.not_not.mp hsame).symm)) fun v hc => not_held_link hc.1.1
  rw [field_link] at h₃
  rw [Update.bind_of_ok h₃]
  have hlink := attributeName_ne_link .serviceAccount
  obtain ⟨s₄, h₄, hw₄⟩ := commit_if_eq hr hid hvalues hw₃ previous .serviceAccount
    (fun hsame => .inl (.inl (.inl hsame))) fun v => by
      rw [held_iff, mem_newClaims_iff]
      simp [hlink]
  refine ⟨s₄, _, _, h₄, hw₄, ?_, ?_⟩
  · rintro n v ⟨⟨⟨⟨⟨f, rfl, -⟩, h₁⟩, h₂⟩, -⟩, h₄⟩
    cases f
    · exact h₁ rfl
    · exact h₂ rfl
    · exact h₄ rfl
  · intro n hn
    rcases mem_fields_iff.mp hn with ⟨f, rfl⟩ | rfl
    · cases f <;> simp
    · simp

theorem claimAll_single (h : registry.Pending U s₀ s r id fun _ _ => False) (hr : Plain r)
    (hid : NulFree id) {f : UniqueField} {value : String} (hv : NulFree value)
    (htaken : registry.Taken s₀ r id f.attributeName value) :
    claimAll r id [(f, value)] s = (.error (.duplicateKey f.kind value), s) := by
  have hrefused : AttributeIndex.users.claimUnique r id f.attributeName f.kind value none
      (holds r f value) s = _ :=
    (h.claim_eq hr hid (attributeName_mem f) hv f.kind (holds_eq h.holds r f value)).1 htaken
  rw [claimAll, claimFrom]
  apply Update.bind_of_error
  rw [Update.tryCatch_of_error hrefused]
  rfl

theorem field_of_created (r id username : String) (now : Int) : ∀ n ∈ fields,
    n ≠ UniqueField.username.attributeName →
      field n { realmId := r, id, username, createdTimestamp := now } = none := by
  intro n hn hne
  rcases mem_fields_iff.mp hn with ⟨f, rfl⟩ | rfl
  · cases f with
    | username => exact absurd rfl hne
    | email | serviceAccount => rfl
  · rfl

theorem insert_spec (h : registry.Kept U s) (hr : Plain user.realmId) (hid : NulFree user.id)
    (hname : NulFree user.username) (hnew : registry.record s user.realmId user.id s.now = none)
    (hbare : ∀ n ∈ fields, n ≠ UniqueField.username.attributeName → field n user = none) :
    registry.Moved U s (insert user s).2 ∧
      Answers (fun kind value => kind = .user ∧ value = user.username ∧
        registry.Taken s user.realmId user.id UniqueField.username.attributeName user.username)
        (insert user s).1 := by
  by_cases htaken :
      registry.Taken s user.realmId user.id UniqueField.username.attributeName user.username
  · have hrefused := claimAll_single (h.pending user.realmId user.id) hr hid hname htaken
    rw [insert, Update.bind_of_error hrefused]
    exact ⟨h.moved, _, _, rfl, rfl, rfl, htaken⟩
  · have hothers : ∀ n ∈ fields, n ≠ UniqueField.username.attributeName →
        field n user = registry.current s user.realmId user.id n := by
      intro n hn hne
      rw [hbare n hn hne, Registry.current, hnew]
      rfl
    obtain ⟨s₁, s₂, hclaim, hpending, hcommit, hmoved⟩ := h.claimed_write (R := registry) hr hid
      (attributeName_mem .username) hname rfl rfl hothers .user
      (holds_eq h.holds user.realmId .username user.username) htaken
    have hclaim : AttributeIndex.users.claimUnique user.realmId user.id
      UniqueField.username.attributeName .user user.username none
      (holds user.realmId .username user.username) s = (.ok (), s₁) := hclaim
    have hclaims : claimAll user.realmId user.id [(.username, user.username)] s = (.ok (), s₁) := by
      rw [claimAll, claimFrom]
      exact Update.bind_of_ok (Update.tryCatch_of_ok hclaim _) _
    have hput : put user s₁ = _ := hpending.put_eq user
    have hcommit : commit user .username _ = (.ok (), s₂) := hcommit
    rw [insert, Update.bind_of_ok hclaims, putClaimed,
      Update.bind_of_ok (Update.tryCatch_of_ok hput _), Update.bind_of_ok hcommit]
    refine ⟨hmoved, ?_⟩
    rintro kind value ⟨-, -, htaken'⟩
    exact htaken htaken'

theorem current_eq (hrecord : registry.record s r id s.now = some previous) (n : String) :
    registry.current s r id n = field n previous := by
  rw [Registry.current, hrecord]
  rfl

theorem fresh_newClaims (h : registry.Kept U s) (hr : Plain r) (hvalues : Indexable user)
    (hrecord : registry.record s r id s.now = some previous) (realm : Realm) :
    Fresh s r id (newClaims realm previous user) := by
  rintro ⟨f, value⟩ hmem
  obtain ⟨hne, hvalue, -⟩ := mem_newClaims_iff.mp hmem
  have hid := (h.placed r id previous hr hrecord).2
  have hf := attributeName_mem f
  refine ⟨?_, ?_⟩
  · apply hvalues f.attributeName hf
    rw [field_attributeName]
    exact hvalue
  · intro hold
    have hstored : AttributeIndex.users.valuesAt s r id f.attributeName s.now =
        (registry.current s r id f.attributeName).toList :=
      h.values r id f.attributeName s.now hr hid hf (Int.le_refl _)
    rw [hstored, current_eq hrecord, field_attributeName, Option.mem_toList] at hold
    exact hne (hold.trans hvalue.symm)

theorem replace_spec {strict : String → Prop} (h : registry.Kept (Sole strict) s)
    (hr : Plain realm.id) (hvalues : Indexable (normalize realm user))
    (hpolicy : strict realm.id → realm.duplicateEmailsAllowed = false) :
    registry.Moved (Sole strict) s (replace realm user s).2 ∧
      Answers (fun kind value => ∃ previous f,
        registry.record s realm.id user.id s.now = some previous ∧ kind = f.kind ∧
          (f, value) ∈ newClaims realm previous (normalize realm user) ∧
          registry.Taken s realm.id user.id f.attributeName value) (replace realm user s).1 := by
  rw [replace, Update.bind_liftM_of_ok (load_eq h realm.id user.id)]
  cases hrecord : registry.record s realm.id user.id s.now with
  | none =>
    refine ⟨h.moved, ?_⟩
    rintro kind value ⟨_, _, hsome, -⟩
    cases hsome
  | some previous =>
    dsimp only
    have hid := (h.placed realm.id user.id previous hr hrecord).2
    rcases claimAll_eq hr hid h (fresh_newClaims h hr hvalues hrecord realm) with
      ⟨s₁, hclaims, hheld, hfree⟩ | ⟨s₁, c, hc, htaken, hrefused, hmoved⟩
    · have hwriting := hheld.store hr hid (normalize realm user)
      have hput : put (normalize realm user) s₁ = _ := hheld.put_eq (normalize realm user)
      have hcurrent : (fun n => registry.field n (normalize realm user) =
          registry.current s realm.id user.id n) =
          fun n => field n (normalize realm user) = field n previous :=
        funext fun n => by rw [current_eq hrecord]; rfl
      rw [hcurrent] at hwriting
      obtain ⟨s₂, claims', done', hreindex, hwritten, hnone, hdone⟩ := reindex_eq
        (show Plain (normalize realm user).realmId from hr) hid hvalues hwriting
      have hwritten : registry.Writing s s₂ realm.id user.id (normalize realm user) claims' done' :=
        hwritten
      have hclaims : claimAll realm.id (normalize realm user).id
        (newClaims realm previous (normalize realm user)) s = (.ok (), s₁) := hclaims
      rw [Update.bind_of_ok hclaims, putClaimed,
        Update.bind_of_ok (Update.tryCatch_of_ok hput _), Update.bind_of_ok hreindex]
      refine ⟨hwritten.moved h hr hid rfl hnone hdone ?_, ?_⟩
      · rintro n v - ⟨f, rfl, hemail⟩ hv hold
        rw [current_eq hrecord, field_attributeName] at hold
        have hv : f.value? (normalize realm user) = some v := field_attributeName f _ ▸ hv
        apply hfree (f, v)
        refine mem_newClaims_iff.mpr ⟨?_, hv, fun hf => hpolicy (hemail hf)⟩
        intro hsame
        exact hold (hsame.trans hv)
      · rintro kind value ⟨previous', f, heq, -, hmem, htaken⟩
        obtain rfl := Option.some.inj heq
        exact hfree (f, value) hmem htaken
    · have hrefused : claimAll realm.id (normalize realm user).id
        (newClaims realm previous (normalize realm user)) s = _ := hrefused
      rw [Update.bind_of_error hrefused]
      exact ⟨hmoved, _, _, rfl, previous, c.1, rfl, rfl, hc, htaken⟩

def KeepsFields (change : User → Option User) : Prop :=
  ∀ u u', change u = some u' → u'.id = u.id ∧ ∀ n, field n u' = field n u

theorem keepsFields_withGroups (f : StringSet → Option StringSet) : KeepsFields (withGroups f) := by
  intro u u' hsome
  obtain ⟨m, -, rfl⟩ := Option.map_eq_some_iff.mp hsome
  exact ⟨rfl, fun _ => rfl⟩

theorem keepsFields_withRoles (f : StringSet → Option StringSet) : KeepsFields (withRoles f) := by
  intro u u' hsome
  obtain ⟨m, -, rfl⟩ := Option.map_eq_some_iff.mp hsome
  exact ⟨rfl, fun _ => rfl⟩

theorem keepsFields_withActions (f : StringSet → Option StringSet) :
    KeepsFields (withActions f) := by
  intro u u' hsome
  obtain ⟨m, -, rfl⟩ := Option.map_eq_some_iff.mp hsome
  exact ⟨rfl, fun _ => rfl⟩

theorem alter_spec (h : registry.Kept U s) (hr : Plain r) {change : User → Option User}
    (hchange : KeepsFields change) :
    ∃ done s', alter r id change s = (.ok done, s') ∧ registry.Moved U s s' := by
  rw [alter, Update.bind_liftM_of_ok (load_eq h r id)]
  cases hrecord : registry.record s r id s.now with
  | none => exact ⟨false, s, rfl, h.moved⟩
  | some previous =>
    cases hchanged : change previous with
    | none =>
      rw [Option.bind_some, hchanged]
      exact ⟨false, s, rfl, h.moved⟩
    | some user =>
      obtain ⟨hidOf, hid⟩ := h.placed r id previous hr hrecord
      obtain ⟨hsameId, hsame⟩ := hchange previous user hchanged
      have hreadable : s.Readable .users := h.holds.readable
      rw [Option.bind_some, hchanged]
      dsimp only
      rw [Update.bind_of_ok (Update.put_eq _ hreadable user none)]
      refine ⟨true, _, rfl, h.plain_write (R := registry) hr hid (hsameId.trans hidOf) ?_⟩
      intro n _
      rw [current_eq hrecord]
      exact hsame n

theorem putAttribute_spec (h : registry.Kept U s) (hr : Plain r) {name : String}
    (hname : isInternal name = false) (values : List String) :
    ∃ done s', putAttribute r id name values s = (.ok done, s') ∧ registry.Moved U s s' := by
  have hhead : name.toList.head? ≠ some '$' := of_decide_eq_false hname
  rw [putAttribute, Update.bind_liftM_of_ok (load_eq h r id)]
  cases hrecord : registry.record s r id s.now with
  | none => exact ⟨false, s, rfl, h.moved⟩
  | some user =>
    have hid := (h.placed r id user hr hrecord).2
    obtain ⟨s', heq, hmoved⟩ := Registry.setOther_eq hhead h hr hid values
    have heq : AttributeIndex.users.setAttribute r id name values none s = (.ok (), s') := heq
    rw [if_neg (by simp), Update.bind_of_ok heq]
    exact ⟨true, s', rfl, hmoved⟩

theorem delete_spec (h : registry.Kept U s) (hr : Plain r) (id : String) :
    ∃ removed s', delete r id s = (.ok removed, s') ∧ registry.Moved U s s' := by
  obtain ⟨removed, heq⟩ := Registry.erase_eq h.holds h.regular.sound r id
  exact ⟨removed, _, heq, h.erase hr id⟩

theorem deleteAll_spec (h : registry.Kept U s) (hr : Plain r) :
    ∃ n s', deleteAll r s = (.ok n, s') ∧ registry.Moved U s s' :=
  ⟨_, _, Registry.eraseAll_eq h.holds h.regular.sound r, h.eraseAll (fun _ _ _ => rfl) hr⟩

end IdentityDirectory.Users
