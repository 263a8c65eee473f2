import IdentityDirectory.Proofs.Registry.Removal

/-!
From the first claim on a value of a record to the last commit. Main statements: `Pending.claim_eq`,
by which a claim is refused exactly if another record has the value, `Pending.store`, and
`Writing.commit_eq`; `Writing.moved` ends it.
-/

namespace IdentityDirectory.Registry

variable {α : Type} [Storable α] {R : Registry α} {s₀ s s' : RowStore}
  {r id name value : String} {U claims claims' : String → String → Prop}
  {a : α} {done : String → Prop}

structure Pending (R : Registry α) (U : String → String → Prop) (s₀ s : RowStore)
    (r id : String) (claims : String → String → Prop) : Prop where
  kept : R.Kept U s₀
  claiming : R.index.Claiming s R.Admits (· ∈ R.fields) r id claims
  now : s.now = s₀.now
  table : ∀ t, t ≠ R.index.reverse → s.table t = s₀.table t

theorem Kept.pending (h : R.Kept U s) (r id : String) :
    R.Pending U s s r id fun _ _ => False where
  kept := h
  claiming := h.regular.claiming r id
  now := rfl
  table _ _ := rfl

theorem Pending.claims_congr (h : R.Pending U s₀ s r id claims)
    (hiff : ∀ n v, claims n v ↔ claims' n v) : R.Pending U s₀ s r id claims' where
  kept := h.kept
  claiming := h.claiming.claims_congr hiff
  now := h.now
  table := h.table

theorem Pending.holds (h : R.Pending U s₀ s r id claims) : s.Holds α R.table :=
  RowStore.holds_congr (h.table _ R.table_ne.2) h.kept.holds

theorem Pending.keyed (h : R.Pending U s₀ s r id claims) : R.Keyed s :=
  keyed_congr (h.table _ R.table_ne.2) h.kept.keyed

theorem Pending.record (h : R.Pending U s₀ s r id claims) (r' id' : String) (time : Int) :
    R.record s r' id' time = R.record s₀ r' id' time :=
  record_congr (h.table _ R.table_ne.2) r' id' time

theorem Pending.valuesAt (h : R.Pending U s₀ s r id claims) (r' id' name : String) (time : Int) :
    R.index.valuesAt s r' id' name time = R.index.valuesAt s₀ r' id' name time :=
  AttributeIndex.valuesAt_congr (h.table _ R.index.forward_ne_reverse)

theorem Pending.confined (h : R.Pending U s₀ s r id claims) : R.Confined s₀ s :=
  ⟨h.now, fun t _ _ hrev => h.table t hrev⟩

theorem Pending.moved (h : R.Pending U s₀ s r id claims) (hnone : ∀ n v, ¬ claims n v) :
    R.Moved U s₀ s where
  kept := by
    apply h.kept.congr h.now
    · exact h.holds
    · exact h.keyed
    · exact h.claiming.regular hnone
    · exact fun r' id' time _ => h.record r' id' time
    · exact fun r' id' name time _ _ _ _ => h.valuesAt r' id' name time
  confined := h.confined

theorem Pending.contested_iff (h : R.Pending U s₀ s r id claims) (hr : R.Scope r)
    (hn : name ∈ R.fields) :
    R.index.Contested s r id name value ↔ R.Taken s₀ r id name value := by
  rw [← contested_iff_taken h.kept hr hn, AttributeIndex.Contested, AttributeIndex.Contested, h.now]
  simp only [h.valuesAt]

section Claims

variable (hr : R.Scope r) (hid : NulFree id) (hn : name ∈ R.fields)
include hr hn

theorem Pending.claimUnique_eq (h : R.Pending U s₀ s r id claims) (hv : NulFree value)
    (kind : UniqueKind) {holds : String → Query Bool}
    (hholds : ∀ e, holds e s =
      .ok ((R.record s r e s.now).any fun a => R.field name a = some value)) :
    (R.Taken s₀ r id name value →
      R.index.claimUnique r id name kind value none holds s =
        (.error (.duplicateKey kind value), s)) ∧
    (¬ R.Taken s₀ r id name value →
      R.index.claimUnique r id name kind value none holds s =
        (.ok (), R.index.claim s r id name value)) := by
  have hplain := R.scope_plain r hr
  have hplain' := R.fields_plain name hn
  have hheld : ∀ e, NulFree e → value ∈ R.index.valuesAt s r e name s.now →
      holds e s = .ok true := by
    intro e he hmem
    rw [h.valuesAt, h.now, h.kept.values r e name _ hr he hn (Int.le_refl _), Option.mem_toList,
      Option.bind_eq_some_iff] at hmem
    obtain ⟨a, ha, hfield⟩ := hmem
    rw [hholds, h.record, h.now, ha]
    simp [hfield]
  have heq := AttributeIndex.claimUnique_eq h.claiming hplain hplain' hn hv kind
    (fun e => ⟨_, hholds e⟩) hheld
  rwa [h.contested_iff hr hn] at heq

include hid

theorem Pending.claim (h : R.Pending U s₀ s r id claims) (hv : NulFree value) :
    R.Pending U s₀ (R.index.claim s r id name value) r id
      fun n v => claims n v ∨ n = name ∧ v = value where
  kept := h.kept
  claiming := h.claiming.claim R.fields_plain R.distinguishes (R.scope_plain r hr) hid (.inl hn) hv
  now := by rw [AttributeIndex.now_claim, h.now]
  table t ht := by rw [AttributeIndex.table_claim_of_ne ht, h.table t ht]

theorem Pending.claim_eq (h : R.Pending U s₀ s r id claims) (hv : NulFree value)
    (kind : UniqueKind) {holds : String → Query Bool}
    (hholds : ∀ e, holds e s =
      .ok ((R.record s r e s.now).any fun a => R.field name a = some value)) :
    (R.Taken s₀ r id name value →
      R.index.claimUnique r id name kind value none holds s =
        (.error (.duplicateKey kind value), s)) ∧
    (¬ R.Taken s₀ r id name value →
      ∃ s', R.index.claimUnique r id name kind value none holds s = (.ok (), s') ∧
        R.Pending U s₀ s' r id fun n v => claims n v ∨ n = name ∧ v = value) :=
  have heq := h.claimUnique_eq hr hn hv kind hholds
  ⟨heq.1, fun hfree => ⟨_, heq.2 hfree, h.claim hr hid hn hv⟩⟩

theorem Pending.release_eq (h : R.Pending U s₀ s r id claims) (hv : NulFree value)
    (hnew : value ∉ R.index.valuesAt s₀ r id name s₀.now) :
    ∃ s', (discard (R.index.releaseClaim r id name value) : Update Unit) s = (.ok (), s') ∧
      R.Pending U s₀ s' r id fun n v => claims n v ∧ ¬ (n = name ∧ v = value) := by
  refine ⟨_, AttributeIndex.releaseClaim_eq h.claiming.sound r id name value, h.kept, ?_, ?_, ?_⟩
  · apply h.claiming.release R.fields_plain R.distinguishes (R.scope_plain r hr) hid (.inl hn) hv
    rw [h.valuesAt, h.now]
    exact hnew
  · rw [AttributeIndex.now_release, h.now]
  · intro t ht
    rw [AttributeIndex.table_release_of_ne ht, h.table t ht]

end Claims

structure Writing (R : Registry α) (s₀ s : RowStore) (r id : String) (a : α)
    (claims : String → String → Prop) (done : String → Prop) : Prop where
  claiming : R.index.Claiming s R.Admits (· ∈ R.fields) r id claims
  confined : R.Confined s₀ s
  holds : s.Holds α R.table
  keyed : R.Keyed s
  record_new : ∀ time, R.record s r id time = some a
  record_old : ∀ r' id' time, R.Scope r' → ¬ (r' = r ∧ id' = id) →
    R.record s r' id' time = R.record s₀ r' id' time
  values_new : ∀ name time, name ∈ R.fields → done name → s₀.now ≤ time →
    R.index.valuesAt s r id name time = (R.field name a).toList
  values_old : ∀ r' id' name time, R.Scope r' → NulFree id' → ¬ (r' = r ∧ id' = id) →
    R.index.valuesAt s r' id' name time = R.index.valuesAt s₀ r' id' name time

def current (R : Registry α) (s : RowStore) (r id name : String) : Option String :=
  (R.record s r id s.now).bind (R.field name)

theorem Pending.store (h : R.Pending U s₀ s r id claims) (hr : R.Scope r) (hid : NulFree id)
    (a : α) :
    R.Writing s₀ (s.write R.table (R.key r id).encode (Storable.payload a) none) r id a claims
      fun n => R.field n a = R.current s₀ r id n := by
  have hf := s.table_write_of_ne (Ne.symm R.table_ne.1) (R.key r id).encode (Storable.payload a) none
  have hrev := s.table_write_of_ne (Ne.symm R.table_ne.2) (R.key r id).encode
    (Storable.payload a) none
  constructor
  · exact h.claiming.congr_tables hf hrev rfl
  · exact h.confined.trans (confined_write R s _ _)
  · exact h.holds.write _ _ _
  · exact h.keyed.write hr id _
  · intro time
    rw [record_write hr hr, if_pos ⟨rfl, rfl⟩]
  · intro r' id' time hr' hne
    rw [record_write hr hr', if_neg hne, h.record]
  · intro name time hn hdone hle
    rw [AttributeIndex.valuesAt_congr hf, h.valuesAt, h.kept.values r id name time hr hid hn hle,
      h.kept.lasting r id time hr hle, hdone]
    rfl
  · intro r' id' name time _ _ _
    rw [AttributeIndex.valuesAt_congr hf, h.valuesAt]

theorem Pending.put_eq (h : R.Pending U s₀ s r id claims) (a : α) :
    (discard (Update.put R.table (R.key r id) a) : Update Unit) s =
      (.ok (), s.write R.table (R.key r id).encode (Storable.payload a) none) :=
  Update.discard_of_ok (Update.put_eq _ h.holds.readable a none)

theorem Writing.rewritten (h : R.Writing s₀ s r id a claims done) (hr : R.Scope r)
    (hid : NulFree id)
    (hclaiming : R.index.Claiming s' R.Admits (· ∈ R.fields) r id fun n v => claims n v ∧ n ≠ name)
    (hw : R.index.Rewritten s s' r id name (R.field name a).toList) :
    R.Writing s₀ s' r id a (fun n v => claims n v ∧ n ≠ name) fun n => done n ∨ n = name := by
  have ht := table_of_within hw.within
  have hplain := R.scope_plain r hr
  refine ⟨hclaiming, h.confined.trans (confined_of_within hw.within), ?_, ?_, ?_, ?_, ?_, ?_⟩
  · exact RowStore.holds_congr ht h.holds
  · exact keyed_congr ht h.keyed
  · intro time
    rw [record_congr ht, h.record_new]
  · intro r' id' time hr' hne
    rw [record_congr ht, h.record_old r' id' time hr' hne]
  · intro name' time hn' hdone hle
    rw [hw.valuesAt r id name' time hplain hid]
    by_cases hname : name' = name
    · rw [if_pos ⟨rfl, rfl, hname⟩, hname]
    · rw [if_neg fun hall => hname hall.2.2]
      exact h.values_new name' time hn' (hdone.resolve_right hname) hle
  · intro r' id' name' time hr' hid' hne
    rw [hw.valuesAt r' id' name' time (R.scope_plain r' hr') hid',
      if_neg fun hall => hne ⟨hall.1, hall.2.1⟩]
    exact h.values_old r' id' name' time hr' hid' hne

section Commits

variable (hr : R.Scope r) (hid : NulFree id) (hn : name ∈ R.fields)
include hr hid hn

theorem Writing.commit_eq (h : R.Writing s₀ s r id a claims done)
    (hfree : ∀ v ∈ R.field name a, NulFree v)
    (hclaims : ∀ v, claims name v ↔ R.field name a = some v) :
    ∃ s', R.index.commitUnique r id name (R.field name a) none s = (.ok (), s') ∧
      R.Writing s₀ s' r id a (fun n v => claims n v ∧ n ≠ name) fun n => done n ∨ n = name := by
  obtain ⟨s', heq, hclaiming, hw⟩ := AttributeIndex.commitUnique_settles R.fields_plain
    R.distinguishes (R.scope_plain r hr) hid (.inl hn) h.claiming hfree hclaims
  exact ⟨s', heq, h.rewritten hr hid hclaiming hw⟩

theorem Writing.set_eq (h : R.Writing s₀ s r id a claims done)
    (hfree : ∀ v ∈ R.field name a, NulFree v) (hclaims : ∀ v, ¬ claims name v) :
    ∃ s', R.index.setAttribute r id name (R.field name a).toList none s = (.ok (), s') ∧
      R.Writing s₀ s' r id a (fun n v => claims n v ∧ n ≠ name) fun n => done n ∨ n = name := by
  obtain ⟨s', heq, hclaiming, hw⟩ := AttributeIndex.setAttribute_settles R.fields_plain
    R.distinguishes (R.scope_plain r hr) hid (.inl hn) h.claiming hfree hclaims
  exact ⟨s', heq, h.rewritten hr hid hclaiming hw⟩

end Commits

theorem Writing.skip (h : R.Writing s₀ s r id a claims done) (hdone : done name)
    (hclaims : ∀ v, ¬ claims name v) :
    R.Writing s₀ s r id a (fun n v => claims n v ∧ n ≠ name) fun n => done n ∨ n = name where
  claiming := h.claiming.leaveOut hclaims
  confined := h.confined
  holds := h.holds
  keyed := h.keyed
  record_new := h.record_new
  record_old := h.record_old
  values_new name' time hn' hdone' hle := by
    have hdone' : done name' := by
      rcases hdone' with hdone' | rfl
      · exact hdone'
      · exact hdone
    exact h.values_new name' time hn' hdone' hle
  values_old := h.values_old

theorem Writing.moved (h : R.Writing s₀ s r id a claims done) (hkept : R.Kept U s₀)
    (hr : R.Scope r) (hid : NulFree id) (hidOf : R.idOf a = id) (hnone : ∀ n v, ¬ claims n v)
    (hdone : ∀ n ∈ R.fields, done n)
    (hfree : ∀ n v, n ∈ R.fields → U r n → R.field n a = some v →
      R.current s₀ r id n ≠ some v → ¬ R.Taken s₀ r id n v) : R.Moved U s₀ s where
  kept := by
    have hchanged : R.Changed s₀ s (fun r' id' => r' = r ∧ id' = id) (some a) := by
      refine ⟨h.confined.now, h.holds, h.keyed, h.claiming.regular hnone, ?_, ?_, ?_, ?_⟩
      · rintro r' id' time - ⟨rfl, rfl⟩
        exact h.record_new time
      · exact h.record_old
      · rintro r' id' n time - - hn hle ⟨rfl, rfl⟩
        exact h.values_new n time hn (hdone n hn) hle
      · exact fun r' id' n time hr' hid' _ _ => h.values_old r' id' n time hr' hid'
    apply hkept.change hchanged
    · rintro b hb r' id' ⟨rfl, rfl⟩
      obtain rfl := Option.some.inj hb
      exact ⟨hidOf, hid⟩
    · rintro b hb r' id' n v ⟨rfl, rfl⟩ - hu hn hv
      obtain rfl := Option.some.inj hb
      by_cases hold : R.current s₀ r' id' n = some v
      · obtain ⟨old, ha, hfield⟩ := Option.bind_eq_some_iff.mp hold
        exact hkept.unique r' id' n old v hr hu hn ha hfield
      · exact hfree n v hn hu hv hold
  confined := h.confined

theorem Kept.plain_write (h : R.Kept U s) (hr : R.Scope r) (hid : NulFree id)
    (hidOf : R.idOf a = id) (hsame : ∀ n ∈ R.fields, R.field n a = R.current s r id n) :
    R.Moved U s (s.write R.table (R.key r id).encode (Storable.payload a) none) := by
  apply ((h.pending r id).store hr hid a).moved h hr hid hidOf fun _ _ hc => hc
  · exact hsame
  · intro n v hn _ hv hold
    rw [← hsame n hn] at hold
    exact absurd hv hold

theorem Kept.claimed_write (h : R.Kept U s) (hr : R.Scope r) (hid : NulFree id)
    (hn : name ∈ R.fields) (hv : NulFree value) (hidOf : R.idOf a = id)
    (hfield : R.field name a = some value)
    (hothers : ∀ n ∈ R.fields, n ≠ name → R.field n a = R.current s r id n) (kind : UniqueKind)
    {holds : String → Query Bool}
    (hholds : ∀ e, holds e s =
      .ok ((R.record s r e s.now).any fun a => R.field name a = some value))
    (hfree : ¬ R.Taken s r id name value) :
    ∃ s₁ s₂, R.index.claimUnique r id name kind value none holds s = (.ok (), s₁) ∧
      R.Pending U s s₁ r id (fun n v => n = name ∧ v = value) ∧
      R.index.commitUnique r id name (some value) none
        (s₁.write R.table (R.key r id).encode (Storable.payload a) none) = (.ok (), s₂) ∧
      R.Moved U s s₂ := by
  obtain ⟨s₁, hclaim, hpending⟩ := ((h.pending r id).claim_eq hr hid hn hv kind hholds).2 hfree
  have hpending : R.Pending U s s₁ r id fun n v => n = name ∧ v = value :=
    hpending.claims_congr fun n v => by simp
  have hclaims : ∀ v, name = name ∧ v = value ↔ R.field name a = some v := by
    intro v
    rw [hfield]
    constructor
    · rintro ⟨-, rfl⟩
      rfl
    · rintro heq
      exact ⟨rfl, (Option.some.inj heq).symm⟩
  have hvalue : ∀ v ∈ R.field name a, NulFree v := by
    intro v hmem
    rw [((hclaims v).mpr hmem).2]
    exact hv
  obtain ⟨s₂, hcommit, hwriting⟩ := (hpending.store hr hid a).commit_eq hr hid hn hvalue hclaims
  rw [hfield] at hcommit
  refine ⟨s₁, s₂, hclaim, hpending, hcommit, ?_⟩
  apply hwriting.moved h hr hid hidOf
  · rintro n v ⟨⟨rfl, -⟩, hne⟩
    exact hne rfl
  · intro n hn'
    by_cases hname : n = name
    · exact .inr hname
    · exact .inl (hothers n hn' hname)
  · intro n v hn' _ hsome hold
    by_cases hname : n = name
    · subst hname
      rw [((hclaims v).mpr hsome).2]
      exact hfree
    · rw [← hothers n hn' hname] at hold
      exact absurd hsome hold

end IdentityDirectory.Registry
