import IdentityDirectory.Proofs.Index.Backing
import IdentityDirectory.Proofs.Isolation.Rules
import IdentityDirectory.Proofs.Registry.Uniqueness

/-!
Records and the index rows that are theirs. No index row is seen without its record, at whatever point a
change of records may fail. Main statements: `Backed.erase` and `Backed.eraseAll`, by which the index
rows go with their records, and one `keeps_*` lemma for each part of a change.
-/

namespace IdentityDirectory

variable {α β : Type}

def Boundary.keeping (I : RowStore → Prop) : Boundary RowStore where
  shared := Eq
  spared s s' := I s → I s'
  refl _ := id
  trans h h' := h' ∘ h

abbrev Update.Keeps (I : RowStore → Prop) (u : Update α) : Prop := (Boundary.keeping I).Isolates u

namespace Update

variable {I : RowStore → Prop} {s : RowStore}

theorem keeps_of {u : Update α} (h : ∀ s, I s → I (u s).2) : Keeps I u := by
  rintro s _ rfl
  exact ⟨rfl, rfl, h s⟩

theorem Keeps.apply {u : Update α} (h : Keeps I u) (hs : I s) : I (u s).2 := (h s s rfl).2.2 hs

theorem keeps_query (q : Query α) : Keeps I (liftM q) := keeps_of fun _ hs => hs

theorem keeps_bind_query {q : Query α} {f : α → Update β}
    (h : ∀ s a, I s → q s = .ok a → I (f a s).2) : Keeps I (liftM q >>= f) := by
  refine keeps_of fun s hs => ?_
  cases hq : q s with
  | ok a =>
    rw [bind_liftM_of_ok hq]
    exact h s a hs hq
  | error e =>
    rw [bind_of_error (show (liftM q : Update α) s = (.error e, s) by rw [liftM_apply, hq])]
    exact hs

end Update

namespace Registry

variable [Storable α] {R : Registry α} {N : String → Prop} {s s' : RowStore}
  {r id name value : String} {U : String → String → Prop}

def Has (R : Registry α) (s : RowStore) (r id : String) : Prop := (R.record s r id s.now).isSome

def Carries (R : Registry α) (N : String → Prop) (s : RowStore) (r id name : String) : Prop :=
  N name ∧ R.Scope r ∧ R.Has s r id

structure Backed (R : Registry α) (N : String → Prop) (s : RowStore) : Prop where
  holds : s.Holds α R.table
  ids : ∀ r id, R.Scope r → R.Has s r id → NulFree id
  sound : R.index.Sound s
  index : R.index.Backed s (· ∈ R.fields) (R.Carries N s)

theorem has_congr (ht : s'.table R.table = s.table R.table) (hnow : s'.now = s.now) :
    R.Has s' r id ↔ R.Has s r id := by
  rw [Has, Has, record_congr ht, hnow]

theorem backed_empty (R : Registry α) (N : String → Prop) (now : Int) : R.Backed N (.empty now) where
  holds := RowStore.holds_empty now _
  ids r id _ hhas := by
    rw [Has, record, RowStore.recordAt, RowStore.seen_empty] at hhas
    cases hhas
  sound := AttributeIndex.sound_empty _ now
  index := AttributeIndex.backed_empty _ now _ _

theorem Backed.congr_tables (h : R.Backed N s) (hnow : s'.now = s.now)
    (ht : s'.table R.table = s.table R.table)
    (hf : s'.table R.index.forward = s.table R.index.forward)
    (hr : s'.table R.index.reverse = s.table R.index.reverse) : R.Backed N s' where
  holds := RowStore.holds_congr ht h.holds
  ids r id hs hhas := h.ids r id hs ((has_congr ht hnow).mp hhas)
  sound := h.sound.congr hf hr
  index := (h.index.congr_tables hf hr hnow).mono fun _ _ _ _ _ hc =>
    ⟨hc.1, hc.2.1, (has_congr ht hnow).mpr hc.2.2⟩

theorem Backed.of_confined [Storable β] {S : Registry β} (h : R.Backed N s)
    (hc : S.Confined s s') (hne : ∀ t ∈ R.tables, t ∉ S.tables) : R.Backed N s' := by
  apply h.congr_tables hc.now <;> apply hc.table_of_notMem <;> apply hne <;> simp [tables]

theorem Backed.later (h : R.Backed N s) (hkept : R.Kept U s) {now : Int} (hle : s.now ≤ now) :
    R.Backed N { s with now } := by
  have hhas : ∀ r id, R.Scope r → (R.Has { s with now } r id ↔ R.Has s r id) := by
    intro r id hr
    have hlasting : R.record { s with now } r id now = R.record s r id s.now :=
      hkept.lasting r id now hr hle
    rw [Has, Has, hlasting]
  constructor
  · exact RowStore.holds_congr (s := s) rfl h.holds
  · exact fun r id hr hlater => h.ids r id hr ((hhas r id hr).mp hlater)
  · exact AttributeIndex.Sound.congr (s := s) rfl rfl h.sound
  · exact (h.index.later hle).mono fun r id _ _ _ hc =>
      ⟨hc.1, hc.2.1, (hhas r id hc.2.1).mpr hc.2.2⟩

theorem Backed.sweep (h : R.Backed N s) : R.Backed N s.sweep.2 := by
  have hhas : ∀ r id, R.Has s.sweep.2 r id ↔ R.Has s r id := by
    intro r id
    have hsame : R.record s.sweep.2 r id s.now = R.record s r id s.now :=
      s.reclaimed_sweep.recordAt_eq (Int.le_refl _) _
    rw [Has, Has, s.now_sweep, hsame]
  constructor
  · exact h.holds.reclaimed s.reclaimed_sweep
  · exact fun r id hr hswept => h.ids r id hr ((hhas r id).mp hswept)
  · exact h.sound.reclaimed s.reclaimed_sweep
  · exact (h.index.reclaimed s.reclaimed_sweep).mono fun r id _ _ _ hc =>
      ⟨hc.1, hc.2.1, (hhas r id).mpr hc.2.2⟩

theorem Backed.of_within (h : R.Backed N s) (hw : R.index.Within s s') (hsound : R.index.Sound s')
    (hindex : R.index.Backed s' (· ∈ R.fields) (R.Carries N s)) : R.Backed N s' where
  holds := RowStore.holds_congr (table_of_within hw) h.holds
  ids r id hr hhas := h.ids r id hr ((has_congr (table_of_within hw) hw.now).mp hhas)
  sound := hsound
  index := hindex.mono fun _ _ _ _ _ hc =>
    ⟨hc.1, hc.2.1, (has_congr (table_of_within hw) hw.now).mpr hc.2.2⟩

theorem Backed.has_of_record (h : R.Backed N s) {a : α}
    (hfound : Query.record R.table (R.key r id) s = .ok (some a)) : R.Has s r id := by
  have hrecord : R.record s r id s.now = some a :=
    Except.ok.inj ((Query.record_eq h.holds _).symm.trans hfound)
  rw [Has, hrecord]
  rfl

theorem has_write_iff {r' id' : String} {a : α} (hr : R.Scope r) (hr' : R.Scope r') :
    R.Has (s.write R.table (R.key r id).encode (Storable.payload a) none) r' id' ↔
      (r' = r ∧ id' = id) ∨ R.Has s r' id' := by
  rw [Has, record_write hr hr', RowStore.now_write]
  split
  · next heq => exact iff_of_true rfl (.inl heq)
  · next hne => exact (or_iff_right hne).symm

theorem Backed.write (h : R.Backed N s) (hr : R.Scope r) (hid : NulFree id) (a : α) :
    R.Backed N (s.write R.table (R.key r id).encode (Storable.payload a) none) where
  holds := h.holds.write _ _ _
  ids r' id' hr' hhas := by
    rcases (has_write_iff hr hr').mp hhas with ⟨-, rfl⟩ | hold
    · exact hid
    · exact h.ids r' id' hr' hold
  sound := h.sound.congr (s.table_write_of_ne (Ne.symm R.table_ne.1) _ _ _)
    (s.table_write_of_ne (Ne.symm R.table_ne.2) _ _ _)
  index := by
    have hindex := h.index.congr_tables
      (s.table_write_of_ne (Ne.symm R.table_ne.1) (R.key r id).encode (Storable.payload a) none)
      (s.table_write_of_ne (Ne.symm R.table_ne.2) (R.key r id).encode (Storable.payload a) none)
      (s.now_write R.table (R.key r id).encode (Storable.payload a) none)
    exact hindex.mono fun _ _ _ _ _ hc => ⟨hc.1, hc.2.1, (has_write_iff hr hc.2.1).mpr (.inr hc.2.2)⟩

theorem has_erase_iff {r' id' : String} (hr : R.Scope r) (hr' : R.Scope r') :
    R.Has (R.erase s r id) r' id' ↔ ¬ (r' = r ∧ id' = id) ∧ R.Has s r' id' := by
  have hnow : (R.erase s r id).now = s.now := by
    rw [Registry.erase, AttributeIndex.now_clearAll, s.now_remove]
  rw [Has, record_erase hr hr', hnow]
  split
  · next heq => exact iff_of_false Bool.false_ne_true fun hboth => hboth.1 heq
  · next hne => exact (and_iff_right hne).symm

theorem Backed.erase (h : R.Backed N s) (hr : R.Scope r)
    (hfree : NulFree id ∨ ∀ name, N name → NulFree name) : R.Backed N (R.erase s r id) := by
  have hf := s.table_remove_of_ne (Ne.symm R.table_ne.1) (R.key r id).encode
  have hrev := s.table_remove_of_ne (Ne.symm R.table_ne.2) (R.key r id).encode
  have hremoved := h.index.congr_tables hf hrev (s.now_remove R.table (R.key r id).encode)
  have hsound := h.sound.congr hf hrev
  have hcleared := hremoved.clearAll hsound (R.scope_plain r hr)
    (hfree.imp_right fun hnames _ _ name hc => hnames name hc.1)
  refine ⟨?_, ?_, AttributeIndex.sound_clearAll hsound, ?_⟩
  · exact RowStore.holds_congr (table_of_within AttributeIndex.within_clearAll) (h.holds.remove _ _)
  · exact fun r' id' hr' hhas => h.ids r' id' hr' ((has_erase_iff hr hr').mp hhas).2
  · refine hcleared.mono ?_
    rintro r' id' name - - ⟨⟨hn, hr', hhas⟩, hne⟩
    exact ⟨hn, hr', (has_erase_iff hr hr').mpr ⟨hne, hhas⟩⟩

section Partition

variable (hkey : ∀ r id, R.Scope r → R.key r id = ⟨r, id⟩)
include hkey

theorem has_eraseAll_iff {r' id' : String} (hr : R.Scope r) (hr' : R.Scope r') :
    R.Has (R.eraseAll s r) r' id' ↔ r' ≠ r ∧ R.Has s r' id' := by
  have hnow : (R.eraseAll s r).now = s.now := by
    rw [Registry.eraseAll, RowStore.now_removePartition, AttributeIndex.within_clearEach.now]
  rw [Has, record_eraseAll hkey hr hr', hnow]
  split
  · next heq => exact iff_of_false Bool.false_ne_true fun hboth => hboth.1 heq
  · next hne => exact (and_iff_right hne).symm

theorem Backed.eraseAll (h : R.Backed N s) (hkept : R.Kept U s) (hr : R.Scope r) :
    R.Backed N (R.eraseAll s r) := by
  let ids := (s.recordsIn α R.table r).map R.idOf
  have hplaced : ∀ id a, R.record s r id s.now = some a → id ∈ ids := by
    intro id a ha
    exact List.mem_map.mpr ⟨a, (mem_recordsIn_iff hkey hr).mpr ⟨id, ha⟩,
      (hkept.placed r id a hr ha).1⟩
  have hfree : ∀ id ∈ ids, NulFree id := by
    intro id hid
    obtain ⟨a, ha, rfl⟩ := List.mem_map.mp hid
    obtain ⟨id, ha⟩ := (mem_recordsIn_iff hkey hr).mp ha
    exact (hkept.placed r id a hr ha).1 ▸ h.ids r id hr (Option.isSome_iff_exists.mpr ⟨a, ha⟩)
  have hcleared : R.index.Backed (R.index.clearEach s r ids) _ _ :=
    h.index.clearEach h.sound (R.scope_plain r hr) (.inl hfree)
  have hsound : R.index.Sound (R.index.clearEach s r ids) := by
    exact (hkept.regular.clearEach R.fields_plain R.distinguishes (R.scope_plain r hr)).sound
  have hf := RowStore.table_removePartition_of_ne (s := R.index.clearEach s r ids)
    (Ne.symm R.table_ne.1) r
  have hrev := RowStore.table_removePartition_of_ne (s := R.index.clearEach s r ids)
    (Ne.symm R.table_ne.2) r
  refine ⟨?_, ?_, hsound.congr hf hrev, ?_⟩
  · exact (RowStore.holds_congr (table_of_within AttributeIndex.within_clearEach)
      h.holds).removePartition _ _
  · exact fun r' id' hr' hhas => h.ids r' id' hr' ((has_eraseAll_iff hkey hr hr').mp hhas).2
  · refine (hcleared.congr_tables hf hrev (RowStore.now_removePartition r)).mono ?_
    rintro r' id' name - - ⟨⟨hn, hr', hhas⟩, hne⟩
    obtain ⟨a, ha⟩ := Option.isSome_iff_exists.mp hhas
    have hother : r' ≠ r := by
      rintro rfl
      exact hne ⟨rfl, hplaced id' a ha⟩
    exact ⟨hn, hr', (has_eraseAll_iff hkey hr hr').mpr ⟨hother, hhas⟩⟩

end Partition

section Claims

variable (hr : R.Scope r) (hn : name ∈ R.fields) (hv : NulFree value)
include hr hn hv

theorem keeps_tryClaim : Update.Keeps (R.Backed N) (R.index.tryClaim r id name value none) := by
  refine Update.keeps_of fun s h => ?_
  rw [AttributeIndex.tryClaim_eq h.sound]
  split
  · exact h
  · apply h.of_within (AttributeIndex.within_write (.inr rfl) _ _)
    · exact h.sound.writeReverse _ _ _
    · exact h.index.claim (R.scope_plain r hr) hn hv id

omit hr hn hv in
theorem keeps_removeReverse (key : RowKey) :
    Update.Keeps (R.Backed N) (discard (Update.delete R.index.reverse key) : Update Unit) := by
  refine Update.keeps_of fun s h => ?_
  rw [Update.discard_of_ok (Update.delete_eq key h.sound.reverse)]
  exact h.of_within (AttributeIndex.within_remove (.inr rfl) _) (h.sound.remove _ _)
    (h.index.removeReverse _)

theorem keeps_claimUnique (kind : UniqueKind) (holds : String → Query Bool) :
    Update.Keeps (R.Backed N) (R.index.claimUnique r id name kind value none holds) := by
  have hdrop : Update.Keeps (R.Backed N) (R.index.dropStaleClaims r id name value holds) := by
    refine .bind (Update.keeps_query _) fun claims => .bind (Update.keeps_query _) fun found => ?_
    cases found with
    | none => exact .pure false
    | some stale => exact .bind (.forM fun key _ => keeps_removeReverse key) fun _ => .pure true
  refine .bind (keeps_tryClaim hr hn hv) fun claimed => ?_
  split
  · exact .pure ()
  · refine .bind hdrop fun dropped => ?_
    split
    · refine .bind (keeps_tryClaim hr hn hv) fun claimed => ?_
      split
      · exact .pure ()
      · exact .throw _
    · exact .throw _

end Claims

def BackedWith (R : Registry α) (N : String → Prop) (r id : String) (s : RowStore) : Prop :=
  R.Backed N s ∧ R.Has s r id

section Attributes

variable (hr : R.Scope r) (hid : NulFree id) (hn : N name)

theorem BackedWith.of_within (h : R.BackedWith N r id s) (hw : R.index.Within s s')
    (hsound : R.index.Sound s')
    (hindex : R.index.Backed s' (· ∈ R.fields) (R.Carries N s)) : R.BackedWith N r id s' :=
  ⟨h.1.of_within hw hsound hindex, (has_congr (table_of_within hw) hw.now).mpr h.2⟩

include hr hid

theorem keeps_removeAttribute :
    Update.Keeps (R.Backed N) (R.index.removeAttribute r id name) := by
  refine Update.keeps_of fun s h => ?_
  rw [AttributeIndex.removeAttribute_eq h.sound]
  exact h.of_within AttributeIndex.within_clear (AttributeIndex.sound_clear h.sound)
    (h.index.clear (R.scope_plain r hr) hid)

include hn

theorem keeps_commitUnique (field : Option String) :
    Update.Keeps (R.BackedWith N r id) (R.index.commitUnique r id name field none) := by
  refine Update.keeps_of fun s h => ?_
  rw [AttributeIndex.commitUnique_eq h.1.sound]
  cases field with
  | none =>
    exact h.of_within AttributeIndex.within_clear (AttributeIndex.sound_clear h.1.sound)
      (h.1.index.clear (R.scope_plain r hr) hid)
  | some v =>
    exact h.of_within AttributeIndex.within_settle h.1.sound.writeForward.unlist
      (h.1.index.settle (R.scope_plain r hr) hid ⟨hn, hr, h.2⟩ v)

theorem keeps_setAttribute (values : List String) :
    Update.Keeps (R.BackedWith N r id) (R.index.setAttribute r id name values none) := by
  refine Update.keeps_of fun s h => ?_
  rw [AttributeIndex.setAttribute_eq h.1.sound]
  exact h.of_within AttributeIndex.within_set (AttributeIndex.sound_set h.1.sound)
    (h.1.index.set (R.scope_plain r hr) hid ⟨hn, hr, h.2⟩)

end Attributes

def Stores (R : Registry α) (N : String → Prop) (r id : String) (u : Update β) : Prop :=
  ∀ s, R.Backed N s → ∃ b s', u s = (.ok b, s') ∧ R.BackedWith N r id s'

section Stores

variable {u : Update β}

theorem stores_put (hr : R.Scope r) (hid : NulFree id) (a : α) :
    R.Stores N r id (Update.put R.table (R.key r id) a) := fun _ h =>
  ⟨_, _, Update.put_eq _ h.holds.readable a none, h.write hr hid a,
    (has_write_iff hr hr).mpr (.inl ⟨rfl, rfl⟩)⟩

theorem Stores.discard (h : R.Stores N r id u) : R.Stores N r id (Functor.discard u) := by
  intro s hs
  obtain ⟨b, s', heq, hbacked⟩ := h s hs
  exact ⟨(), s', Update.discard_of_ok heq, hbacked⟩

theorem Stores.tryCatch (h : R.Stores N r id u) (handle : StoreError → Update β) :
    R.Stores N r id (tryCatch u handle) := by
  intro s hs
  obtain ⟨b, s', heq, hbacked⟩ := h s hs
  exact ⟨b, s', Update.tryCatch_of_ok heq handle, hbacked⟩

theorem Stores.bind {γ : Type} {f : β → Update γ} (h : R.Stores N r id u)
    (hf : ∀ b, Update.Keeps (R.BackedWith N r id) (f b)) : Update.Keeps (R.Backed N) (u >>= f) := by
  refine Update.keeps_of fun s hs => ?_
  obtain ⟨b, s', heq, hbacked⟩ := h s hs
  rw [Update.bind_of_ok heq]
  exact ((hf b).apply hbacked).1

end Stores

end Registry

end IdentityDirectory
