import IdentityDirectory.Proofs.Index.Claims

/-!
Records that are found by values of their fields, of which some have one holder at most. Main
statements: `Registry.Kept`, which ties the records of a scope to their index rows, and `Kept.change`,
by which a write or a removal of records keeps it.
-/

namespace IdentityDirectory

/-- Where a kind of records is kept, and by which fields its index goes. -/
structure Registry (α : Type) [Storable α] where
  table : Table
  index : AttributeIndex
  Scope : String → Prop
  key : String → String → RowKey
  idOf : α → String
  fields : List String
  field : String → α → Option String
  scope_plain : ∀ r, Scope r → Plain r
  key_inj : ∀ r r' id id', Scope r → Scope r' →
    ((key r id).encode = (key r' id').encode ↔ r = r' ∧ id = id')
  table_ne : table ≠ index.forward ∧ table ≠ index.reverse
  fields_internal : ∀ name ∈ fields, Plain name ∧ name.toList.head? = some '$'

namespace Registry

open AttributeIndex (Apart Distinguishes reverseKey)

variable {α : Type} [Storable α] {R : Registry α} {s s' s'' : RowStore}
  {r id name value : String} {U : String → String → Prop}

def Admits (R : Registry α) (name : String) : Prop :=
  name ∈ R.fields ∨ name.toList.head? ≠ some '$'

theorem apart_of_head {scope name' : String} (hs : Plain scope) (hn' : NulFree name')
    (hhead' : name'.toList.head? = some '$') (hhead : name.toList.head? ≠ some '$')
    (entity : String) : Apart scope entity name scope name' where
  forward entity' he' := by
    apply AttributeIndex.forwardKey_ne_of_name_ne hs hn' he'
    rintro rfl
    exact hhead hhead'
  reverse value entity' value' heq := by
    rw [← String.toList_inj, AttributeIndex.toList_reverseKey, AttributeIndex.toList_reverseKey]
      at heq
    have htail := ((cons_append_inj hs.2 hs.2).mp heq).2
    obtain ⟨rest', hrest'⟩ := List.head?_eq_some_iff.mp hhead'
    rw [hrest'] at htail
    cases hlist : name.toList with
    | nil =>
      rw [hlist] at htail
      cases htail
    | cons c rest =>
      rw [hlist] at htail
      apply hhead
      rw [hlist]
      exact congrArg some (List.cons.inj htail).1

theorem fields_plain (R : Registry α) : ∀ name, name ∈ R.fields → Plain name :=
  fun name hn => (R.fields_internal name hn).1

theorem distinguishes (R : Registry α) : Distinguishes R.Admits (· ∈ R.fields) := by
  intro scope entity name name' hs hp hn' hne
  have hinternal := R.fields_internal name' hn'
  rcases hp with hn | hhead
  · exact AttributeIndex.apart_of_name_ne hs (R.fields_plain name hn) hinternal.1 hne entity
  · exact apart_of_head hs hinternal.1.1 hinternal.2 hhead entity

def record (R : Registry α) (s : RowStore) (r id : String) (time : Int) : Option α :=
  s.recordAt α R.table (R.key r id) time

def Keyed (R : Registry α) (s : RowStore) : Prop :=
  ∀ key row, s.rowAt R.table key = some row → ∃ r id, R.Scope r ∧ key = (R.key r id).encode

def Taken (R : Registry α) (s : RowStore) (r id name value : String) : Prop :=
  ∃ id' a, id' ≠ id ∧ R.record s r id' s.now = some a ∧ R.field name a = some value

def Always : String → String → Prop := fun _ _ => True

/-- Whatever the index holds of a record are the values of its fields, now and later on, and no two
records of a scope have the same value where `U` asks for that. -/
structure Kept (R : Registry α) (U : String → String → Prop) (s : RowStore) : Prop where
  holds : s.Holds α R.table
  keyed : R.Keyed s
  regular : R.index.Regular s R.Admits (· ∈ R.fields)
  placed : ∀ r id a, R.Scope r → R.record s r id s.now = some a → R.idOf a = id ∧ NulFree id
  lasting : ∀ r id time, R.Scope r → s.now ≤ time → R.record s r id time = R.record s r id s.now
  values : ∀ r id name time, R.Scope r → NulFree id → name ∈ R.fields → s.now ≤ time →
    R.index.valuesAt s r id name time = ((R.record s r id time).bind (R.field name)).toList
  unique : ∀ r id name a v, R.Scope r → U r name → name ∈ R.fields →
    R.record s r id s.now = some a → R.field name a = some v → ¬ R.Taken s r id name v

structure Confined (R : Registry α) (s s' : RowStore) : Prop where
  now : s'.now = s.now
  table : ∀ t, t ≠ R.table → t ≠ R.index.forward → t ≠ R.index.reverse → s'.table t = s.table t

theorem Confined.refl (R : Registry α) (s : RowStore) : R.Confined s s := ⟨rfl, fun _ _ _ _ => rfl⟩

theorem Confined.trans (h : R.Confined s s') (h' : R.Confined s' s'') : R.Confined s s'' where
  now := h'.now.trans h.now
  table t ht hf hr := (h'.table t ht hf hr).trans (h.table t ht hf hr)

theorem confined_of_within (h : R.index.Within s s') : R.Confined s s' :=
  ⟨h.now, fun t _ hf hr => h.table t hf hr⟩

theorem confined_write (R : Registry α) (s : RowStore) (key : String) (payload : Payload) :
    R.Confined s (s.write R.table key payload none) :=
  ⟨rfl, fun _ ht _ _ => s.table_write_of_ne ht _ _ _⟩

theorem confined_remove (R : Registry α) (s : RowStore) (key : String) :
    R.Confined s (s.remove R.table key) :=
  ⟨s.now_remove _ _, fun _ ht _ _ => s.table_remove_of_ne ht _⟩

def tables (R : Registry α) : List Table := [R.table, R.index.forward, R.index.reverse]

theorem mem_tables_iff {t : Table} :
    t ∈ R.tables ↔ t = R.table ∨ t = R.index.forward ∨ t = R.index.reverse := by
  simp only [tables, List.mem_cons, List.not_mem_nil, or_false]

theorem Confined.table_of_notMem (h : R.Confined s s') {t : Table} (ht : t ∉ R.tables) :
    s'.table t = s.table t := by
  rw [mem_tables_iff, not_or, not_or] at ht
  exact h.table t ht.1 ht.2.1 ht.2.2

theorem record_congr (h : s'.table R.table = s.table R.table) (r id : String) (time : Int) :
    R.record s' r id time = R.record s r id time :=
  RowStore.recordAt_congr h _ _

theorem table_of_within (h : R.index.Within s s') : s'.table R.table = s.table R.table :=
  h.table _ R.table_ne.1 R.table_ne.2

theorem record_eq (h : R.Kept U s) (r id : String) :
    Query.record R.table (R.key r id) s = .ok (R.record s r id s.now) :=
  Query.record_eq h.holds _

theorem record_write {r' id' : String} {a : α} {time : Int} (hr : R.Scope r) (hr' : R.Scope r') :
    R.record (s.write R.table (R.key r id).encode (Storable.payload a) none) r' id' time =
      if r' = r ∧ id' = id then some a else R.record s r' id' time := by
  rw [record, RowStore.recordAt_write]
  simp only [true_and, R.key_inj r' r id' id hr' hr]
  rfl

theorem record_remove {r' id' : String} {time : Int} (hr : R.Scope r) (hr' : R.Scope r') :
    R.record (s.remove R.table (R.key r id).encode) r' id' time =
      if r' = r ∧ id' = id then none else R.record s r' id' time := by
  rw [record, RowStore.recordAt_remove]
  simp only [true_and, R.key_inj r' r id' id hr' hr]
  rfl

theorem keyed_congr (h : s'.table R.table = s.table R.table) (hs : R.Keyed s) : R.Keyed s' := by
  intro key row hrow
  rw [RowStore.rowAt_congr h] at hrow
  exact hs key row hrow

theorem Keyed.write (h : R.Keyed s) (hr : R.Scope r) (id : String) (payload : Payload) :
    R.Keyed (s.write R.table (R.key r id).encode payload none) := by
  intro key row hrow
  rw [RowStore.rowAt_write] at hrow
  split at hrow
  · next hsame => exact ⟨r, id, hr, hsame.2⟩
  · exact h key row hrow

theorem Keyed.remove (h : R.Keyed s) (t : Table) (key : String) : R.Keyed (s.remove t key) := by
  intro key' row hrow
  rw [RowStore.rowAt_remove] at hrow
  split at hrow
  · cases hrow
  · exact h key' row hrow

theorem Keyed.removePartition (h : R.Keyed s) (t : Table) (partition : String) :
    R.Keyed (s.removePartition t partition) := by
  intro key row hrow
  rw [RowStore.rowAt_removePartition] at hrow
  split at hrow
  · cases hrow
  · exact h key row hrow

theorem Keyed.reclaimed (h : R.Keyed s) (hs : RowStore.Reclaimed s s') : R.Keyed s' := by
  intro key row hrow
  rcases hs.rows R.table key with heq | ⟨hnone, -⟩
  · rw [heq] at hrow
    exact h key row hrow
  · rw [hnone] at hrow
    cases hrow

theorem contested_iff_taken (h : R.Kept U s) (hr : R.Scope r) (hn : name ∈ R.fields) :
    R.index.Contested s r id name value ↔ R.Taken s r id name value := by
  have hvalues : ∀ e, NulFree e → (value ∈ R.index.valuesAt s r e name s.now ↔
      ∃ a, R.record s r e s.now = some a ∧ R.field name a = some value) := by
    intro e he
    rw [h.values r e name s.now hr he hn (Int.le_refl _), Option.mem_toList,
      Option.bind_eq_some_iff]
  constructor
  · rintro ⟨e, hne, he, hmem⟩
    obtain ⟨a, ha, hv⟩ := (hvalues e he).mp hmem
    exact ⟨e, a, hne, ha, hv⟩
  · rintro ⟨e, a, hne, ha, hv⟩
    have he := (h.placed r e a hr ha).2
    exact ⟨e, hne, he, (hvalues e he).mpr ⟨a, ha, hv⟩⟩

theorem kept_empty (R : Registry α) (U : String → String → Prop) (now : Int) :
    R.Kept U (.empty now) := by
  have hnone : ∀ r id time, R.record (.empty now) r id time = none := by
    intro r id time
    rw [record, RowStore.recordAt, RowStore.seen_empty]
    rfl
  constructor
  · exact RowStore.holds_empty now _
  · intro key row hrow
    rw [RowStore.rowAt_empty] at hrow
    cases hrow
  · exact AttributeIndex.regular_empty _ now _ _
  · intro r id a _ ha
    rw [hnone] at ha
    cases ha
  · intro r id time _ _
    rw [hnone, hnone]
  · intro r id name time _ _ _ _
    rw [hnone, AttributeIndex.valuesAt, RowStore.recordAt, RowStore.seen_empty]
    rfl
  · intro r id name a v _ _ _ ha
    rw [hnone] at ha
    cases ha

theorem Kept.later (h : R.Kept U s) {now : Int} (hle : s.now ≤ now) : R.Kept U { s with now } where
  holds := RowStore.holds_congr (s := s) rfl h.holds
  keyed := keyed_congr (s := s) rfl h.keyed
  regular := h.regular.later hle
  placed r id a hr ha := h.placed r id a hr (RowStore.recordAt_of_le hle ha)
  lasting r id time hr hle' :=
    (h.lasting r id time hr (Int.le_trans hle hle')).trans (h.lasting r id now hr hle).symm
  values r id name time hr hid hn hle' := h.values r id name time hr hid hn (Int.le_trans hle hle')
  unique r id name a v hr hu hn ha hv := by
    rintro ⟨id', a', hne, ha', hv'⟩
    apply h.unique r id name a v hr hu hn (RowStore.recordAt_of_le hle ha) hv
    exact ⟨id', a', hne, RowStore.recordAt_of_le hle ha', hv'⟩

theorem Kept.mono {U' : String → String → Prop} (h : R.Kept U s)
    (hle : ∀ r name, U' r name → U r name) : R.Kept U' s :=
  { h with unique := fun r id name a v hr hu => h.unique r id name a v hr (hle r name hu) }

theorem Kept.congr (h : R.Kept U s) (hnow : s'.now = s.now) (hholds : s'.Holds α R.table)
    (hkeyed : R.Keyed s') (hregular : R.index.Regular s' R.Admits (· ∈ R.fields))
    (hrecord : ∀ r id time, s.now ≤ time → R.record s' r id time = R.record s r id time)
    (hvalues : ∀ r id name time, R.Scope r → NulFree id → name ∈ R.fields → s.now ≤ time →
      R.index.valuesAt s' r id name time = R.index.valuesAt s r id name time) : R.Kept U s' := by
  have hcurrent : ∀ r id, R.record s' r id s'.now = R.record s r id s.now := by
    intro r id
    rw [hnow]
    exact hrecord r id s.now (Int.le_refl _)
  refine ⟨hholds, hkeyed, hregular, ?_, ?_, ?_, ?_⟩
  · intro r id a hr ha
    rw [hcurrent] at ha
    exact h.placed r id a hr ha
  · intro r id time hr hle
    rw [hnow] at hle
    rw [hcurrent, hrecord r id time hle]
    exact h.lasting r id time hr hle
  · intro r id name time hr hid hn hle
    rw [hnow] at hle
    rw [hvalues r id name time hr hid hn hle, hrecord r id time hle]
    exact h.values r id name time hr hid hn hle
  · intro r id name a v hr hu hn ha hv
    rw [hcurrent] at ha
    rintro ⟨id', a', hne, ha', hv'⟩
    rw [hcurrent] at ha'
    exact h.unique r id name a v hr hu hn ha hv ⟨id', a', hne, ha', hv'⟩

theorem Kept.congr_tables (h : R.Kept U s) (hnow : s'.now = s.now)
    (ht : s'.table R.table = s.table R.table)
    (hf : s'.table R.index.forward = s.table R.index.forward)
    (hr : s'.table R.index.reverse = s.table R.index.reverse) : R.Kept U s' := by
  apply h.congr hnow
  · exact RowStore.holds_congr ht h.holds
  · exact keyed_congr ht h.keyed
  · exact h.regular.congr_tables hf hr hnow
  · exact fun r id time _ => record_congr ht r id time
  · exact fun _ _ _ _ _ _ _ _ => AttributeIndex.valuesAt_congr hf

theorem Kept.of_confined {β : Type} [Storable β] {S : Registry β} (h : R.Kept U s)
    (hc : S.Confined s s') (hne : ∀ t ∈ R.tables, t ∉ S.tables) : R.Kept U s' := by
  apply h.congr_tables hc.now <;> apply hc.table_of_notMem <;> apply hne <;> simp [tables]

theorem Kept.sweep (h : R.Kept U s) : R.Kept U s.sweep.2 := by
  have hs := s.reclaimed_sweep
  apply h.congr hs.now
  · exact h.holds.reclaimed hs
  · exact h.keyed.reclaimed hs
  · exact h.regular.reclaimed hs
  · exact fun r id time hle => hs.recordAt_eq hle _
  · intro r id name time _ _ _ hle
    rw [AttributeIndex.valuesAt, AttributeIndex.valuesAt, hs.recordAt_eq hle]

structure Changed (R : Registry α) (s s' : RowStore) (hit : String → String → Prop)
    (o : Option α) : Prop where
  now : s'.now = s.now
  holds : s'.Holds α R.table
  keyed : R.Keyed s'
  regular : R.index.Regular s' R.Admits (· ∈ R.fields)
  record_hit : ∀ r id time, R.Scope r → hit r id → R.record s' r id time = o
  record_missed : ∀ r id time, R.Scope r → ¬ hit r id →
    R.record s' r id time = R.record s r id time
  values_hit : ∀ r id name time, R.Scope r → NulFree id → name ∈ R.fields → s.now ≤ time →
    hit r id → R.index.valuesAt s' r id name time = (o.bind (R.field name)).toList
  values_missed : ∀ r id name time, R.Scope r → NulFree id → name ∈ R.fields → s.now ≤ time →
    ¬ hit r id → R.index.valuesAt s' r id name time = R.index.valuesAt s r id name time

theorem Kept.change {hit : String → String → Prop} {o : Option α} (h : R.Kept U s)
    (hc : R.Changed s s' hit o) (hplaced : ∀ a ∈ o, ∀ r id, hit r id → R.idOf a = id ∧ NulFree id)
    (hfree : ∀ a ∈ o, ∀ r id name v, hit r id → R.Scope r → U r name → name ∈ R.fields →
      R.field name a = some v → ¬ R.Taken s r id name v) : R.Kept U s' := by
  have hmissed : ∀ {r id a}, R.Scope r → ¬ hit r id → R.record s' r id s'.now = some a →
      R.record s r id s.now = some a := by
    intro r id a hr hmiss ha
    rw [hc.now, hc.record_missed r id s.now hr hmiss] at ha
    exact ha
  have hhit : ∀ {r id a}, R.Scope r → hit r id → R.record s' r id s'.now = some a → o = some a := by
    intro r id a hr hin ha
    rw [hc.record_hit r id _ hr hin] at ha
    exact ha
  refine ⟨hc.holds, hc.keyed, hc.regular, ?_, ?_, ?_, ?_⟩
  · intro r id a hr ha
    by_cases hin : hit r id
    · exact hplaced a (hhit hr hin ha) r id hin
    · exact h.placed r id a hr (hmissed hr hin ha)
  · intro r id time hr hle
    rw [hc.now] at hle ⊢
    by_cases hin : hit r id
    · rw [hc.record_hit r id time hr hin, hc.record_hit r id s.now hr hin]
    · rw [hc.record_missed r id time hr hin, hc.record_missed r id s.now hr hin]
      exact h.lasting r id time hr hle
  · intro r id name time hr hid hn hle
    rw [hc.now] at hle
    by_cases hin : hit r id
    · rw [hc.values_hit r id name time hr hid hn hle hin, hc.record_hit r id time hr hin]
    · rw [hc.values_missed r id name time hr hid hn hle hin, hc.record_missed r id time hr hin]
      exact h.values r id name time hr hid hn hle
  · intro r id name a v hr hu hn ha hv
    rintro ⟨id', a', hne, ha', hv'⟩
    by_cases hin : hit r id <;> by_cases hin' : hit r id'
    · -- One record at two places would have two ids.
      have hsome := hhit hr hin ha
      have hsame := hsome.symm.trans (hhit hr hin' ha')
      obtain rfl := Option.some.inj hsame
      have hid := (hplaced a hsome r id hin).1
      exact hne ((hplaced a hsome r id' hin').1.symm.trans hid)
    · exact hfree a (hhit hr hin ha) r id name v hin hr hu hn hv
        ⟨id', a', hne, hmissed hr hin' ha', hv'⟩
    · exact hfree a' (hhit hr hin' ha') r id' name v hin' hr hu hn hv'
        ⟨id, a, hne.symm, hmissed hr hin ha, hv⟩
    · exact h.unique r id name a v hr hu hn (hmissed hr hin ha) hv
        ⟨id', a', hne, hmissed hr hin' ha', hv'⟩

structure Moved (R : Registry α) (U : String → String → Prop) (s s' : RowStore) : Prop where
  kept : R.Kept U s'
  confined : R.Confined s s'

theorem Kept.moved (h : R.Kept U s) : R.Moved U s s := ⟨h, .refl R s⟩

end Registry

variable {β : Type}

/-- A call is refused exactly if a value that it asks for is taken, and the refusal names one. -/
def Answers (contested : UniqueKind → String → Prop) : Except StoreError β → Prop
  | .ok _ => ∀ kind value, ¬ contested kind value
  | .error e => ∃ kind value, e = .duplicateKey kind value ∧ contested kind value

theorem Answers.mono {contested contested' : UniqueKind → String → Prop} {result : Except StoreError β}
    (h : Answers contested result) (hforth : ∀ k v, contested k v → contested' k v)
    (hback : ∀ k v, contested' k v → ∃ k v, contested k v) : Answers contested' result := by
  cases result with
  | ok b =>
    intro k v hc
    obtain ⟨k', v', hc'⟩ := hback k v hc
    exact h k' v' hc'
  | error e =>
    obtain ⟨k, v, he, hc⟩ := h
    exact ⟨k, v, he, hforth k v hc⟩

end IdentityDirectory
