import IdentityDirectory.Proofs.Isolation.Accesses

/-!
What a computation may write. Every cell that it leaves changed has become what a rule on tables, keys
and contents admits, also where the computation fails. Main statements: `Update.Writes` for the single
accesses and for each operation on an attribute index, and the rules for `Work.Writes`.
-/

namespace IdentityDirectory

variable {α σ τ : Type} {admits : Int → Table → String → Option Cell → Prop}

namespace RowStore

variable {s s' s'' : RowStore} {t : Table} {key : String}

/-- Each cell is as before, or what is admitted at the time. -/
structure Wrote (admits : Int → Table → String → Option Cell → Prop) (s s' : RowStore) : Prop where
  now : s'.now = s.now
  cells : ∀ t key, (s'.table t).get? key = (s.table t).get? key ∨
    admits s.now t key ((s'.table t).get? key)

theorem Wrote.refl (s : RowStore) : Wrote admits s s := ⟨rfl, fun _ _ => .inl rfl⟩

theorem Wrote.trans (h : Wrote admits s s') (h' : Wrote admits s' s'') : Wrote admits s s'' where
  now := h'.now.trans h.now
  cells t key := by
    rcases h'.cells t key with hsame | hnew
    · rw [hsame]
      exact h.cells t key
    · exact .inr (h.now ▸ hnew)

theorem Wrote.mono {admits' : Int → Table → String → Option Cell → Prop} (h : Wrote admits s s')
    (hle : ∀ now t key cell, admits now t key cell → admits' now t key cell) : Wrote admits' s s' where
  now := h.now
  cells t key := (h.cells t key).imp_right (hle _ t key _)

structure OnlyIn (tables : List Table) (s s' : RowStore) : Prop where
  now : s'.now = s.now
  table : ∀ t, t ∉ tables → s'.table t = s.table t

theorem OnlyIn.refl (tables : List Table) (s : RowStore) : OnlyIn tables s s := ⟨rfl, fun _ _ => rfl⟩

theorem OnlyIn.trans {tables : List Table} (h : OnlyIn tables s s') (h' : OnlyIn tables s' s'') :
    OnlyIn tables s s'' where
  now := h'.now.trans h.now
  table t ht := (h'.table t ht).trans (h.table t ht)

theorem Wrote.onlyIn {tables : List Table} (h : Wrote admits s s')
    (htables : ∀ now t key cell, admits now t key cell → t ∈ tables) : OnlyIn tables s s' where
  now := h.now
  table t ht := by
    apply StringMap.ext_get?
    intro key
    exact (h.cells t key).resolve_right fun hnew => ht (htables _ _ _ _ hnew)

theorem Wrote.readable (hw : Wrote admits s s') (h : s.Readable t)
    (hadmits : ∀ key, ¬ admits s.now t key (some .unreadable)) : s'.Readable t := by
  intro key hcell
  rcases hw.cells t key with hsame | hnew
  · exact h key (hsame ▸ hcell)
  · exact hadmits key (hcell ▸ hnew)

theorem Wrote.rowAt_cases {row : Row} (hw : Wrote admits s s') (hrow : s'.rowAt t key = some row) :
    s.rowAt t key = some row ∨ admits s.now t key (some (.row row)) := by
  obtain ⟨cell, hcell, hread⟩ := Option.bind_eq_some_iff.mp hrow
  cases cell with
  | unreadable => cases hread
  | row r =>
    obtain rfl := Option.some.inj hread
    rcases hw.cells t key with hsame | hnew
    · exact .inl (by rw [rowAt, ← hsame, hcell]; rfl)
    · exact .inr (hcell ▸ hnew)

theorem Wrote.holds [Storable α] (hw : Wrote admits s s') (h : s.Holds α t)
    (hread : ∀ key, ¬ admits s.now t key (some .unreadable))
    (hrow : ∀ key row, admits s.now t key (some (.row row)) →
      ∃ a : α, row.payload = Storable.payload a) : s'.Holds α t where
  readable := hw.readable h.readable hread
  payloads key row hr := (hw.rowAt_cases hr).elim (h.payloads key row) (hrow key row)

theorem seen_of_get?_eq (h : (s'.table t).get? key = (s.table t).get? key) (time : Int) :
    s'.seen t key time = s.seen t key time := by
  rw [seen, seen, rowAt, rowAt, h]

theorem wrote_replaceRow {row : Row} (h : admits s.now t key (some (.row row)))
    (previous : Option Row) : Wrote admits s (s.replaceRow t key previous row) where
  now := rfl
  cells u key' := by
    rw [table_replaceRow]
    split
    · next hu =>
      rw [StringMap.get?_insert]
      split
      · next hk => exact .inr (hu ▸ hk ▸ h)
      · exact .inl (hu ▸ rfl)
    · exact .inl rfl

theorem wrote_removeRow (h : admits s.now t key none) (row : Row) :
    Wrote admits s (s.removeRow t key row) where
  now := rfl
  cells u key' := by
    rw [table_removeRow]
    split
    · next hu =>
      rw [StringMap.get?_erase]
      split
      · next hk => exact .inr (hu ▸ hk ▸ h)
      · exact .inl (hu ▸ rfl)
    · exact .inl rfl

theorem wrote_removeRows {rows : List (String × Row)} (h : ∀ e ∈ rows, admits s.now t e.1 none) :
    Wrote admits s (rows.foldl (fun s e => s.removeRow t e.1 e.2) s) := by
  induction rows generalizing s with
  | nil => exact .refl s
  | cons e rows ih =>
    have hfirst := wrote_removeRow (h e List.mem_cons_self) e.2
    exact hfirst.trans (ih fun f hf => h f (List.mem_cons_of_mem _ hf))

theorem lead_prefix_of_partitionRows {partition : String} {rows : List (String × Row)}
    (h : s.partitionRows t partition = .ok rows) :
    ∀ e ∈ rows, (RowKey.lead partition).toList <+: e.1.toList := by
  intro e he
  have hkey : e.1 ∈ rows.map (·.1) := List.mem_map.mpr ⟨e, he, rfl⟩
  rw [keys_rowsOf h, StringMap.startingWith_eq_filter] at hkey
  obtain ⟨entry, hentry, heq⟩ := List.mem_map.mp hkey
  rw [← heq]
  exact List.isPrefixOf_iff_prefix.mp (List.mem_filter.mp hentry).2

theorem lead_prefix_of_scanPartition {partition : String} {rows : List (RowKey × Row)}
    (h : s.scanPartition t partition = .ok rows) :
    ∀ e ∈ rows, (RowKey.lead partition).toList <+: e.1.encode.toList := by
  rw [scanPartition] at h
  cases hrows : s.partitionRows t partition with
  | error fault =>
    rw [hrows] at h
    cases h
  | ok found =>
    rw [hrows] at h
    obtain rfl := Except.ok.inj h
    intro e he
    obtain ⟨entry, hentry, hsome⟩ := List.mem_filterMap.mp he
    split at hsome
    · obtain ⟨key, hkey, rfl⟩ := Option.map_eq_some_iff.mp hsome
      rw [← (RowKey.eq_of_decode? hkey).1]
      exact lead_prefix_of_partitionRows hrows entry hentry
    · cases hsome

def within (tables : List Table) (_ : Int) (t : Table) (_ : String) (_ : Option Cell) : Prop :=
  t ∈ tables

theorem Wrote.onlyIn_within {tables : List Table} (h : Wrote (within tables) s s') :
    OnlyIn tables s s' :=
  h.onlyIn fun _ _ _ _ ht => ht

def Puts (admits : Int → Table → String → Option Cell → Prop) (now : Int) (t : Table) (key : String)
    (payload : Payload) (lifetime : Option Int) : Prop :=
  ∀ version, admits now t key (some (.row ⟨lifetime.map (Lifetime.deadline · now), version, payload⟩))

def Allows (admits : Int → Table → String → Option Cell → Prop) (t : Table) : Prop :=
  ∀ now key cell, cell ≠ some .unreadable → admits now t key cell

theorem allows_within {tables : List Table} (h : t ∈ tables) : Allows (within tables) t :=
  fun _ _ _ _ => h

theorem Allows.puts (h : Allows admits t) (now : Int) (key : String) (payload : Payload)
    (lifetime : Option Int) : Puts admits now t key payload lifetime :=
  fun _ => h now key _ nofun

theorem Allows.clears (h : Allows admits t) (now : Int) (key : String) : admits now t key none :=
  h now key none nofun

section Key

variable {key : RowKey} {payload : Payload} {lifetime : Option Int} {a : α}

theorem wrote_successor (h : Puts admits s.now t key.encode payload lifetime)
    (previous : Option Row) :
    Wrote admits s (s.replaceRow t key.encode previous (s.successor previous payload lifetime)) :=
  wrote_replaceRow (h _) previous

theorem wrote_put {version : Nat} (h : Puts admits s.now t key.encode payload lifetime)
    (hput : s.put t key payload lifetime = .ok (version, s')) : Wrote admits s s' := by
  rw [put] at hput
  cases hrow : s.row? t key.encode with
  | error fault =>
    rw [hrow] at hput
    cases hput
  | ok previous =>
    rw [hrow] at hput
    obtain ⟨-, rfl⟩ := Prod.mk.inj (Except.ok.inj hput)
    exact wrote_successor h previous

theorem wrote_take {found : Option Row} (h : admits s.now t key.encode none)
    (htake : s.take t key = .ok (found, s')) : Wrote admits s s' := by
  rw [take] at htake
  cases hrow : s.row? t key.encode with
  | error fault =>
    rw [hrow] at htake
    cases htake
  | ok previous =>
    rw [hrow] at htake
    cases previous with
    | none =>
      obtain ⟨-, rfl⟩ := Prod.mk.inj (Except.ok.inj htake)
      exact .refl s
    | some row =>
      obtain ⟨-, rfl⟩ := Prod.mk.inj (Except.ok.inj htake)
      exact wrote_removeRow h row

theorem wrote_delete {found : Bool} (h : admits s.now t key.encode none)
    (hdelete : s.delete t key = .ok (found, s')) : Wrote admits s s' := by
  rw [delete] at hdelete
  cases htake : s.take t key with
  | error fault =>
    rw [htake] at hdelete
    cases hdelete
  | ok result =>
    rw [htake] at hdelete
    obtain ⟨-, rfl⟩ := Prod.mk.inj (Except.ok.inj hdelete)
    exact wrote_take h htake

theorem wrote_putIfVersion {expected : Option Nat} {outcome : ConditionalWrite}
    (h : Puts admits s.now t key.encode payload lifetime)
    (hput : s.putIfVersion t key payload expected lifetime = .ok (outcome, s')) :
    Wrote admits s s' := by
  rw [putIfVersion] at hput
  cases hrow : s.row? t key.encode with
  | error fault =>
    rw [hrow] at hput
    cases hput
  | ok previous =>
    rw [hrow] at hput
    simp only [bind, Except.bind] at hput
    split at hput
    · obtain ⟨-, rfl⟩ := Prod.mk.inj (Except.ok.inj hput)
      exact wrote_successor h previous
    · obtain ⟨-, rfl⟩ := Prod.mk.inj (Except.ok.inj hput)
      exact .refl s

theorem wrote_putIfPartitionVacant {done : Bool}
    (h : Puts admits s.now t key.encode payload lifetime)
    (hput : s.putIfPartitionVacant t key payload lifetime = .ok (done, s')) :
    Wrote admits s s' := by
  rw [putIfPartitionVacant] at hput
  cases hrows : s.partitionRows t key.partition with
  | error fault =>
    rw [hrows] at hput
    cases hput
  | ok rows =>
    rw [hrows] at hput
    simp only [bind, Except.bind] at hput
    split at hput
    · obtain ⟨-, rfl⟩ := Prod.mk.inj (Except.ok.inj hput)
      exact .refl s
    · obtain ⟨-, rfl⟩ := Prod.mk.inj (Except.ok.inj hput)
      exact wrote_successor h _

end Key

theorem wrote_deletePartition {partition : String} {n : Nat}
    (h : ∀ key : String, (RowKey.lead partition).toList <+: key.toList → admits s.now t key none)
    (hdelete : s.deletePartition t partition = .ok (n, s')) : Wrote admits s s' := by
  rw [deletePartition] at hdelete
  cases hrows : s.partitionRows t partition with
  | error fault =>
    rw [hrows] at hdelete
    cases hdelete
  | ok rows =>
    rw [hrows] at hdelete
    obtain ⟨-, rfl⟩ := Prod.mk.inj (Except.ok.inj hdelete)
    exact wrote_removeRows fun e he => h e.1 (lead_prefix_of_partitionRows hrows e he)

end RowStore

def Boundary.writing (admits : Int → Table → String → Option Cell → Prop) : Boundary RowStore where
  shared := Eq
  spared := RowStore.Wrote admits
  refl := .refl
  trans := .trans

abbrev Update.Writes (admits : Int → Table → String → Option Cell → Prop) (u : Update α) : Prop :=
  (Boundary.writing admits).Isolates u

namespace Update

variable {t : Table} {key : RowKey} {lifetime : Option Int}

theorem Writes.wrote {u : Update α} (h : Writes admits u) (s : RowStore) :
    RowStore.Wrote admits s (u s).2 :=
  (h s s rfl).2.2

theorem writes_of_wrote {u : Update α} (h : ∀ s, RowStore.Wrote admits s (u s).2) :
    Writes admits u := by
  rintro s _ rfl
  exact ⟨rfl, rfl, h s⟩

theorem wrote_bind {β : Type} {u : Update α} {f : α → Update β} {s : RowStore}
    (h : RowStore.Wrote admits s (u s).2)
    (hf : ∀ a s', u s = (.ok a, s') → RowStore.Wrote admits s' (f a s').2) :
    RowStore.Wrote admits s ((u >>= f) s).2 := by
  cases hu : u s with
  | mk result s' =>
    rw [hu] at h
    cases result with
    | ok a =>
      rw [bind_of_ok hu]
      exact h.trans (hf a s' hu)
    | error e =>
      rw [bind_of_error hu]
      exact h

theorem writes_query (q : Query α) : Writes admits (liftM q) :=
  writes_of_wrote fun s => .refl s

theorem writes_ofRows {f : RowStore → Except StorageFault (α × RowStore)}
    (h : ∀ s a s', f s = .ok (a, s') → RowStore.Wrote admits s s') : Writes admits (.ofRows f) := by
  apply writes_of_wrote
  intro s
  rw [ofRows]
  split
  · next a s' heq => exact h s a s' heq
  · exact .refl s

section

variable [Storable α] {a : α}

theorem writes_put (h : ∀ now, RowStore.Puts admits now t key.encode (Storable.payload a) lifetime) :
    Writes admits (Update.put t key a lifetime) :=
  writes_ofRows fun s _ _ => RowStore.wrote_put (h s.now)

theorem writes_putExpirable [Expirable α]
    (h : ∀ now, RowStore.Puts admits now t key.encode (Storable.payload a) (Lifetime.of a now)) :
    Writes admits (Update.putExpirable t key a) := by
  apply writes_of_wrote
  intro s
  have hput : RowStore.Wrote admits s (Update.put t key a (Lifetime.of a s.now) s).2 := by
    rw [Update.put, ofRows]
    split
    · next version s' heq => exact RowStore.wrote_put (h s.now) heq
    · exact .refl s
  rw [putExpirable, bind_liftM_of_ok (Query.now_apply s)]
  cases hresult : Update.put t key a (Lifetime.of a s.now) s with
  | mk result s' =>
    rw [hresult] at hput
    cases result with
    | ok version =>
      rw [bind_of_ok hresult]
      exact hput
    | error e =>
      rw [bind_of_error hresult]
      exact hput

theorem writes_putIfVersion {expected : Option Nat}
    (h : ∀ now, RowStore.Puts admits now t key.encode (Storable.payload a) none) :
    Writes admits (Update.putIfVersion t key a expected) :=
  writes_ofRows fun s _ _ => RowStore.wrote_putIfVersion (h s.now)

theorem writes_putIfAbsent
    (h : ∀ now, RowStore.Puts admits now t key.encode (Storable.payload a) lifetime) :
    Writes admits (Update.putIfAbsent t key a lifetime) := by
  apply writes_ofRows
  intro s done s' hput
  rw [RowStore.putIfAbsent] at hput
  cases hresult : s.putIfVersion t key (Storable.payload a) none lifetime with
  | error fault =>
    rw [hresult] at hput
    cases hput
  | ok result =>
    rw [hresult] at hput
    obtain ⟨-, rfl⟩ := Prod.mk.inj (Except.ok.inj hput)
    exact RowStore.wrote_putIfVersion (h s.now) hresult

end

theorem writes_take (h : ∀ now, admits now t key.encode none) : Writes admits (Update.take t key) :=
  writes_ofRows fun s _ _ => RowStore.wrote_take (h s.now)

theorem writes_delete (h : ∀ now, admits now t key.encode none) :
    Writes admits (Update.delete t key) :=
  writes_ofRows fun s _ _ => RowStore.wrote_delete (h s.now)

theorem writes_deletePartition {partition : String}
    (h : ∀ now (key : String), (RowKey.lead partition).toList <+: key.toList →
      admits now t key none) : Writes admits (Update.deletePartition t partition) :=
  writes_ofRows fun s _ _ => RowStore.wrote_deletePartition (h s.now)

end Update

def Boundary.writingAt (admits : Int → Table → String → Option Cell → Prop) : Boundary (Desk σ) where
  shared := Eq
  spared d d' := RowStore.Wrote admits d.rows d'.rows
  refl d := .refl d.rows
  trans := .trans

abbrev Work.Writes (admits : Int → Table → String → Option Cell → Prop) (work : Work σ α) : Prop :=
  (Boundary.writingAt admits).Isolates work

namespace Work

theorem Writes.wrote {work : Work σ α} (h : Writes admits work) (d : Desk σ) :
    RowStore.Wrote admits d.rows (work d).2.rows :=
  (h d d rfl).2.2

theorem writes_of_wrote {work : Work σ α} (h : ∀ d, RowStore.Wrote admits d.rows (work d).2.rows) :
    Writes admits work := by
  rintro d _ rfl
  exact ⟨rfl, rfl, h d⟩

theorem Writes.mono {admits' : Int → Table → String → Option Cell → Prop} {work : Work σ α}
    (h : Writes admits work)
    (hle : ∀ now t key cell, admits now t key cell → admits' now t key cell) :
    Writes admits' work :=
  writes_of_wrote fun d => (h.wrote d).mono hle

theorem writes_of_rows {work : Work σ α} (h : ∀ d, (work d).2.rows = d.rows) : Writes admits work :=
  writes_of_wrote fun d => (h d).symm ▸ .refl d.rows

theorem writes_query (q : Query α) : Writes admits (liftM q : Work σ α) := writes_of_rows fun _ => rfl

theorem writes_update {u : Update α} (h : Update.Writes admits u) :
    Writes admits (liftM u : Work σ α) :=
  writes_of_wrote fun d => h.wrote d.rows

theorem writes_held : Writes admits (held : Work σ σ) := writes_of_rows fun _ => rfl

theorem writes_modifyHeld (f : σ → σ) : Writes admits (modifyHeld f) := writes_of_rows fun _ => rfl

theorem writes_newId : Writes admits (newId : Work σ String) := writes_of_rows fun _ => rfl

theorem writes_withNewId {f : String → Work σ α} (h : ∀ id, Writes admits (f id)) :
    Writes admits (withNewId f) := by
  refine .bind (writes_of_rows fun _ => rfl) fun id => .bind (h id) fun a => ?_
  exact .bind writes_newId fun _ => .pure a

theorem writes_cached {κ ν : Type} [BEq κ] (part : Part σ (QueryCache κ ν)) (key : κ)
    (load : Query ν) : Writes admits (cached part key load) := writes_of_rows fun _ => rfl

theorem Writes.on {work : Work τ α} (h : Writes admits work) (part : Part σ τ) :
    Writes admits (Work.on part work) :=
  writes_of_wrote fun d => h.wrote { d with held := part.get d.held }

end Work

def Boundary.heldIndependent (admits : Int → Table → String → Option Cell → Prop) :
    Boundary (Desk σ) where
  shared d d' := d.rows = d'.rows ∧ d.draws = d'.draws
  spared d d' := RowStore.Wrote admits d.rows d'.rows
  refl d := .refl d.rows
  trans := .trans

/-- Work that goes by the rows alone, whatever is held, and writes only what is admitted. -/
abbrev Work.HeldIndependent (admits : Int → Table → String → Option Cell → Prop)
    (work : Work σ α) : Prop :=
  (Boundary.heldIndependent admits).Isolates work

namespace Work.HeldIndependent

theorem query (q : Query α) : HeldIndependent admits (liftM q : Work σ α) :=
  fun d _ hd => ⟨congrArg q hd.1, hd, .refl d.rows⟩

theorem update {u : Update α} (h : Update.Writes admits u) :
    HeldIndependent admits (liftM u : Work σ α) := by
  rintro d d' ⟨hrows, hdraws⟩
  exact ⟨congrArg (fun s => (u s).1) hrows, ⟨congrArg (fun s => (u s).2) hrows, hdraws⟩,
    h.wrote d.rows⟩

theorem modifyHeld (f : σ → σ) : HeldIndependent admits (Work.modifyHeld f) :=
  fun d _ hd => ⟨rfl, hd, .refl d.rows⟩

theorem writes {work : Work σ α} (h : HeldIndependent admits work) : Writes admits work :=
  writes_of_wrote fun d => (h d d ⟨rfl, rfl⟩).2.2

end Work.HeldIndependent

namespace AttributeIndex

def Scoped (scope key : String) : Prop := scope.toList ++ ['\x1f'] <+: key.toList

theorem scoped_of_entity {scope entity key : String}
    (h : (RowKey.lead (entityPartition scope entity)).toList <+: key.toList) : Scoped scope key := by
  refine List.IsPrefix.trans ?_ h
  rw [RowKey.toList_lead, entityPartition, RowKey.toList_composite_two]
  exact ⟨entity.toList ++ [RowKey.partitionEnd], by simp⟩

theorem scoped_of_value {scope name value key : String}
    (h : (RowKey.lead (valuePartition scope name value)).toList <+: key.toList) :
    Scoped scope key := by
  refine List.IsPrefix.trans ?_ h
  rw [RowKey.toList_lead, valuePartition, RowKey.toList_composite_three]
  exact ⟨name.toList ++ '\x1f' :: value.toList ++ [RowKey.partitionEnd], by simp⟩

theorem scoped_forwardKey (scope entity name : String) :
    Scoped scope (forwardKey scope entity name).encode :=
  scoped_of_entity (RowKey.lead_prefix_iff.mpr ⟨name, rfl⟩)

theorem scoped_reverseKey (scope entity name value : String) :
    Scoped scope (reverseKey scope entity name value).encode :=
  scoped_of_value (RowKey.lead_prefix_iff.mpr ⟨entity, rfl⟩)

structure Clearable (ix : AttributeIndex) (admits : Int → Table → String → Option Cell → Prop)
    (scope entity : String) : Prop where
  forward : ∀ now key, (RowKey.lead (entityPartition scope entity)).toList <+: key.toList →
    admits now ix.forward key none
  reverse : ∀ now name value, admits now ix.reverse (reverseKey scope entity name value).encode none

theorem writes_withdraw {ix : AttributeIndex} {scope entity name : String}
    (h : ∀ value now, admits now ix.reverse (reverseKey scope entity name value).encode none)
    (values : List String) : Update.Writes admits (ix.withdraw scope entity name values) :=
  .forM fun v _ => .discard (Update.writes_delete (h v))

theorem writes_removeAttributesOf {ix : AttributeIndex} {scope entity : String}
    (h : ix.Clearable admits scope entity) :
    Update.Writes admits (ix.removeAttributesOf scope entity) := by
  refine .bind (Update.writes_query _) fun attributes => ?_
  refine .bind (.forM fun e _ => writes_withdraw (fun v now => h.reverse now e.1 v) e.2) fun _ => ?_
  exact .bind (Update.writes_deletePartition h.forward) fun _ => .pure _

theorem writes_removeEach {ix : AttributeIndex} {scope : String}
    (h : ∀ entity, ix.Clearable admits scope entity) {β : Type} (l : List β) (f : β → String) :
    Update.Writes admits (l.forM fun a => discard (ix.removeAttributesOf scope (f a))) :=
  .forM fun a _ => .discard (writes_removeAttributesOf (h (f a)))

structure Grants (ix : AttributeIndex) (admits : Int → Table → String → Option Cell → Prop)
    (scope name value : String) (lifetime : Option Int) : Prop where
  removed : ∀ now key, (RowKey.lead (valuePartition scope name value)).toList <+: key.toList →
    admits now ix.reverse key none
  written : ∀ now key payload,
    (RowKey.lead (valuePartition scope name value)).toList <+: key.toList →
      RowStore.Puts admits now ix.reverse key payload lifetime

/-- The forward row of an attribute of an entity may be removed, and written with one lifetime; so may
the reverse rows of the attribute, also those that name other entities. -/
structure Owns (ix : AttributeIndex) (admits : Int → Table → String → Option Cell → Prop)
    (scope entity name : String) (lifetime : Option Int) : Prop where
  removed : ∀ now, admits now ix.forward (forwardKey scope entity name).encode none
  written : ∀ now (values : List String), RowStore.Puts admits now ix.forward
    (forwardKey scope entity name).encode (Storable.payload values) lifetime
  grants : ∀ value, ix.Grants admits scope name value lifetime

structure Open (ix : AttributeIndex) (admits : Int → Table → String → Option Cell → Prop)
    (scope : String) (lifetime : Option Int) : Prop where
  cleared : ∀ now t key, t = ix.forward ∨ t = ix.reverse → Scoped scope key → admits now t key none
  written : ∀ now t key payload, t = ix.forward ∨ t = ix.reverse → Scoped scope key →
    RowStore.Puts admits now t key payload lifetime

section Open

variable {ix : AttributeIndex} {scope : String} {lifetime : Option Int}
  (h : ix.Open admits scope lifetime) (entity name : String)
include h

theorem Open.clearable : ix.Clearable admits scope entity where
  forward now key hkey := h.cleared now _ key (.inl rfl) (scoped_of_entity hkey)
  reverse now name value :=
    h.cleared now _ _ (.inr rfl) (scoped_reverseKey scope entity name value)

omit entity in
theorem Open.grants (value : String) : ix.Grants admits scope name value lifetime where
  removed now _ hkey := h.cleared now _ _ (.inr rfl) (scoped_of_value hkey)
  written now _ _ hkey := h.written now _ _ _ (.inr rfl) (scoped_of_value hkey)

theorem Open.owns : ix.Owns admits scope entity name lifetime where
  removed now := h.cleared now _ _ (.inl rfl) (scoped_forwardKey scope entity name)
  written now _ := h.written now _ _ _ (.inl rfl) (scoped_forwardKey scope entity name)
  grants := h.grants name

end Open

variable {ix : AttributeIndex} {scope entity name value : String} {lifetime : Option Int}

section Grants

variable (h : ix.Grants admits scope name value lifetime)
include h

theorem Grants.admits_none (entity : String) (now : Int) :
    admits now ix.reverse (reverseKey scope entity name value).encode none :=
  h.removed now _ (RowKey.lead_prefix_iff.mpr ⟨entity, rfl⟩)

theorem writes_releaseClaim (entity : String) :
    Update.Writes admits (ix.releaseClaim scope entity name value) :=
  Update.writes_delete (h.admits_none entity)

theorem writes_dropStaleClaims (entity : String) (holds : String → Query Bool) :
    Update.Writes admits (ix.dropStaleClaims scope entity name value holds) := by
  refine Boundary.Isolates.bind_of (Update.writes_query _) fun s _ claims _ _ hclaims => ?_
  refine Boundary.Isolates.bind_of (Update.writes_query _) fun s' _ found _ _ hfound => ?_
  cases found with
  | none => exact .pure false
  | some stale =>
    refine .bind (.forM fun key hkey => .discard ?_) fun _ => .pure true
    obtain ⟨row, hmem⟩ := mem_of_staleClaims entity (Prod.mk.inj hfound).1 key hkey
    apply Update.writes_delete
    intro now
    have hscan : Query.scanPartition ix.reverse (valuePartition scope name value) s = .ok claims :=
      (Prod.mk.inj hclaims).1
    rw [Query.scanPartition, Query.ofRows] at hscan
    cases hrows : s.scanPartition ix.reverse (valuePartition scope name value) with
    | error fault =>
      rw [hrows] at hscan
      cases hscan
    | ok rows =>
      rw [hrows] at hscan
      obtain rfl := Except.ok.inj hscan
      exact h.removed now _ (RowStore.lead_prefix_of_scanPartition hrows (key, row) hmem)

theorem writes_tryClaim (entity : String) :
    Update.Writes admits (ix.tryClaim scope entity name value lifetime) := by
  refine .bind (Update.writes_query _) fun now => Update.writes_ofRows fun s done s' hput => ?_
  apply RowStore.wrote_putIfPartitionVacant _ hput
  exact h.written s.now _ _ (RowKey.lead_prefix_iff.mpr ⟨entity, rfl⟩)

theorem writes_claimUnique (entity : String) (kind : UniqueKind) (holds : String → Query Bool) :
    Update.Writes admits (ix.claimUnique scope entity name kind value lifetime holds) := by
  refine .bind (writes_tryClaim h entity) fun claimed => ?_
  split
  · exact .pure ()
  · refine .bind (writes_dropStaleClaims h entity holds) fun dropped => ?_
    split
    · refine .bind (writes_tryClaim h entity) fun claimed => ?_
      split
      · exact .pure ()
      · exact .throw _
    · exact .throw _

end Grants

section Owns

variable (h : ix.Owns admits scope entity name lifetime)
include h

theorem Owns.writes_withdraw (values : List String) :
    Update.Writes admits (ix.withdraw scope entity name values) :=
  AttributeIndex.writes_withdraw (fun v => (h.grants v).admits_none entity) values

theorem Owns.writes_removeAttribute :
    Update.Writes admits (ix.removeAttribute scope entity name) := by
  refine .bind (Update.writes_query _) fun previous => ?_
  refine .bind (Update.writes_delete h.removed) fun removed => ?_
  exact .bind (h.writes_withdraw previous) fun _ => .pure _

theorem writes_putForward (values : List String) :
    Update.Writes admits (ix.putForward scope entity name values lifetime) :=
  .discard (Update.writes_put fun now => h.written now values)

theorem writes_setAttribute (values : List String) :
    Update.Writes admits (ix.setAttribute scope entity name values lifetime) := by
  rw [setAttribute]
  split
  · exact .discard h.writes_removeAttribute
  · refine .bind (Update.writes_query _) fun previous => ?_
    refine .bind (writes_putForward h _) fun _ => ?_
    refine .bind (h.writes_withdraw _) fun _ => .forM fun v _ => .discard ?_
    apply Update.writes_ofRows
    intro s version s' hput
    apply RowStore.wrote_put _ hput
    exact (h.grants v).written s.now _ _ (RowKey.lead_prefix_iff.mpr ⟨entity, rfl⟩)

theorem writes_commitUnique (value : Option String) :
    Update.Writes admits (ix.commitUnique scope entity name value lifetime) := by
  cases value with
  | none => exact .discard h.writes_removeAttribute
  | some v =>
    refine .bind (Update.writes_query _) fun previous => ?_
    refine .bind (writes_putForward h [v]) fun _ => ?_
    exact h.writes_withdraw _

end Owns

end AttributeIndex

end IdentityDirectory
