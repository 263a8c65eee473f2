import IdentityDirectory.Proofs.Index.Retraction
import IdentityDirectory.Proofs.Isolation.Accesses

/-!
Computations that depend on a region of the cells only. Run on two stores that agree there they give
one result and leave the stores agreeing there, whatever else the stores hold. Main statements:
`Update.Repeats` for the single accesses and for the operations on one attribute of an entity.
-/

namespace IdentityDirectory

variable {α β : Type} {C : Table → String → Prop}

namespace RowStore

variable {s s' s₁ s₁' : RowStore} {t : Table}

structure AgreeOn (C : Table → String → Prop) (s s' : RowStore) : Prop where
  now : s.now = s'.now
  cells : ∀ t key, C t key → (s.table t).get? key = (s'.table t).get? key

theorem AgreeOn.symm (h : AgreeOn C s s') : AgreeOn C s' s :=
  ⟨h.now.symm, fun t key hc => (h.cells t key hc).symm⟩

theorem AgreeOn.trans (h : AgreeOn C s s') (h' : AgreeOn C s' s₁) : AgreeOn C s s₁ :=
  ⟨h.now.trans h'.now, fun t key hc => (h.cells t key hc).trans (h'.cells t key hc)⟩

theorem Wrote.agreeOn {admits : Int → Table → String → Option Cell → Prop} (hw : Wrote admits s s')
    (hadmits : ∀ now t key cell, admits now t key cell → ¬ C t key) : AgreeOn C s s' where
  now := hw.now.symm
  cells t key hc := ((hw.cells t key).resolve_right fun h => hadmits _ _ _ _ h hc).symm

theorem AgreeOn.replaceRow (h : AgreeOn C s s') (t : Table) (key : String) (previous : Option Row)
    (row : Row) : AgreeOn C (s.replaceRow t key previous row) (s'.replaceRow t key previous row) where
  now := h.now
  cells u key' hc := by
    rw [table_replaceRow, table_replaceRow]
    split
    · next hu =>
      rw [StringMap.get?_insert, StringMap.get?_insert, h.cells t key' (hu ▸ hc)]
    · exact h.cells u key' hc

theorem AgreeOn.removeRow (h : AgreeOn C s s') (t : Table) (key : String) (row : Row) :
    AgreeOn C (s.removeRow t key row) (s'.removeRow t key row) where
  now := h.now
  cells u key' hc := by
    rw [table_removeRow, table_removeRow]
    split
    · next hu =>
      rw [StringMap.get?_erase, StringMap.get?_erase, h.cells t key' (hu ▸ hc)]
    · exact h.cells u key' hc

theorem AgreeOn.write (h : AgreeOn C s s') (t : Table) (key : String) (previous : Option Row)
    (payload : Payload) (lifetime : Option Int) :
    AgreeOn C (s.replaceRow t key previous (s.successor previous payload lifetime))
      (s'.replaceRow t key previous (s'.successor previous payload lifetime)) := by
  have hsuccessor : s.successor previous payload lifetime = s'.successor previous payload lifetime := by
    simp only [successor, h.now]
  rw [hsuccessor]
  exact h.replaceRow t key previous _

theorem AgreeOn.rowAt (h : AgreeOn C s s') {key : String} (hc : C t key) :
    s.rowAt t key = s'.rowAt t key := by
  rw [RowStore.rowAt, RowStore.rowAt, h.cells t key hc]

theorem AgreeOn.remove (h : AgreeOn C s s') (t : Table) (key : String) :
    AgreeOn C (s.remove t key) (s'.remove t key) := by
  have hother {s : RowStore} {u : Table} {key' : String} (hne : ¬ (u = t ∧ key' = key)) :
      ((s.remove t key).table u).get? key' = (s.table u).get? key' := by
    rw [RowStore.remove]
    split
    · rfl
    · rw [table_removeRow]
      split
      · next hu =>
        subst hu
        rw [StringMap.get?_erase, if_neg fun hkey => hne ⟨rfl, hkey⟩]
      · rfl
  refine ⟨by simpa using h.now, fun u key' hc => ?_⟩
  by_cases hsame : u = t ∧ key' = key
  · obtain ⟨rfl, rfl⟩ := hsame
    rw [RowStore.remove, RowStore.remove, h.rowAt hc]
    split
    · exact h.cells u key' hc
    · exact (h.removeRow u key' _).cells u key' hc
  · rw [hother hsame, hother hsame]
    exact h.cells u key' hc

theorem AgreeOn.removePartition (h : AgreeOn C s s') (t : Table) (partition : String) :
    AgreeOn C (s.removePartition t partition) (s'.removePartition t partition) where
  now := by
    rw [now_removePartition, now_removePartition]
    exact h.now
  cells u key hc := by
    have hmem : u = t ∧ key ∈ (s.inPartition t partition).map (·.1) ↔
        u = t ∧ key ∈ (s'.inPartition t partition).map (·.1) := by
      refine and_congr_right fun hu => ?_
      subst hu
      simp only [List.mem_map, Prod.exists, mem_inPartition_iff, h.rowAt hc, exists_and_right,
        exists_eq_right]
    rw [get?_removePartition, get?_removePartition, h.cells u key hc]
    simp only [hmem]

end RowStore

open RowStore (AgreeOn)

def Query.Depends (C : Table → String → Prop) (q : Query α) : Prop :=
  ∀ s s', AgreeOn C s s' → q s = q s'

namespace Query.Depends

variable {q : Query α} {f : α → Query β} {t : Table} {key : RowKey} {partition : String}

theorem pure (a : α) : Depends C (Pure.pure a : Query α) := fun _ _ _ => rfl

theorem now : Depends C Query.now := fun _ _ h => congrArg Except.ok h.now

theorem bind (h : Depends C q) (hf : ∀ a, Depends C (f a)) : Depends C (q >>= f) := by
  intro s s' hs
  exact (Query.bind_congr (h s s' hs) fun a _ => hf a s s' hs)

theorem mapM {f : α → Query β} {l : List α} (h : ∀ a ∈ l, Depends C (f a)) :
    Depends C (l.mapM f) := by
  induction l with
  | nil => exact .pure []
  | cons a l ih =>
    rw [List.mapM_cons]
    have hrest := ih fun b hb => h b (List.mem_cons_of_mem _ hb)
    exact (h a List.mem_cons_self).bind fun _ => hrest.bind fun _ => .pure _

theorem ofRows {f : RowStore → Except StorageFault α} (h : ∀ s s', AgreeOn C s s' → f s = f s') :
    Depends C (Query.ofRows f) := by
  intro s s' hs
  rw [Query.ofRows, Query.ofRows, h s s' hs]

theorem record [Storable α] (hc : C t key.encode) :
    Depends C (Query.record t key : Query (Option α)) := by
  refine .ofRows fun s s' h => ?_
  rw [RowStore.get_congr h.now (h.cells t _ hc)]

theorem scanPartition (hc : ∀ key : String, (RowKey.lead partition).toList <+: key.toList → C t key) :
    Depends C (Query.scanPartition t partition) :=
  .ofRows fun _ _ h => RowStore.scanPartition_congr (fun key hkey => h.cells t key (hc key hkey)) h.now

theorem records [Storable α]
    (hc : ∀ key : String, (RowKey.lead partition).toList <+: key.toList → C t key) :
    Depends C (Query.records α t partition) := by
  refine .ofRows fun s s' h => ?_
  rw [RowStore.scanPartition_congr (fun key hkey => h.cells t key (hc key hkey)) h.now]

end Query.Depends

theorem Query.lead_prefix_of_scanPartition {t : Table} {partition : String} {s : RowStore}
    {rows : List (RowKey × Row)} (h : Query.scanPartition t partition s = .ok rows) :
    ∀ e ∈ rows, (RowKey.lead partition).toList <+: e.1.encode.toList := by
  rw [Query.scanPartition, Query.ofRows] at h
  cases hscan : s.scanPartition t partition with
  | error fault =>
    rw [hscan] at h
    cases h
  | ok found =>
    rw [hscan] at h
    obtain rfl := Except.ok.inj h
    exact RowStore.lead_prefix_of_scanPartition hscan

def Boundary.region (C : Table → String → Prop) : Boundary RowStore where
  shared := AgreeOn C
  spared _ _ := True
  refl _ := trivial
  trans _ _ := trivial

/-- An update that gives one result on all stores that agree on a region, and leaves them agreeing. -/
abbrev Update.Repeats (C : Table → String → Prop) (u : Update α) : Prop :=
  (Boundary.region C).Isolates u

theorem Query.Depends.update {q : Query α} (h : Query.Depends C q) : Update.Repeats C (liftM q) :=
  fun s s' hs => ⟨h s s' hs, hs, trivial⟩

namespace Update

open RowStore (row?_congr partitionRows_congr)

variable {t : Table} {key : RowKey} {partition : String} {lifetime : Option Int}

theorem Repeats.bind_query {q : Query α} {f : α → Update β} (h : Query.Depends C q)
    (hf : ∀ a s, q s = .ok a → Repeats C (f a)) : Repeats C (liftM q >>= f) := by
  refine Boundary.Isolates.bind_of h.update fun s _ a s₁ _ heq => ?_
  exact hf a s (Prod.mk.inj heq).1

theorem repeats_ofRows {f : RowStore → Except StorageFault (α × RowStore)}
    {read : RowStore → Except StorageFault β} (act : β → RowStore → α × RowStore)
    (hf : ∀ s, f s = (act · s) <$> read s) (hread : ∀ s s', AgreeOn C s s' → read s = read s')
    (hact : ∀ b s s', AgreeOn C s s' →
      (act b s).1 = (act b s').1 ∧ AgreeOn C (act b s).2 (act b s').2) :
    Repeats C (Update.ofRows f) := by
  intro s s' hs
  simp only [Update.ofRows, hf, hread s s' hs]
  cases read s' with
  | error fault => exact ⟨rfl, hs, trivial⟩
  | ok b =>
    obtain ⟨hresult, hrows⟩ := hact b s s' hs
    exact ⟨congrArg Except.ok hresult, hrows, trivial⟩

theorem repeats_put (hc : C t key.encode) (payload : Payload) :
    Repeats C (Update.ofRows (·.put t key payload lifetime)) :=
  repeats_ofRows
    (fun previous s =>
      let row := s.successor previous payload lifetime
      (row.version, s.replaceRow t key.encode previous row))
    (fun _ => rfl) (fun _ _ h => row?_congr (h.cells t _ hc))
    fun previous _ _ h => ⟨by cases previous <;> rfl, h.write t _ _ _ _⟩

theorem repeats_delete (hc : C t key.encode) : Repeats C (Update.delete t key) := by
  refine repeats_ofRows
    (fun previous s => previous.elim (false, s) fun row =>
      (((some row).filter (·.isLive s.now)).isSome, s.removeRow t key.encode row))
    (fun s => ?_) (fun _ _ h => row?_congr (h.cells t _ hc)) fun previous s s' h => ?_
  · rw [RowStore.delete, RowStore.take]
    cases s.row? t key.encode with
    | error fault => rfl
    | ok previous => cases previous <;> rfl
  · cases previous with
    | none => exact ⟨rfl, h⟩
    | some row => exact ⟨by simp only [Option.elim_some, h.now], h.removeRow t _ row⟩

theorem repeats_putIfPartitionVacant (payload : Payload)
    (hc : ∀ encoded : String, (RowKey.lead key.partition).toList <+: encoded.toList → C t encoded) :
    Repeats C (Update.ofRows (·.putIfPartitionVacant t key payload lifetime)) := by
  refine repeats_ofRows
    (fun rows s => if rows.any fun e => e.1 ≠ key.encode && e.2.isLive s.now then (false, s)
      else (true, s.replaceRow t key.encode (rows.lookup key.encode)
        (s.successor (rows.lookup key.encode) payload lifetime)))
    (fun s => ?_) (fun _ _ h => partitionRows_congr fun encoded hlead => h.cells t _ (hc _ hlead))
    fun rows s s' h => ?_
  · rw [RowStore.putIfPartitionVacant]
    cases s.partitionRows t key.partition with
    | error fault => rfl
    | ok rows =>
      simp only [bind, Except.bind, Functor.map, Except.map]
      split <;> rfl
  · simp only [h.now]
    split
    · exact ⟨rfl, h⟩
    · exact ⟨rfl, h.write t _ _ _ _⟩

end Update

namespace AttributeIndex

def Listed (C : Table → String → Prop) (ix : AttributeIndex) (scope name : String) : Prop :=
  ∀ value (key : String), (RowKey.lead (valuePartition scope name value)).toList <+: key.toList →
    C ix.reverse key

structure InRegion (C : Table → String → Prop) (ix : AttributeIndex) (scope entity name : String) :
    Prop where
  forward : C ix.forward (forwardKey scope entity name).encode
  reverse : ix.Listed C scope name

variable {ix : AttributeIndex} {scope entity name : String} {lifetime : Option Int}

theorem Listed.reverseKey (h : ix.Listed C scope name) (entity value : String) :
    C ix.reverse (reverseKey scope entity name value).encode :=
  h value _ (RowKey.lead_prefix_iff.mpr ⟨entity, rfl⟩)

section Listed

variable (h : ix.Listed C scope name)
include h

theorem depends_findBy (value : String) : Query.Depends C (ix.findBy scope name value) :=
  (Query.Depends.scanPartition (h value)).bind fun _ => .pure _

theorem depends_findUnique (value : String) : Query.Depends C (ix.findUnique scope name value) := by
  refine (depends_findBy h value).bind fun owners => ?_
  split
  · exact .pure none
  · exact .pure _
  · exact fun _ _ _ => rfl

theorem repeats_withdraw (entity : String) (values : List String) :
    Update.Repeats C (ix.withdraw scope entity name values) :=
  .forM fun v _ => .discard (Update.repeats_delete (h.reverseKey entity v))

theorem repeats_releaseClaim (entity value : String) :
    Update.Repeats C (ix.releaseClaim scope entity name value) :=
  Update.repeats_delete (h.reverseKey entity value)

theorem repeats_tryClaim (entity value : String) :
    Update.Repeats C (ix.tryClaim scope entity name value lifetime) :=
  Boundary.Isolates.bind Query.Depends.now.update fun _ =>
    Update.repeats_putIfPartitionVacant _ (h value)

end Listed

theorem depends_staleClaims {holds : String → Query Bool}
    (hholds : ∀ owner, Query.Depends C (holds owner)) (entity : String)
    (claims : List (RowKey × Row)) : Query.Depends C (staleClaims entity holds claims) := by
  induction claims with
  | nil => exact .pure _
  | cons claim claims ih =>
    rw [staleClaims]
    split
    · exact ih
    · refine .bind .now fun now => ?_
      split
      · exact .pure none
      · refine .bind (hholds _) fun held => ?_
        split
        · exact .pure none
        · exact .bind ih fun _ => .pure _

section Claims

variable (h : ix.Listed C scope name) {holds : String → Query Bool}
  (hholds : ∀ owner, Query.Depends C (holds owner))
include h hholds

theorem repeats_dropStaleClaims (entity value : String) :
    Update.Repeats C (ix.dropStaleClaims scope entity name value holds) := by
  refine Update.Repeats.bind_query (Query.Depends.scanPartition (h value)) fun claims s hclaims => ?_
  refine Update.Repeats.bind_query (depends_staleClaims hholds entity claims) fun found s' hfound => ?_
  cases found with
  | none => exact .pure false
  | some stale =>
    refine .bind (.forM fun key hkey => .discard (Update.repeats_delete ?_)) fun _ => .pure true
    obtain ⟨row, hmem⟩ := mem_of_staleClaims entity hfound key hkey
    exact h value _ (Query.lead_prefix_of_scanPartition hclaims (key, row) hmem)

theorem repeats_claimUnique (kind : UniqueKind) (entity value : String) :
    Update.Repeats C (ix.claimUnique scope entity name kind value lifetime holds) := by
  refine .bind (repeats_tryClaim h entity value) fun claimed => ?_
  split
  · exact .pure ()
  · refine .bind (repeats_dropStaleClaims h hholds entity value) fun dropped => ?_
    split
    · refine .bind (repeats_tryClaim h entity value) fun claimed => ?_
      split
      · exact .pure ()
      · exact .throw _
    · exact .throw _

end Claims

section InRegion

variable (h : ix.InRegion C scope entity name)
include h

theorem depends_valuesOf : Query.Depends C (ix.valuesOf scope entity name) :=
  (Query.Depends.record h.forward).bind fun _ => .pure _

theorem repeats_putForward (values : List String) :
    Update.Repeats C (ix.putForward scope entity name values lifetime) :=
  .discard (Update.repeats_put h.forward _)

theorem repeats_removeAttribute : Update.Repeats C (ix.removeAttribute scope entity name) := by
  refine .bind (depends_valuesOf h).update fun previous => ?_
  refine .bind (Update.repeats_delete h.forward) fun removed => ?_
  exact .bind (repeats_withdraw h.reverse entity previous) fun _ => .pure _

theorem repeats_setAttribute (values : List String) :
    Update.Repeats C (ix.setAttribute scope entity name values lifetime) := by
  rw [setAttribute]
  split
  · exact .discard (repeats_removeAttribute h)
  · refine .bind (depends_valuesOf h).update fun previous => ?_
    refine .bind (repeats_putForward h _) fun _ => ?_
    refine .bind (repeats_withdraw h.reverse entity _) fun _ => .forM fun v _ => ?_
    exact .discard (Update.repeats_put (h.reverse.reverseKey entity v) _)

theorem repeats_commitUnique (value : Option String) :
    Update.Repeats C (ix.commitUnique scope entity name value lifetime) := by
  cases value with
  | none => exact .discard (repeats_removeAttribute h)
  | some v =>
    refine .bind (depends_valuesOf h).update fun previous => ?_
    refine .bind (repeats_putForward h [v]) fun _ => ?_
    exact repeats_withdraw h.reverse entity _

end InRegion

section Entity

variable {s s' : RowStore} {key : String}

theorem valuesAt_of_agreeOn (h : AgreeOn C s s')
    (hc : C ix.forward (forwardKey scope entity name).encode) (time : Int) :
    ix.valuesAt s' scope entity name time = ix.valuesAt s scope entity name time := by
  rw [valuesAt, valuesAt, RowStore.recordAt, RowStore.recordAt,
    RowStore.seen_of_get?_eq (h.cells _ _ hc).symm]

theorem get?_unlist (h : s.Readable ix.reverse) (values : List String) :
    ((ix.unlist s scope entity name values).table ix.reverse).get? key =
      if key ∈ reverseKeys scope entity name values then none
      else (s.table ix.reverse).get? key := by
  induction values generalizing s with
  | nil => rfl
  | cons v values ih =>
    rw [unlist, List.foldl_cons, ← unlist, ih (h.remove _), RowStore.get?_table_remove (h _),
      ← ite_or]
    simp only [reverseKeys, List.map_cons, List.mem_cons, or_comm]

def listedKeys (ix : AttributeIndex) (s : RowStore) (scope entity : String) : List String :=
  (ix.attributesAt s scope entity).entries.flatMap fun e => reverseKeys scope entity e.1 e.2

theorem get?_foldl_unlist (h : s.Readable ix.reverse) (l : List (String × List String)) :
    ((l.foldl (fun s e => ix.unlist s scope entity e.1 e.2) s).table ix.reverse).get? key =
      if key ∈ l.flatMap fun e => reverseKeys scope entity e.1 e.2 then none
      else (s.table ix.reverse).get? key := by
  induction l generalizing s with
  | nil => rfl
  | cons e l ih =>
    have hreadable : (ix.unlist s scope entity e.1 e.2).Readable ix.reverse := by
      intro key'
      rw [get?_unlist h]
      split
      · exact nofun
      · exact h key'
    rw [List.foldl_cons, ih hreadable, get?_unlist h, ← ite_or, List.flatMap_cons]
    simp only [List.mem_append, or_comm]

theorem agreeOn_clearAll (hsound : ix.Sound s) (hsound' : ix.Sound s') (h : AgreeOn C s s')
    (hkeys : ∀ key, C ix.reverse key →
      (key ∈ ix.listedKeys s scope entity ↔ key ∈ ix.listedKeys s' scope entity)) :
    AgreeOn C (ix.clearAll s scope entity) (ix.clearAll s' scope entity) := by
  refine RowStore.AgreeOn.removePartition ⟨?_, fun t key hc => ?_⟩ ix.forward _
  · rw [now_foldl_unlist, now_foldl_unlist]
    exact h.now
  · by_cases ht : t = ix.reverse
    · subst ht
      have hkeys := hkeys key hc
      rw [listedKeys, listedKeys] at hkeys
      rw [get?_foldl_unlist hsound.reverse, get?_foldl_unlist hsound'.reverse, h.cells _ key hc]
      simp only [hkeys]
    · rw [table_foldl_unlist_of_ne ht, table_foldl_unlist_of_ne ht]
      exact h.cells t key hc

end Entity

end AttributeIndex

end IdentityDirectory
