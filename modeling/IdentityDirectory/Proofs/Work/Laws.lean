import IdentityDirectory.Proofs.Rows.Snapshot
import IdentityDirectory.Work.Basic

/-!
Evaluation of queries, updates and work, step by step: what a sequence of steps does once its first
step is known, and what the single accesses to readable tables do.
-/

namespace IdentityDirectory

variable {α β ε σ τ : Type}

theorem Except.mapM_of_ok {f : α → Except ε β} {g : α → β} {l : List α}
    (h : ∀ a ∈ l, f a = .ok (g a)) : l.mapM f = .ok (l.map g) := by
  induction l with
  | nil => rfl
  | cons a l ih =>
    rw [List.mapM_cons, h a List.mem_cons_self, ih fun b hb => h b (List.mem_cons_of_mem _ hb)]
    rfl

namespace Query

variable {s : RowStore}

@[simp] theorem pure_apply (a : α) (s : RowStore) : (pure a : Query α) s = .ok a := rfl

@[simp] theorem now_apply (s : RowStore) : now s = .ok s.now := rfl

theorem bind_of_ok {q : Query α} {a : α} (h : q s = .ok a) (f : α → Query β) :
    (q >>= f) s = f a s := by
  change (q s >>= fun a => f a s) = f a s
  rw [h]
  rfl

theorem bind_of_error {q : Query α} {e : StoreError} (h : q s = .error e) (f : α → Query β) :
    (q >>= f) s = .error e := by
  change (q s >>= fun a => f a s) = .error e
  rw [h]
  rfl

theorem exists_of_bind_ok {q : Query α} {f : α → Query β} {b : β} (h : (q >>= f) s = .ok b) :
    ∃ a, q s = .ok a ∧ f a s = .ok b := by
  cases hq : q s with
  | ok a => exact ⟨a, rfl, (bind_of_ok hq f).symm.trans h⟩
  | error e =>
    rw [bind_of_error hq] at h
    cases h

theorem bind_congr {s' : RowStore} {q : Query α} {f : α → Query β} (hq : q s' = q s)
    (hf : ∀ a, q s = .ok a → f a s' = f a s) : (q >>= f) s' = (q >>= f) s := by
  cases h : q s with
  | error e => rw [bind_of_error h, bind_of_error (hq.trans h)]
  | ok a => rw [bind_of_ok h, bind_of_ok (hq.trans h), hf a h]

theorem map_of_ok {q : Query α} {a : α} (h : q s = .ok a) (f : α → β) :
    (f <$> q) s = .ok (f a) := by
  change f <$> q s = .ok (f a)
  rw [h]
  rfl

theorem map_of_error {q : Query α} {e : StoreError} (h : q s = .error e) (f : α → β) :
    (f <$> q) s = .error e := by
  change f <$> q s = .error e
  rw [h]
  rfl

theorem mapM_of_ok {f : α → Query β} {g : α → β} {l : List α} (h : ∀ a ∈ l, f a s = .ok (g a)) :
    l.mapM f s = .ok (l.map g) := by
  induction l with
  | nil => rfl
  | cons a l ih =>
    have hrest := ih fun b hb => h b (List.mem_cons_of_mem _ hb)
    rw [List.mapM_cons, bind_of_ok (h a List.mem_cons_self), bind_of_ok hrest]
    rfl

theorem ofRows_of_ok {f : RowStore → Except StorageFault α} {a : α} (h : f s = .ok a) :
    ofRows f s = .ok a := by
  rw [ofRows, h]
  rfl

theorem row_eq {t : Table} (h : s.Readable t) (key : RowKey) :
    row t key s = .ok ((s.rowAt t key.encode).filter (·.isLive s.now)) :=
  ofRows_of_ok (RowStore.get_eq key h)

theorem record_eq [Storable α] {t : Table} (h : s.Holds α t) (key : RowKey) :
    record t key s = .ok (s.recordAt α t key s.now) := by
  apply ofRows_of_ok
  simp only [RowStore.get_eq key h.readable, bind, Except.bind]
  cases hrow : (s.rowAt t key.encode).filter (·.isLive s.now) with
  | none =>
    rw [RowStore.recordAt, RowStore.seen, hrow]
    rfl
  | some r =>
    obtain ⟨a, ha⟩ := h.payloads _ r (Option.filter_eq_some_iff.mp hrow).1
    simp [RowStore.recordAt, RowStore.seen, hrow, Row.read, ha, Storable.ofPayload?_payload,
      pure, Except.pure]

theorem scanPartition_eq {t : Table} (h : s.Readable t) (partition : String) :
    scanPartition t partition s = .ok (s.scan t partition) :=
  ofRows_of_ok (RowStore.scanPartition_eq h partition)

theorem mapM_read_eq [Storable α] {t : Table} (h : s.Holds α t) {l : List (RowKey × Row)}
    (hl : ∀ e ∈ l, ∃ key, s.rowAt t key = some e.2) :
    (l.mapM (·.2.read) : Except StorageFault (List α)) =
      .ok (l.filterMap fun e => Storable.ofPayload? e.2.payload) := by
  induction l with
  | nil => rfl
  | cons e l ih =>
    obtain ⟨key, hrow⟩ := hl e List.mem_cons_self
    obtain ⟨a, ha⟩ := h.payloads key e.2 hrow
    have hread : (e.2.read : Except StorageFault α) = .ok a := by
      simp only [Row.read, ha, Storable.ofPayload?_payload]
    rw [List.mapM_cons, hread, ih fun f hf => hl f (List.mem_cons_of_mem _ hf),
      List.filterMap_cons_some (by rw [ha, Storable.ofPayload?_payload])]
    rfl

theorem records_eq [Storable α] {t : Table} (h : s.Holds α t) (partition : String) :
    records α t partition s = .ok (s.recordsIn α t partition) := by
  have hl : ∀ e ∈ s.scan t partition, ∃ key, s.rowAt t key = some e.2 := by
    rintro ⟨k, row⟩ hmem
    obtain ⟨key, hrow, -, -, -⟩ := RowStore.mem_scan.mp hmem
    exact ⟨key, hrow⟩
  simp only [records, ofRows, RowStore.scanPartition_eq h.readable, bind, Except.bind]
  rw [mapM_read_eq h hl]
  rfl

theorem allRecords_eq [Storable α] {t : Table} (h : s.Holds α t) :
    allRecords α t s = .ok (s.recordsOf α t) := by
  have hl : ∀ e ∈ s.live (s.rows t), ∃ key, s.rowAt t key = some e.2 :=
    fun e he => ⟨_, (RowStore.mem_liveRows.mp he).2.1⟩
  simp only [allRecords, ofRows, RowStore.scanTable, RowStore.tableRows_eq h.readable, bind,
    Except.bind, pure, Except.pure]
  rw [mapM_read_eq h hl]
  rfl

end Query

section Stateful

variable {ω : Type} {m : ExceptT StoreError (StateM ω) α} {s s' : ω}

theorem run_bind_of_ok {a : α} (h : m s = (.ok a, s')) (f : α → ExceptT StoreError (StateM ω) β) :
    (m >>= f) s = f a s' := by
  simp only [bind, ExceptT.bind, ExceptT.mk, StateT.bind, h]
  rfl

theorem run_bind_of_error {e : StoreError} (h : m s = (.error e, s'))
    (f : α → ExceptT StoreError (StateM ω) β) : (m >>= f) s = (.error e, s') := by
  simp only [bind, ExceptT.bind, ExceptT.mk, StateT.bind, h]
  rfl

theorem run_tryCatch_of_ok {a : α} (h : m s = (.ok a, s'))
    (handle : StoreError → ExceptT StoreError (StateM ω) α) :
    tryCatch m handle s = (.ok a, s') := by
  simp only [tryCatch, tryCatchThe, MonadExceptOf.tryCatch, ExceptT.tryCatch, ExceptT.mk, bind,
    StateT.bind, h]
  rfl

theorem run_tryCatch_of_error {e : StoreError} (h : m s = (.error e, s'))
    (handle : StoreError → ExceptT StoreError (StateM ω) α) :
    tryCatch m handle s = handle e s' := by
  simp only [tryCatch, tryCatchThe, MonadExceptOf.tryCatch, ExceptT.tryCatch, ExceptT.mk, bind,
    StateT.bind, h]

end Stateful

namespace Update

variable {s s' : RowStore}

@[simp] theorem pure_apply (a : α) (s : RowStore) : (pure a : Update α) s = (.ok a, s) := rfl

@[simp] theorem throw_apply (e : StoreError) (s : RowStore) :
    (throw e : Update α) s = (.error e, s) := rfl

@[simp] theorem liftM_apply (q : Query α) (s : RowStore) : (liftM q : Update α) s = (q s, s) := rfl

theorem bind_of_ok {u : Update α} {a : α} (h : u s = (.ok a, s')) (f : α → Update β) :
    (u >>= f) s = f a s' := run_bind_of_ok h f

theorem bind_of_error {u : Update α} {e : StoreError} (h : u s = (.error e, s'))
    (f : α → Update β) : (u >>= f) s = (.error e, s') := run_bind_of_error h f

theorem bind_liftM_of_ok {q : Query α} {a : α} (h : q s = .ok a) (f : α → Update β) :
    (liftM q >>= f) s = f a s :=
  bind_of_ok (by rw [liftM_apply, h]) f

theorem ofRows_of_ok {f : RowStore → Except StorageFault (α × RowStore)} {a : α}
    (h : f s = .ok (a, s')) : ofRows f s = (.ok a, s') := by
  rw [ofRows, h]

theorem discard_of_ok {u : Update α} {a : α} (h : u s = (.ok a, s')) :
    (discard u : Update Unit) s = (.ok (), s') :=
  bind_of_ok h fun _ => pure ()

theorem discard_rows (u : Update α) (s : RowStore) :
    ((discard u : Update Unit) s).2 = (u s).2 := by
  cases hu : u s with
  | mk result s' =>
    cases result with
    | ok a => rw [discard_of_ok hu]
    | error e =>
      have hfailed : (discard u : Update Unit) s = (.error e, s') :=
        bind_of_error hu fun _ => pure ()
      rw [hfailed]

theorem tryCatch_of_ok {u : Update α} {a : α} (h : u s = (.ok a, s'))
    (handle : StoreError → Update α) : tryCatch u handle s = (.ok a, s') :=
  run_tryCatch_of_ok h handle

theorem tryCatch_of_error {u : Update α} {e : StoreError} (h : u s = (.error e, s'))
    (handle : StoreError → Update α) : tryCatch u handle s = handle e s' :=
  run_tryCatch_of_error h handle

theorem ite_bind {c : Prop} [Decidable c] (u : Update Unit) (f : Unit → Update β) :
    (if c then u >>= f else f ()) = (if c then u else pure ()) >>= f := by
  split <;> rfl

theorem forM_of_ok {f : α → Update Unit} {g : RowStore → α → RowStore} {I : RowStore → Prop}
    {l : List α} (h : ∀ a ∈ l, ∀ s, I s → f a s = (.ok (), g s a) ∧ I (g s a)) (hs : I s) :
    l.forM f s = (.ok (), l.foldl g s) ∧ I (l.foldl g s) := by
  induction l generalizing s with
  | nil => exact ⟨rfl, hs⟩
  | cons a l ih =>
    obtain ⟨hstep, hnext⟩ := h a List.mem_cons_self s hs
    rw [show (a :: l).forM f = (f a >>= fun _ => l.forM f) from rfl, bind_of_ok hstep,
      List.foldl_cons]
    exact ih (fun b hb => h b (List.mem_cons_of_mem _ hb)) hnext

section Rows

variable {t : Table} (key : RowKey)

theorem put_eq [Storable α] (h : s.Readable t) (a : α) (lifetime : Option Int) :
    put t key a lifetime s =
      (.ok (s.successor (s.rowAt t key.encode) (Storable.payload a) lifetime).version,
        s.write t key.encode (Storable.payload a) lifetime) :=
  ofRows_of_ok (RowStore.put_eq key _ lifetime h)

theorem putExpirable_eq [Storable α] [Expirable α] (h : s.Readable t) (a : α) :
    putExpirable t key a s = (.ok (Lifetime.of a s.now),
      s.write t key.encode (Storable.payload a) (Lifetime.of a s.now)) := by
  rw [putExpirable, bind_liftM_of_ok (Query.now_apply s), bind_of_ok (put_eq key h a _)]
  rfl

theorem delete_eq (h : s.Readable t) :
    delete t key s = (.ok (s.seen t key.encode s.now).isSome, s.remove t key.encode) := by
  rw [RowStore.seen, Option.isSome_map]
  exact ofRows_of_ok (RowStore.delete_eq key h)

theorem deletePartition_eq (h : s.Readable t) (partition : String) :
    deletePartition t partition s =
      (.ok ((s.inPartition t partition).countP (·.2.isLive s.now)),
        s.removePartition t partition) :=
  ofRows_of_ok (RowStore.deletePartition_eq h partition)

theorem take_eq (h : s.Readable t) :
    take t key s =
      (.ok ((s.rowAt t key.encode).filter (·.isLive s.now)), s.remove t key.encode) :=
  ofRows_of_ok (RowStore.take_eq key h)

theorem putIfAbsent_eq [Storable α] (h : s.Readable t) (a : α) (lifetime : Option Int)
    (habsent : (s.rowAt t key.encode).filter (·.isLive s.now) = none) :
    putIfAbsent t key a lifetime s =
      (.ok true, s.write t key.encode (Storable.payload a) lifetime) := by
  apply ofRows_of_ok
  rw [RowStore.putIfAbsent, RowStore.putIfVersion_eq key _ lifetime h, habsent]
  rfl

theorem putIfAbsent_cases [Storable α] (h : s.Readable t) (a : α) (lifetime : Option Int) :
    putIfAbsent t key a lifetime s =
        (.ok true, s.write t key.encode (Storable.payload a) lifetime) ∨
      putIfAbsent t key a lifetime s = (.ok false, s) := by
  have hput := RowStore.putIfVersion_eq key (Storable.payload a) lifetime h none
  split at hput
  · left
    apply ofRows_of_ok
    rw [RowStore.putIfAbsent, hput]
    rfl
  · right
    apply ofRows_of_ok
    rw [RowStore.putIfAbsent, hput]
    rfl

end Rows

end Update

namespace Work

variable {d d' : Desk σ}

@[simp] theorem pure_apply (a : α) (d : Desk σ) : (pure a : Work σ α) d = (.ok a, d) := rfl

@[simp] theorem throw_apply (e : StoreError) (d : Desk σ) :
    (throw e : Work σ α) d = (.error e, d) := rfl

@[simp] theorem liftM_query_apply (q : Query α) (d : Desk σ) :
    (liftM q : Work σ α) d = (q d.rows, d) := rfl

theorem liftM_update_apply (u : Update α) (d : Desk σ) :
    (liftM u : Work σ α) d = ((u d.rows).1, { d with rows := (u d.rows).2 }) := rfl

theorem liftM_update_of_eq {u : Update α} {result : Except StoreError α} {s : RowStore}
    (h : u d.rows = (result, s)) : (liftM u : Work σ α) d = (result, { d with rows := s }) := by
  rw [liftM_update_apply, h]

theorem bind_of_ok {w : Work σ α} {a : α} (h : w d = (.ok a, d')) (f : α → Work σ β) :
    (w >>= f) d = f a d' := run_bind_of_ok h f

theorem bind_of_error {w : Work σ α} {e : StoreError} (h : w d = (.error e, d'))
    (f : α → Work σ β) : (w >>= f) d = (.error e, d') := run_bind_of_error h f

theorem exists_of_bind_ok {w : Work σ α} {f : α → Work σ β} {b : β} (h : ((w >>= f) d).1 = .ok b) :
    ∃ a d', w d = (.ok a, d') ∧ (f a d').1 = .ok b := by
  cases hw : w d with
  | mk result d' =>
    cases result with
    | ok a => exact ⟨a, d', rfl, (congrArg Prod.fst (bind_of_ok hw f)).symm.trans h⟩
    | error e =>
      rw [bind_of_error hw] at h
      cases h

theorem on_of_eq (part : Part σ τ) {work : Work τ α} {result : Except StoreError α} {s : RowStore}
    {draws : Draws} {t : τ} (h : work { d with held := part.get d.held } = (result, ⟨s, draws, t⟩)) :
    Work.on part work d = (result, ⟨s, draws, part.set t d.held⟩) := by
  rw [Work.on, h]

theorem newId_apply (d : Desk σ) :
    newId d = (.ok (Identifier.hyphenated (d.draws.value d.draws.next)),
      { d with draws := { d.draws with next := d.draws.next + 1 } }) := rfl

theorem nextId_apply (d : Desk σ) :
    nextId d = (.ok (Identifier.hyphenated (d.draws.value d.draws.next)), d) := rfl

theorem withNewId_of_ok {f : String → Work σ α} {a : α}
    (h : f (Identifier.hyphenated (d.draws.value d.draws.next)) d = (.ok a, d')) :
    withNewId f d =
      (.ok a, { d' with draws := { d'.draws with next := d'.draws.next + 1 } }) := by
  rw [withNewId, bind_of_ok (nextId_apply d), bind_of_ok h, bind_of_ok (newId_apply d')]
  rfl

theorem withNewId_of_error {f : String → Work σ α} {e : StoreError}
    (h : f (Identifier.hyphenated (d.draws.value d.draws.next)) d = (.error e, d')) :
    withNewId f d = (.error e, d') := by
  rw [withNewId, bind_of_ok (nextId_apply d), bind_of_error h]

theorem exists_withNewId (f : String → Work σ α) (d : Desk σ) :
    let done := f (Identifier.hyphenated (d.draws.value d.draws.next)) d
    ∃ draws, withNewId f d = (done.1, { done.2 with draws }) := by
  intro done
  cases hdone : done with
  | mk result d' =>
    cases result with
    | ok a => exact ⟨_, withNewId_of_ok hdone⟩
    | error e => exact ⟨d'.draws, withNewId_of_error hdone⟩

theorem discard_desk (work : Work σ α) (d : Desk σ) :
    ((discard work : Work σ Unit) d).2 = (work d).2 := by
  cases hw : work d with
  | mk result d' =>
    cases result with
    | ok a =>
      have hdone : (discard work : Work σ Unit) d = (.ok (), d') := bind_of_ok hw fun _ => pure ()
      rw [hdone]
    | error e =>
      have hfailed : (discard work : Work σ Unit) d = (.error e, d') :=
        bind_of_error hw fun _ => pure ()
      rw [hfailed]

end Work

end IdentityDirectory
