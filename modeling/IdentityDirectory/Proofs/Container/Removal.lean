import IdentityDirectory.Proofs.Container.Commit

/-!
Removal of containers, by itself or with the realm they belong to. Main statements: deleting a
container and removing a realm leave every other container as it is, in the store and in the unit of
work (`drops_delete`, `drops_removeRealm`).
-/

namespace IdentityDirectory

variable {α β σ τ : Type}

def Update.Spares (t : Table) (u : Update α) : Prop := ∀ s, (u s).2.table t = s.table t

namespace Update.Spares

variable {t u : Table}

theorem pure (a : α) : Spares t (pure a : Update α) := fun _ => rfl

theorem query (q : Query α) : Spares t (liftM q : Update α) := fun _ => rfl

theorem bind {v : Update α} {f : α → Update β} (h : Spares t v) (hf : ∀ a, Spares t (f a)) :
    Spares t (v >>= f) := by
  intro s
  have hs := h s
  cases hv : v s with
  | mk result s' =>
    rw [hv] at hs
    cases result with
    | ok a => rw [Update.bind_of_ok hv, hf a s', hs]
    | error e => rw [Update.bind_of_error hv, hs]

theorem discard {v : Update α} (h : Spares t v) : Spares t (Functor.discard v : Update Unit) :=
  h.bind fun _ => Spares.pure ()

theorem forM {f : α → Update Unit} {l : List α} (h : ∀ a ∈ l, Spares t (f a)) :
    Spares t (l.forM f) := by
  induction l with
  | nil => exact Spares.pure ()
  | cons a l ih =>
    have hrest := ih fun b hb => h b (List.mem_cons_of_mem _ hb)
    exact (h a List.mem_cons_self).bind fun _ => hrest

theorem ofRows {f : RowStore → Except StorageFault (α × RowStore)}
    (h : ∀ s a s', f s = .ok (a, s') → s'.table t = s.table t) : Spares t (ofRows f) := by
  intro s
  rw [Update.ofRows]
  cases hf : f s with
  | ok r => exact h s r.1 r.2 hf
  | error fault => rfl

theorem delete (h : t ≠ u) (key : RowKey) : Spares t (Update.delete u key) := by
  apply Spares.ofRows
  intro s removed s' hs
  rw [RowStore.delete, RowStore.take] at hs
  cases hrow : s.row? u key.encode with
  | error fault =>
    rw [hrow] at hs
    cases hs
  | ok row =>
    rw [hrow] at hs
    cases row with
    | none =>
      obtain ⟨-, rfl⟩ := Prod.mk.inj (Except.ok.inj hs)
      rfl
    | some row =>
      obtain ⟨-, rfl⟩ := Prod.mk.inj (Except.ok.inj hs)
      rw [RowStore.table_removeRow, if_neg h]

theorem deletePartition (h : t ≠ u) (partition : String) :
    Spares t (Update.deletePartition u partition) := by
  have hfold : ∀ (rows : List (String × Row)) (s : RowStore),
      (rows.foldl (fun s e => s.removeRow u e.1 e.2) s).table t = s.table t := by
    intro rows
    induction rows with
    | nil => exact fun _ => rfl
    | cons e rows ih =>
      intro s
      rw [List.foldl_cons, ih, RowStore.table_removeRow, if_neg h]
  apply Spares.ofRows
  intro s count s' hs
  rw [RowStore.deletePartition] at hs
  cases hrows : s.partitionRows u partition with
  | error fault =>
    rw [hrows] at hs
    cases hs
  | ok rows =>
    rw [hrows] at hs
    obtain ⟨-, rfl⟩ := Prod.mk.inj (Except.ok.inj hs)
    exact hfold rows s

theorem removeAttributesOf {ix : AttributeIndex} (hf : t ≠ ix.forward) (hr : t ≠ ix.reverse)
    (scope entity : String) : Spares t (ix.removeAttributesOf scope entity) := by
  apply Spares.bind (Spares.query _)
  intro attributes
  apply Spares.bind
  · apply Spares.forM
    intro e _
    apply Spares.forM
    intro v _
    exact (Spares.delete hr _).discard
  · intro _
    exact (Spares.deletePartition hf _).bind fun _ => Spares.pure _

end Update.Spares

section Records

variable (k : ContainerKind) (r : String)

open Update (Spares)

theorem ContainerKind.table_ne_of_notMem {t : Table}
    (h : t ∉ [Table.realmRoles, .realmGroups, .realmClientScopes]) : k.table ≠ t := by
  rintro rfl
  apply h
  cases k <;> decide

theorem spares_removeAttributesOf (ix : AttributeIndex) (scope entity : String) :
    Spares k.table (ix.removeAttributesOf scope entity) := by
  apply Spares.removeAttributesOf
  · cases ix <;> exact k.table_ne_of_notMem (by decide)
  · cases ix <;> exact k.table_ne_of_notMem (by decide)

theorem spares_removeEach (ix : AttributeIndex) (scope : String) (l : List α) (f : α → String) :
    Spares k.table (l.forM fun a => Functor.discard (ix.removeAttributesOf scope (f a))) := by
  apply Spares.forM
  intro a _
  exact (spares_removeAttributesOf k ix scope (f a)).discard

theorem UserSessions.spares_deleteAll : Spares k.table (deleteAll r) := by
  apply Spares.bind (Spares.query _)
  intro rows
  apply Spares.bind (spares_removeEach k .userSessions r rows (·.1.clustering))
  intro _
  apply Spares.bind (Spares.deletePartition (k.table_ne_of_notMem (by decide)) r)
  intro _
  apply Spares.bind (Spares.deletePartition (k.table_ne_of_notMem (by decide)) r)
  exact fun _ => Spares.pure _

theorem Users.spares_deleteAll : Spares k.table (deleteAll r) := by
  apply Spares.bind (Spares.query _)
  intro users
  apply Spares.bind (spares_removeEach k .users r users (·.id))
  intro _
  apply Spares.bind (Spares.deletePartition (k.table_ne_of_notMem (by decide)) r)
  exact fun _ => Spares.pure _

theorem Clients.spares_deleteAll : Spares k.table (deleteAll r) := by
  apply Spares.bind (Spares.query _)
  intro clients
  apply Spares.bind (spares_removeEach k .clients r clients (·.id))
  intro _
  apply Spares.bind (Spares.deletePartition (k.table_ne_of_notMem (by decide)) r)
  exact fun _ => Spares.pure _

theorem Realms.spares_delete : Spares k.table (delete r) := by
  apply Spares.bind (Spares.delete (k.table_ne_of_notMem (by decide)) _)
  intro removed
  apply Spares.bind (spares_removeAttributesOf k .realms scope r)
  exact fun _ => Spares.pure _

end Records

def Coordinator.dropped {k : ContainerKind} (c : Coordinator (Container k)) (tenant : String) :
    Coordinator (Container k) :=
  { c with loaded := c.loaded.erase tenant, deleted := c.deleted.insert tenant }

namespace UnitOfWork

structure Dropped (d d' : Desk UnitOfWork) : Prop where
  lasting : ∀ k, d'.rows.Lasting k
  flags : ∀ k, (d'.held.coordinator k).linearizable = (d.held.coordinator k).linearizable
  rows : ∀ k tenant, d'.rows.containerRow k tenant = d.rows.containerRow k tenant ∨
    d'.rows.containerRow k tenant = none
  loaded : ∀ k tenant x, (d'.held.coordinator k).loaded.get? tenant = some x →
    (d.held.coordinator k).loaded.get? tenant = some x

theorem Dropped.trans {d d' d'' : Desk UnitOfWork} (h : Dropped d d') (h' : Dropped d' d'') :
    Dropped d d'' where
  lasting := h'.lasting
  flags k := (h'.flags k).trans (h.flags k)
  rows k tenant := by
    rcases h'.rows k tenant with hsame | hnone
    · rw [hsame]
      exact h.rows k tenant
    · exact .inr hnone
  loaded k tenant x hx := h.loaded k tenant x (h'.loaded k tenant x hx)

theorem Dropped.of_eq {d d' : Desk UnitOfWork} (h : ∀ k, d.rows.Lasting k)
    (htable : ∀ k : ContainerKind, d'.rows.table k.table = d.rows.table k.table)
    (hheld : ∀ k, d'.held.coordinator k = d.held.coordinator k) : Dropped d d' where
  lasting k := (h k).of_table (htable k)
  flags k := by rw [hheld]
  rows k tenant := .inl (RowStore.containerRow_congr (htable k) tenant)
  loaded k tenant x hx := hheld k ▸ hx

def Drops (work : Work UnitOfWork α) : Prop :=
  ∀ d, (∀ k, d.rows.Lasting k) → Dropped d (work d).2

theorem Drops.pure (a : α) : Drops (pure a : Work UnitOfWork α) :=
  fun _ h => .of_eq h (fun _ => rfl) fun _ => rfl

theorem Drops.bind {work : Work UnitOfWork α} {f : α → Work UnitOfWork β} (h : Drops work)
    (hf : ∀ a, Drops (f a)) : Drops (work >>= f) := by
  intro d hd
  have hfirst := h d hd
  cases hw : work d with
  | mk result d' =>
    rw [hw] at hfirst
    cases result with
    | ok a =>
      rw [Work.bind_of_ok hw]
      exact hfirst.trans (hf a d' hfirst.lasting)
    | error e =>
      rw [Work.bind_of_error hw]
      exact hfirst

/-- Work that leaves the containers alone that are stored and those that are held. -/
def Aloof (work : Work UnitOfWork α) : Prop :=
  ∀ d, (∀ k : ContainerKind, (work d).2.rows.table k.table = d.rows.table k.table) ∧
    ∀ k, (work d).2.held.coordinator k = d.held.coordinator k

theorem Aloof.drops {work : Work UnitOfWork α} (h : Aloof work) : Drops work :=
  fun d hd => .of_eq hd (h d).1 (h d).2

theorem Aloof.pure (a : α) : Aloof (pure a : Work UnitOfWork α) :=
  fun _ => ⟨fun _ => rfl, fun _ => rfl⟩

theorem Aloof.bind {work : Work UnitOfWork α} {f : α → Work UnitOfWork β} (h : Aloof work)
    (hf : ∀ a, Aloof (f a)) : Aloof (work >>= f) := by
  intro d
  obtain ⟨htable, hheld⟩ := h d
  cases hw : work d with
  | mk result d' =>
    rw [hw] at htable hheld
    cases result with
    | ok a =>
      rw [Work.bind_of_ok hw]
      obtain ⟨htable', hheld'⟩ := hf a d'
      exact ⟨fun k => (htable' k).trans (htable k), fun k => (hheld' k).trans (hheld k)⟩
    | error e =>
      rw [Work.bind_of_error hw]
      exact ⟨htable, hheld⟩

theorem aloof_update {u : Update α} (h : ∀ k : ContainerKind, u.Spares k.table) :
    Aloof (liftM u : Work UnitOfWork α) :=
  fun d => ⟨fun k => h k d.rows, fun _ => rfl⟩

theorem aloof_on {p : Part UnitOfWork τ} {work : Work τ α} {u : Update β}
    (hp : ∀ k t v, (p.set t v).coordinator k = v.coordinator k)
    (hwork : ∀ d, (work d).2.rows = (u d.rows).2)
    (h : ∀ k : ContainerKind, u.Spares k.table) : Aloof (Work.on p work) := by
  intro d
  constructor
  · intro k
    have hon : (Work.on p work d).2.rows = (work { d with held := p.get d.held }).2.rows := rfl
    rw [hon, hwork]
    exact h k d.rows
  · intro k
    exact hp k _ _

variable {d : Desk UnitOfWork}

theorem delete_eq {k : ContainerKind} (h : d.rows.Readable k.table) (tenant : String) :
    Work.on (part k) (Coordinator.delete tenant) d =
      (.ok (d.rows.seen k.table (Coordinator.key tenant).encode d.rows.now).isSome,
        { d with
          rows := d.rows.remove k.table (Coordinator.key tenant).encode
          held := (part k).set ((d.held.coordinator k).dropped tenant) d.held }) := by
  have hdelete : Update.delete (Aggregate.table (Container k)) (Coordinator.key tenant) d.rows =
      (.ok (d.rows.seen k.table (Coordinator.key tenant).encode d.rows.now).isSome,
        d.rows.remove k.table (Coordinator.key tenant).encode) :=
    Update.delete_eq (Coordinator.key tenant) h
  have hlift : (liftM (Update.delete (Aggregate.table (Container k)) (Coordinator.key tenant)) :
      Work (Coordinator (Container k)) Bool) { d with held := d.held.coordinator k } =
      (.ok (d.rows.seen k.table (Coordinator.key tenant).encode d.rows.now).isSome,
        { d with
          rows := d.rows.remove k.table (Coordinator.key tenant).encode
          held := d.held.coordinator k }) := by
    rw [Work.liftM_update_apply, hdelete]
  rw [Work.on, show (part k).get d.held = d.held.coordinator k from rfl, Coordinator.delete,
    Work.bind_of_ok hlift]
  rfl

theorem drops_delete (k : ContainerKind) (tenant : String) :
    Drops (Work.on (part k) (Coordinator.delete tenant)) := by
  intro d hd
  rw [delete_eq (hd k).readable]
  constructor
  · intro j
    exact (hd j).remove _ _
  · intro j
    by_cases hj : j = k
    · subst hj
      rw [coordinator_set]
      rfl
    · rw [coordinator_set_of_ne hj]
  · intro j tenant'
    by_cases hj : j = k
    · subst hj
      rw [RowStore.containerRow_remove]
      split
      · exact .inr rfl
      · exact .inl rfl
    · have htable := d.rows.table_remove_of_ne (ContainerKind.table_ne hj)
        (Coordinator.key tenant).encode
      exact .inl (RowStore.containerRow_congr htable tenant')
  · intro j tenant' x hx
    by_cases hj : j = k
    · subst hj
      rw [coordinator_set, Coordinator.dropped, StringMap.get?_erase] at hx
      split at hx
      · cases hx
      · exact hx
    · rw [coordinator_set_of_ne hj] at hx
      exact hx

def removeRecords (realmId : String) : Work UnitOfWork Bool := do
  match ← Work.on realmsPart (Realms.findById realmId) with
  | none => return false
  | some _ =>
    let _ ← Work.on userSessionsPart (UserSessions.removeAll realmId)
    let _ ← (LoginAttempts.removeAll realmId : Update Nat)
    let _ ← (LoginFailures.removeAll realmId : Update Nat)
    let _ ← Work.on usersPart (Users.removeAll realmId)
    let _ ← Work.on clientsPart (Clients.removeAll realmId)
    return true

def removeContainers (realmId : String) : Work UnitOfWork Unit := do
  let _ ← Work.on (part .roles) (Coordinator.delete realmId)
  let _ ← Work.on (part .groups) (Coordinator.delete realmId)
  let _ ← Work.on (part .clientScopes) (Coordinator.delete realmId)

theorem removeRealm_eq (realmId : String) : removeRealm realmId = do
    if ← removeRecords realmId then
      removeContainers realmId
      let _ ← Work.on realmsPart (Realms.remove realmId)
      return true
    else return false := by
  rw [removeRealm, removeRecords, bind_assoc]
  congr 1
  funext found
  cases found with
  | none => rfl
  | some realm =>
    simp only [bind_assoc, pure_bind, removeContainers]
    rfl

theorem aloof_findRealm (id : String) : Aloof (Work.on realmsPart (Realms.findById id)) := by
  apply aloof_on (u := (Pure.pure () : Update Unit))
  · intro k t v
    cases k <;> rfl
  · intro d
    rfl
  · exact fun k => Update.Spares.pure ()

theorem aloof_removeRecords (id : String) : Aloof (removeRecords id) := by
  apply Aloof.bind (aloof_findRealm id)
  intro found
  cases found with
  | none => exact Aloof.pure false
  | some realm =>
    apply Aloof.bind
    · exact aloof_on (u := UserSessions.deleteAll id) (fun k t v => by cases k <;> rfl)
        (fun d => rfl) fun k => UserSessions.spares_deleteAll k id
    intro sessions
    apply Aloof.bind
    · exact aloof_update fun k =>
        Update.Spares.deletePartition (k.table_ne_of_notMem (by decide)) id
    intro attempts
    apply Aloof.bind
    · exact aloof_update fun k =>
        Update.Spares.deletePartition (k.table_ne_of_notMem (by decide)) id
    intro failures
    apply Aloof.bind
    · exact aloof_on (u := Users.deleteAll id) (fun k t v => by cases k <;> rfl)
        (fun d => rfl) fun k => Users.spares_deleteAll k id
    intro users
    apply Aloof.bind
    · exact aloof_on (u := Clients.deleteAll id) (fun k t v => by cases k <;> rfl)
        (fun d => rfl) fun k => Clients.spares_deleteAll k id
    intro clients
    exact Aloof.pure true

theorem aloof_removeRealmRecord (id : String) : Aloof (Work.on realmsPart (Realms.remove id)) :=
  aloof_on (u := Realms.delete id) (fun k t v => by cases k <;> rfl)
    (fun d => rfl) fun k => Realms.spares_delete k id

theorem drops_removeContainers (id : String) : Drops (removeContainers id) := by
  apply Drops.bind (drops_delete .roles id)
  intro roles
  apply Drops.bind (drops_delete .groups id)
  intro groups
  exact Drops.bind (drops_delete .clientScopes id) fun scopes => Drops.pure ()

theorem drops_removeRealm (id : String) : Drops (removeRealm id) := by
  rw [removeRealm_eq]
  apply Drops.bind (aloof_removeRecords id).drops
  intro found
  cases found with
  | false => exact Drops.pure false
  | true =>
    apply Drops.bind (drops_removeContainers id)
    intro containers
    exact Drops.bind (aloof_removeRealmRecord id).drops fun removed => Drops.pure true

end UnitOfWork

end IdentityDirectory
