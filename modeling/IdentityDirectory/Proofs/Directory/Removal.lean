import IdentityDirectory.Proofs.Container.Removal
import IdentityDirectory.Proofs.Directory.Belonging

/-!
Removal of a realm. Each step succeeds and removes one kind of rows of the realm, of which nothing is
seen any more then, and no other rows. Main statements: `cleared_removeRealm`, and `removed_realm_gone`
for any state that units of work can bring about.
-/

namespace IdentityDirectory.Directory

open AttributeIndex (Clearable Scoped)
open UnitOfWork (part realmsPart clientsPart usersPart userSessionsPart nothing standalone_edit
  standalone_commit standalone_abort removeRealm commit)
open UserSessions (sessionTables)

variable {α β τ : Type} {s s' s'' : RowStore} {t : Table} {r : String} {tables tables' : List Table}
  {d d' d'' : Desk UnitOfWork} {k : ContainerKind}

structure Emptied (r : String) (tables : List Table) (s s' : RowStore) : Prop where
  consistent : Consistent s'
  wrote : RowStore.Wrote (erasing r) s s'
  vacant : ∀ t ∈ tables, Vacant r t s'

theorem Consistent.emptied (h : Consistent s) (r : String) : Emptied r [] s s :=
  ⟨h, .refl s, fun _ ht => absurd ht List.not_mem_nil⟩

theorem Emptied.trans (h : Emptied r tables s s') (h' : Emptied r tables' s' s'') :
    Emptied r (tables ++ tables') s s'' where
  consistent := h'.consistent
  wrote := h.wrote.trans h'.wrote
  vacant t ht := by
    rcases List.mem_append.mp ht with hfirst | hsecond
    · exact (h.vacant t hfirst).erased h'.wrote
    · exact h'.vacant t hsecond

def Empties (r : String) (tables : List Table) (u : Update α) : Prop :=
  ∀ s, Consistent s → ∃ a s', u s = (.ok a, s') ∧ Emptied r tables s s'

structure Cleared (r : String) (tables : List Table) (d d' : Desk UnitOfWork) : Prop where
  emptied : Emptied r tables d.rows d'.rows
  dropped : ∀ k : ContainerKind, k.table ∈ tables ∨ r ∈ (d.held.coordinator k).deleted →
    r ∈ (d'.held.coordinator k).deleted

theorem Cleared.trans (h : Cleared r tables d d') (h' : Cleared r tables' d' d'') :
    Cleared r (tables ++ tables') d d'' where
  emptied := h.emptied.trans h'.emptied
  dropped k hk := by
    apply h'.dropped
    rcases hk with hmem | hdeleted
    · rcases List.mem_append.mp hmem with hfirst | hsecond
      · exact .inr (h.dropped k (.inl hfirst))
      · exact .inl hsecond
    · exact .inr (h.dropped k (.inr hdeleted))

def Clears (r : String) (tables : List Table) (work : Work UnitOfWork α) (Q : α → Prop) : Prop :=
  ∀ d, Consistent d.rows → ∃ a d', work d = (.ok a, d') ∧ Q a ∧ Cleared r tables d d'

theorem clears_pure {Q : α → Prop} {a : α} (h : Q a) :
    Clears r [] (pure a : Work UnitOfWork α) Q := fun d hd =>
  ⟨a, d, rfl, h, hd.emptied r, fun _ hk => hk.resolve_left List.not_mem_nil⟩

theorem Clears.bind {work : Work UnitOfWork α} {f : α → Work UnitOfWork β} {Q : α → Prop}
    {S : β → Prop} (h : Clears r tables work Q) (hf : ∀ a, Q a → Clears r tables' (f a) S) :
    Clears r (tables ++ tables') (work >>= f) S := by
  intro d hd
  obtain ⟨a, d', heq, ha, hcleared⟩ := h d hd
  obtain ⟨b, d'', heq', hb, hcleared'⟩ := hf a ha d' hcleared.emptied.consistent
  exact ⟨b, d'', (Work.bind_of_ok heq f).trans heq', hb, hcleared.trans hcleared'⟩

section Rows

variable {u : Update α} (h : Empties r tables u)
  (htables : ∀ t ∈ tables, t ∉ [Table.realmRoles, .realmGroups, .realmClientScopes])

include htables in
theorem container_notMem (k : ContainerKind) : k.table ∉ tables :=
  fun hmem => k.table_ne_of_notMem (htables _ hmem) rfl

include h htables

theorem clears_update : Clears r tables (liftM u : Work UnitOfWork α) fun _ => True := by
  intro d hd
  obtain ⟨a, s', heq, hemptied⟩ := h d.rows hd
  refine ⟨a, { d with rows := s' }, ?_, trivial, hemptied, ?_⟩
  · rw [Work.liftM_update_apply, heq]
  · exact fun k hk => hk.resolve_left (container_notMem htables k)

theorem clears_on {p : Part UnitOfWork τ} {work : Work τ α} (hwork : Work.Acts work fun _ => u)
    (hp : ∀ k t v, (p.set t v).coordinator k = v.coordinator k) :
    Clears r tables (Work.on p work) fun _ => True := by
  intro d hd
  obtain ⟨a, s', heq, hemptied⟩ := h d.rows hd
  have hacts : ((Work.on p work d).1, (Work.on p work d).2.rows) = u d.rows := hwork.on p d
  rw [heq] at hacts
  obtain ⟨hresult, hrows⟩ := Prod.mk.inj hacts
  refine ⟨a, (Work.on p work d).2, Prod.ext hresult rfl, trivial, hrows ▸ hemptied, fun k hk => ?_⟩
  have hheld : (Work.on p work d).2.held.coordinator k = d.held.coordinator k := hp k _ _
  rw [hheld]
  exact hk.resolve_left (container_notMem htables k)

end Rows

theorem clearable_scope {ix : AttributeIndex} (entity : String)
    (h : ∀ t key, t = ix.forward ∨ t = ix.reverse → Scoped r key → Belongs r t key) :
    Clearable ix (erasing r) r entity where
  forward _ key hkey := ⟨rfl, h _ key (.inl rfl) (AttributeIndex.scoped_of_entity hkey)⟩
  reverse _ name value :=
    ⟨rfl, h _ _ (.inr rfl) (AttributeIndex.scoped_reverseKey r entity name value)⟩

theorem erases_partition
    (h : ∀ key : String, (RowKey.lead r).toList <+: key.toList → Belongs r t key) :
    Update.Writes (erasing r) (Update.deletePartition t r) :=
  Update.writes_deletePartition fun _ key hkey => ⟨rfl, h key hkey⟩

theorem empties_sessions (hr : Plain r) : Empties r sessionTables (UserSessions.deleteAll r) := by
  intro s hs
  have hindex : ∀ entity, Clearable .userSessions (erasing r) r entity := by
    intro entity
    apply clearable_scope
    rintro _ _ (rfl | rfl) hkey
    · exact hkey
    · exact hkey
  have hwrites : Update.Writes (erasing r) (UserSessions.deleteAll r) := by
    refine .bind (Update.writes_query _) fun rows => ?_
    refine .bind (AttributeIndex.writes_removeEach hindex rows (·.1.clustering)) fun _ => ?_
    refine .bind (erases_partition fun _ hkey => hkey) fun _ => ?_
    exact .bind (erases_partition fun _ hkey => hkey) fun _ => .pure _
  have hwrote := hwrites.wrote s
  have hconsistent : Consistent (UserSessions.eraseAll s r _) :=
    steady_consistent.eraseAll (fun _ => trivial) s r hs hr
  rw [UserSessions.deleteAll_eq hs.indexed] at hwrote ⊢
  dsimp only at hwrote
  exact ⟨_, _, rfl, hconsistent, hwrote, fun t ht => vacant_sessions hr hconsistent ht⟩

structure Placed [Storable α] (R : Registry α) (r : String) : Prop where
  scope : R.Scope r
  key : ∀ r id, R.Scope r → R.key r id = ⟨r, id⟩
  records : ∀ key : String, (RowKey.lead r).toList <+: key.toList ↔ Belongs r R.table key
  index : ∀ t key, t = R.index.forward ∨ t = R.index.reverse → (Scoped r key ↔ Belongs r t key)

theorem placed_users (hr : Plain r) : Placed Users.registry r where
  scope := hr
  key _ _ _ := rfl
  records _ := .rfl
  index := by
    rintro _ _ (rfl | rfl)
    · exact .rfl
    · exact .rfl

theorem placed_clients (hr : Plain r) : Placed Clients.registry r where
  scope := hr
  key _ _ _ := rfl
  records _ := .rfl
  index := by
    rintro _ _ (rfl | rfl)
    · exact .rfl
    · exact .rfl

theorem empties_records [Storable α] {R : Registry α} {N : String → Prop}
    {U : String → String → Prop} {u : Update Nat} (hplaced : Placed R r)
    (hbacked : ∀ s, Consistent s → R.Backed N s) (hkept : ∀ s, Consistent s → R.Kept U s)
    (hu : u = do
      let records ← Query.records α R.table r
      records.forM fun a => discard (R.index.removeAttributesOf r (R.idOf a))
      let _ ← Update.deletePartition R.table r
      return records.length)
    (htends : ∀ s, Registries.Tended s → Registries.Tends s (u s).2) :
    Empties r R.tables u := by
  intro s hs
  have hindex : ∀ id, Clearable R.index (erasing r) r id := fun id =>
    clearable_scope id fun t key ht => (hplaced.index t key ht).mp
  have hwrites : Update.Writes (erasing r) u := by
    rw [hu]
    refine .bind (Update.writes_query _) fun records => ?_
    refine .bind (AttributeIndex.writes_removeEach hindex records R.idOf) fun _ => ?_
    exact .bind (erases_partition fun key => (hplaced.records key).mp) fun _ => .pure _
  have hwrote := hwrites.wrote s
  have hconsistent := hs.tends (htends s hs.tended)
  have heq := hu ▸ Registry.eraseAll_eq (hkept s hs).holds (hkept s hs).regular.sound r
  rw [heq] at hwrote hconsistent
  dsimp only at hwrote hconsistent
  exact ⟨_, _, heq, hconsistent, hwrote, fun _ => vacant_eraseAll hplaced.key hplaced.scope
    (hbacked _ hconsistent) (hkept _ hconsistent) (fun key => (hplaced.records key).mpr)
    fun t key ht => (hplaced.index t key ht).mpr⟩

theorem empties_users (hr : Plain r) :
    Empties r Users.registry.tables (Users.deleteAll r) :=
  empties_records (placed_users hr) (fun _ hs => hs.tended.users) (fun _ hs => hs.tended.upheld.users)
    rfl fun _ hs => hs.deleteUsers hr

theorem empties_clients (hr : Plain r) :
    Empties r Clients.registry.tables (Clients.deleteAll r) :=
  empties_records (placed_clients hr) (fun _ hs => hs.tended.clients)
    (fun _ hs => hs.tended.upheld.clients) rfl fun _ hs => hs.deleteClients hr

theorem empties_realm (hr : Plain r) :
    Empties r Realms.registry.tables (Realms.delete r) := by
  intro s hs
  have hindex : Clearable .realms (erasing r) Realms.scope r :=
    { forward := fun _ _ hkey => ⟨rfl, hkey⟩
      reverse := fun _ name value => ⟨rfl, name, value, rfl⟩ }
  have hwrites : Update.Writes (erasing r) (Realms.delete r) := by
    refine .bind (Update.writes_delete fun _ => ⟨rfl, rfl⟩) fun removed => ?_
    exact .bind (AttributeIndex.writes_removeAttributesOf hindex) fun _ => .pure removed
  have hwrote := hwrites.wrote s
  have hconsistent := hs.tends (hs.tended.deleteRealm r)
  have hkept := hs.tended.upheld.realms
  obtain ⟨removed, heq⟩ := Registry.erase_eq hkept.holds hkept.regular.sound Realms.scope r
  have heq : Realms.delete r s = (.ok removed, Realms.registry.erase s Realms.scope r) := heq
  rw [heq] at hwrote hconsistent
  dsimp only at hwrote hconsistent
  exact ⟨_, _, heq, hconsistent, hwrote, fun _ =>
    vacant_realm hr hconsistent.tended.realms hconsistent.tended.upheld.realms⟩

theorem empties_partition (ht : t ∈ standaloneTables)
    (hkey : ∀ key : String, (RowKey.lead r).toList <+: key.toList ↔ Belongs r t key) :
    Empties r [t] (Update.deletePartition t r) := by
  intro s hs
  have heq := Update.deletePartition_eq (hs.readable t ht) r
  have hwrote := (erases_partition fun key => (hkey key).mp).wrote s
  have hconsistent := hs.wrote ((standalone_deletePartition ht r).wrote s)
  rw [heq] at hwrote hconsistent
  dsimp only at hwrote hconsistent
  refine ⟨_, _, heq, hconsistent, hwrote, fun u hu => ?_⟩
  obtain rfl := List.mem_singleton.mp hu
  exact vacant_removePartition fun key => (hkey key).mpr

theorem ContainerKind.belongs_iff (k : ContainerKind) (key : String) :
    Belongs r k.table key ↔ key = (RowKey.single r).encode := by
  cases k <;> exact .rfl

theorem clears_container (k : ContainerKind) (r : String) :
    Clears r [k.table] (Work.on (part k) (Coordinator.delete r)) fun _ => True := by
  intro d hd
  have hwrites : Work.Writes (erasing r) (Work.on (part k) (Coordinator.delete r)) :=
    (Coordinator.writes_delete fun _ => ⟨rfl, (ContainerKind.belongs_iff k _).mpr rfl⟩).on _
  have hwrote := hwrites.wrote d
  have hconsistent := (keeps_deleteContainer k r d hd).1
  have heq := UnitOfWork.delete_eq (hd.readable k.table k.standalone) r
  rw [heq] at hwrote hconsistent
  dsimp only at hwrote hconsistent
  refine ⟨_, _, heq, trivial, ⟨hconsistent, hwrote, fun t ht => ?_⟩, fun j hj => ?_⟩
  · obtain rfl := List.mem_singleton.mp ht
    exact vacant_remove fun key => (ContainerKind.belongs_iff k key).mp
  · by_cases hjk : j = k
    · subst hjk
      rw [UnitOfWork.coordinator_set]
      exact StringSet.mem_insert.mpr (.inl rfl)
    · rw [UnitOfWork.coordinator_set_of_ne hjk]
      exact hj.resolve_left fun hmem => ContainerKind.table_ne hjk (List.mem_singleton.mp hmem)

theorem clears_findRealm (r id : String) :
    Clears r [] (Work.on realmsPart (Realms.findById id)) fun _ => True := by
  intro d hd
  have hload := Query.record_eq hd.tended.upheld.realms.holds (Realms.key id)
  have hanswer : ∃ found, (Work.on realmsPart (Realms.findById id) d).1 = .ok found := by
    cases hfind : (Realms.whole.get (realmsPart.get d.held)).find? (.byId id) with
    | some found =>
      let part := { d with held := realmsPart.get d.held }
      exact ⟨found, Work.cached_of_some Realms.whole (d := part) hfind _⟩
    | none => exact ⟨_, (Work.cached_of_none Realms.whole hfind _).trans hload⟩
  obtain ⟨found, hfound⟩ := hanswer
  refine ⟨found, (Work.on realmsPart (Realms.findById id) d).2, Prod.ext hfound rfl, trivial,
    hd.emptied r, ?_⟩
  intro k hk
  have hheld : (Work.on realmsPart (Realms.findById id) d).2.held.coordinator k =
      d.held.coordinator k := by
    cases k <;> rfl
  rw [hheld]
  exact hk.resolve_left List.not_mem_nil

def realmTables : List Table :=
  sessionTables ++ ([.authSessions] ++ ([.loginFailures] ++ (Users.registry.tables ++
    (Clients.registry.tables ++ ([.realmRoles] ++ ([.realmGroups] ++ ([.realmClientScopes] ++
      (Realms.registry.tables ++ []))))))))

theorem mem_realmTables (h : t ≠ .singleUseObjects) : t ∈ realmTables := by
  cases t with
  | singleUseObjects => exact absurd rfl h
  | _ => decide

theorem clears_removeAttempts (r : String) :
    Clears r [.authSessions] (liftM (LoginAttempts.removeAll r)) fun _ => True :=
  clears_update (empties_partition (by decide) fun _ => .rfl) (by decide)

theorem clears_removeFailures (r : String) :
    Clears r [.loginFailures] (liftM (LoginFailures.removeAll r)) fun _ => True :=
  clears_update (empties_partition (by decide) fun _ => .rfl) (by decide)

section Records

variable (hr : Plain r)
include hr

theorem clears_removeSessions :
    Clears r sessionTables (Work.on userSessionsPart (UserSessions.removeAll r)) fun _ => True :=
  clears_on (empties_sessions hr) (by decide) ((Work.acts_update _).after _) fun k _ _ => by
    cases k <;> rfl

theorem clears_removeUsers :
    Clears r Users.registry.tables (Work.on usersPart (Users.removeAll r)) fun _ => True :=
  clears_on (empties_users hr) (by decide) ((Work.acts_update _).after _) fun k _ _ => by
    cases k <;> rfl

theorem clears_removeClients :
    Clears r Clients.registry.tables (Work.on clientsPart (Clients.removeAll r)) fun _ => True :=
  clears_on (empties_clients hr) (by decide) ((Work.acts_update _).after _) fun k _ _ => by
    cases k <;> rfl

theorem clears_removeRealmRecord :
    Clears r Realms.registry.tables (Work.on realmsPart (Realms.remove r)) fun _ => True :=
  clears_on (empties_realm hr) (by decide) ((Work.acts_update _).after _) fun k _ _ => by
    cases k <;> rfl

end Records

theorem cleared_removeRealm (hr : Plain r) (h : Consistent d.rows) :
    ∃ found, (Work.on realmsPart (Realms.findById r) d).1 = .ok found ∧
      ∃ d', removeRealm r d = (.ok found.isSome, d') ∧
        (found.isSome = true → Cleared r realmTables d d') := by
  obtain ⟨found, d', heq, -, hfound⟩ := clears_findRealm r r d h
  refine ⟨found, by rw [heq], ?_⟩
  rw [removeRealm, Work.bind_of_ok heq]
  cases found with
  | none => exact ⟨d', rfl, fun hdone => absurd hdone Bool.false_ne_true⟩
  | some realm =>
    suffices hrest : Clears r realmTables _ (· = true) by
      obtain ⟨done, d'', heq', rfl, hcleared⟩ := hrest d' hfound.emptied.consistent
      exact ⟨d'', heq', fun _ => hfound.trans hcleared⟩
    refine .bind (clears_removeSessions hr) fun _ _ => ?_
    refine .bind (clears_removeAttempts r) fun _ _ => ?_
    refine .bind (clears_removeFailures r) fun _ _ => ?_
    refine .bind (clears_removeUsers hr) fun _ _ => ?_
    refine .bind (clears_removeClients hr) fun _ _ => ?_
    refine .bind (clears_container .roles r) fun _ _ => ?_
    refine .bind (clears_container .groups r) fun _ _ => ?_
    refine .bind (clears_container .clientScopes r) fun _ _ => ?_
    exact .bind (clears_removeRealmRecord hr) fun _ _ => clears_pure rfl

theorem puts_sparing {tenant : String} (h : tenant ≠ r) (k : ContainerKind) :
    Container.Puts k (sparing r) tenant := fun _ _ _ hkey =>
  h (Coordinator.encode_key_inj ((ContainerKind.belongs_iff k _).mp hkey))

theorem Cleared.wrote_commit (h : Cleared r realmTables d d') (s : RowStore) :
    RowStore.Wrote (sparing r) s (commit { d' with rows := s }).2.rows := by
  refine UnitOfWork.wrote_commit (d := { d' with rows := s }) fun k => ?_
  refine Coordinator.puts_of_container fun tenant htenant => puts_sparing ?_ k
  rintro rfl
  exact htenant (h.dropped k (.inl (mem_realmTables (by cases k <;> decide))))

/-- Nothing of the realm is seen any more and nothing else is lost, and a commit writes no row of the
realm, whatever has been written meanwhile. -/
structure Gone (r : String) (unit : Nat) (w w' : World) : Prop where
  vacant : ∀ t, Vacant r t w'.rows
  others : ∀ t key, ¬ Belongs r t key → (w'.rows.table t).get? key = (w.rows.table t).get? key
  realms : ∀ other, Plain other → other ≠ r → ∀ t key, Belongs other t key →
    (w'.rows.table t).get? key = (w.rows.table t).get? key
  tokens : w'.rows.table .singleUseObjects = w.rows.table .singleUseObjects
  spared : ∀ s t key, Belongs r t key →
    ((commit { w'.desk unit with rows := s }).2.rows.table t).get? key = (s.table t).get? key
  committed : ∀ t, Vacant r t (w'.call unit commit).rows

theorem Cleared.gone {w : World} {unit : Nat} (hr : Plain r)
    (h : Cleared r realmTables (w.desk unit) d) : Gone r unit w (w.afterDesk unit d) := by
  have hdesk := w.desk_afterDesk unit d
  have hvacant : ∀ t, Vacant r t d.rows := by
    intro t
    by_cases ht : t = .singleUseObjects
    · exact ht ▸ vacant_tokens
    · exact h.emptied.vacant t (mem_realmTables ht)
  have hothers : ∀ t key, ¬ Belongs r t key →
      (d.rows.table t).get? key = (w.rows.table t).get? key :=
    fun t key hnot => (h.emptied.wrote.cells t key).resolve_right fun herased => hnot herased.2
  constructor
  · exact hvacant
  · exact hothers
  · exact fun other hother hne t key hkey =>
      hothers t key fun hbelongs => hne (hkey.realm_eq hbelongs hother hr)
  · exact StringMap.ext_get? fun key => hothers .singleUseObjects key fun hbelongs => hbelongs.elim
  · intro s t key hkey
    rw [hdesk]
    exact ((h.wrote_commit s).cells t key).resolve_right fun hnot => hnot hkey
  · intro t
    rw [World.call, hdesk]
    exact (hvacant t).spared (h.wrote_commit d.rows)

/-- After any run, the removal of a realm answers whether the unit of work finds the realm, and where it
does nothing of the realm is left. -/
theorem removed_realm_gone (linearizable caching : Bool) (start : Int) (draws : Draws)
    (events : List (World.Event Operation))
    (hproper : Proper (World.opened linearizable caching start draws) events) (w : World)
    (hrun : w = (World.opened linearizable caching start draws).run Operation.perform events)
    (unit : Nat) (r : String) (hr : Plain r) :
    ∃ found, w.resultOf unit (Work.on realmsPart (Realms.findById r)) = .ok found ∧
      w.resultOf unit (removeRealm r) = .ok found.isSome ∧
      (found.isSome = true → Gone r unit w (w.call unit (removeRealm r))) := by
  have hconsistent : Consistent w.rows := hrun ▸ (consistent_empty start).run hproper
  obtain ⟨found, hfound, d, heq, hcleared⟩ := cleared_removeRealm (d := w.desk unit) hr hconsistent
  refine ⟨found, hfound, ?_, fun hdone => ?_⟩
  · rw [World.resultOf, heq]
  · rw [World.call, heq]
    exact (hcleared hdone).gone hr

theorem removed_realm_gone_after_edits : ∃ (events : List (World.Event Operation)) (w : World),
    w = (World.opened true true 0 { value := id }).run Operation.perform events ∧
      Proper (World.opened true true 0 { value := id }) events ∧
      (∀ t ∈ .singleUseObjects :: realmTables, (w.rows.table t).entries ≠ []) ∧
      (∀ k, ((w.units 1).coordinator k).pendingWrites = ["r"]) ∧
      w.resultOf 1 (removeRealm "r") = .ok true ∧ Gone "r" 1 w (w.call 1 (removeRealm "r")) := by
  let realm : Realm := { id := "r" }
  let user := Identifier.hyphenated 1
  let client : Client := { realmId := "r", id := Identifier.hyphenated 0 }
  let session : UserSession := { id := "s", userId := user }
  let attempt := (LoginAttempts.Request.standalone realm (.createRoot (some "l"))).on nothing
  let failure := (LoginFailures.Request.record user none).standalone "r"
  let token := (Tokens.operations_standalone "t").1 60 ∅
  let addRole := fun name =>
    Operation.ofStandalone (standalone_edit ((Roles.operations_editing "r").2.1 name))
  let addGroup := fun name =>
    Operation.ofStandalone (standalone_edit ((Groups.operations_editing "r").1 name none))
  let addScope := fun name =>
    Operation.ofStandalone (standalone_edit ((ClientScopes.operations_editing "r").1 name none))
  let events : List (World.Event Operation) :=
    [.call 0 (.registry (.createRealm (some "q") "q")),
      .call 0 (.registry (.createRealm (some "r") "r")),
      .call 0 (.registry (.createClient "r" "app")),
      .call 0 (.registry (.createUser realm "ann")),
      .call 0 (.session (.create realm session)),
      .call 0 (.session (.attach realm client "s" false)),
      .call 0 (.session (.createOfflineCopy realm session)),
      .call 0 (.ofStandalone attempt), .call 0 (.ofStandalone (Work.writes_update failure)),
      .call 0 (.ofStandalone (Work.writes_update token)),
      .call 0 (addRole "admin"), .call 0 (addGroup "staff"), .call 0 (addScope "mail"),
      .call 0 (.ofStandalone standalone_commit),
      .call 1 (addRole "dropped"), .call 1 (.ofStandalone standalone_abort),
      .call 1 (addRole "guest"), .call 1 (addGroup "crew"), .call 1 (addScope "post")]
  have hproper : Proper (World.opened true true 0 { value := id }) events := by decide +kernel
  obtain ⟨w, hw⟩ : ∃ w, w = (World.opened true true 0 { value := id }).run Operation.perform events :=
    ⟨_, rfl⟩
  obtain ⟨found, -, hdone, hgone⟩ :=
    removed_realm_gone true true 0 { value := id } events hproper w hw 1 "r" (by decide)
  have hrun : (∀ t ∈ .singleUseObjects :: realmTables, (w.rows.table t).entries ≠ []) ∧
      ((w.units 1).coordinator .roles).pendingWrites = ["r"] ∧
      ((w.units 1).coordinator .groups).pendingWrites = ["r"] ∧
      ((w.units 1).coordinator .clientScopes).pendingWrites = ["r"] ∧
      w.resultOf 1 (removeRealm "r") = .ok true := by
    rw [hw]
    decide +kernel
  obtain ⟨hrows, hroles, hgroups, hscopes, hremoved⟩ := hrun
  have hfound : found.isSome = true := Except.ok.inj (hdone.symm.trans hremoved)
  refine ⟨events, w, hw, hproper, hrows, fun k => ?_, hremoved, hgone hfound⟩
  cases k with
  | roles => exact hroles
  | groups => exact hgroups
  | clientScopes => exact hscopes

/-- Where the id of a user is not what it should be, a row stays behind. -/
theorem row_left_of_removed_realm : ∃ (events : List (World.Event Registries.Operation)) (w : World),
    w = (World.opened true true 0 { value := id }).run Registries.Operation.perform events ∧
      Registries.Proper (World.opened true true 0 { value := id }) events ∧
      w.resultOf 0 (removeRealm "r") = .ok true ∧
      ∃ key, Belongs "r" .attributeUsers key ∧
        ((w.call 0 (removeRealm "r")).rows.seen .attributeUsers key w.rows.now).isSome := by
  let user := Identifier.hyphenated 0
  let events : List (World.Event Registries.Operation) :=
    [.call 0 (.createRealm (some "r") "r"), .call 0 (.createUser { id := "r" } "ann"),
      .call 0 (.setAttribute "r" user "x\x00y" ["v"]),
      .call 0 (.removeAttribute "r" (user ++ "\x00x") "y")]
  refine ⟨events, _, rfl, by decide +kernel, by decide +kernel, _,
    AttributeIndex.scoped_reverseKey "r" user "x\x00y" "v", by decide +kernel⟩

end IdentityDirectory.Directory
