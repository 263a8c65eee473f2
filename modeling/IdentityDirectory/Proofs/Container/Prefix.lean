import IdentityDirectory.Proofs.Container.Commit
import Mathlib.Data.List.Nodup
import Mathlib.Data.List.TakeWhile

/-!
How far a commit gets. It writes the changed containers back in one pass over all kinds, up to the
first whose row has another version than was loaded. Main statements: a commit is this pass
(`commit_eq_writeEach`), and what is in the store and held after it (`commit_writes_prefix`).
-/

namespace IdentityDirectory

/-- A changed container that a unit of work has not written back. -/
structure PendingWrite where
  kind : ContainerKind
  tenant : String
  container : Loaded (Container kind)

namespace PendingWrite

section Definitions

variable (w : PendingWrite) (s : RowStore)

def name : ContainerKind × String := (w.kind, w.tenant)

def key : String := (Coordinator.key w.tenant).encode

def row : Option Row := s.containerRow w.kind w.tenant

def Readable : Prop := s.ReadableAt w.kind.table w.key

instance : Decidable (w.Readable s) := inferInstanceAs (Decidable (_ ≠ _))

/-- The row still has the live version that was observed when the container was loaded. -/
def Unmoved : Prop := w.container.Fits ((w.row s).filter (·.isLive s.now))

instance : Decidable (w.Unmoved s) := inferInstanceAs (Decidable (w.container.Fits _))

/-- Units of work that do not check versions write over any row. -/
def Admitted (linearizable : Bool) : Prop := linearizable = true → w.Unmoved s

instance (linearizable : Bool) : Decidable (w.Admitted s linearizable) :=
  inferInstanceAs (Decidable (_ → _))

def apply : RowStore := s.writeContainer w.tenant w.container

def refusal : StoreError := .concurrentModification w.kind w.tenant

def writeEach (linearizable : Bool) :
    List PendingWrite → RowStore → Except StoreError Unit × RowStore
  | [], s => (.ok (), s)
  | w :: rest, s =>
    if w.Admitted s linearizable then writeEach linearizable rest (w.apply s)
    else (.error w.refusal, s)

end Definitions

variable {w v : PendingWrite} {ws vs : List PendingWrite} {s s' : RowStore} {linearizable : Bool}

theorem name_eq_iff : v.name = w.name ↔ v.kind.table = w.kind.table ∧ v.key = w.key := by
  constructor
  · intro h
    obtain ⟨hkind, htenant⟩ := Prod.mk.inj h
    exact ⟨congrArg ContainerKind.table hkind,
      congrArg (fun t => (Coordinator.key t).encode) htenant⟩
  · rintro ⟨htable, hkey⟩
    have hkind : v.kind = w.kind :=
      Decidable.byContradiction fun hne => ContainerKind.table_ne hne htable
    exact Prod.ext hkind (Coordinator.encode_key_inj hkey)

theorem now_apply : (w.apply s).now = s.now := rfl

theorem get?_apply (t : Table) (key : String) : ((w.apply s).table t).get? key =
    if t = w.kind.table ∧ key = w.key then some (.row (w.container.rowOver (w.row s)))
    else (s.table t).get? key := by
  rw [apply, RowStore.writeContainer, RowStore.write, RowStore.table_replaceRow,
    RowStore.successor_eq_rowOver]
  by_cases ht : t = w.kind.table
  · subst ht
    rw [if_pos rfl, StringMap.get?_insert]
    simp only [true_and]
    rfl
  · rw [if_neg ht, if_neg fun h => ht h.1]

theorem get?_apply_of_ne (h : v.name ≠ w.name) :
    ((w.apply s).table v.kind.table).get? v.key = (s.table v.kind.table).get? v.key := by
  rw [get?_apply, if_neg (mt name_eq_iff.mpr h)]

theorem row_apply_of_ne (h : v.name ≠ w.name) : v.row (w.apply s) = v.row s :=
  congrArg (·.bind Cell.row?) (get?_apply_of_ne h)

theorem admitted_apply_of_ne (h : v.name ≠ w.name) :
    v.Admitted (w.apply s) linearizable ↔ v.Admitted s linearizable := by
  rw [Admitted, Admitted, Unmoved, Unmoved, row_apply_of_ne h, now_apply]

theorem Readable.apply (h : v.Readable s) : v.Readable (w.apply s) := by
  rw [Readable, RowStore.ReadableAt, get?_apply]
  split
  · simp
  · exact h

theorem writeEach_append (ws vs : List PendingWrite) (s : RowStore) :
    writeEach linearizable (ws ++ vs) s =
      match writeEach linearizable ws s with
      | (.ok (), s') => writeEach linearizable vs s'
      | (.error e, s') => (.error e, s') := by
  induction ws generalizing s with
  | nil => rfl
  | cons w ws ih =>
    rw [List.cons_append, writeEach, writeEach]
    split
    · exact ih (w.apply s)
    · rfl

theorem writeEach_eq (hnodup : (ws.map name).Nodup)
    (hsame : ∀ w ∈ ws, w.Admitted s' linearizable ↔ w.Admitted s linearizable) :
    writeEach linearizable ws s' =
      (match ws.dropWhile (·.Admitted s linearizable) with
        | [] => .ok ()
        | w :: _ => .error w.refusal,
      (ws.takeWhile (·.Admitted s linearizable)).foldl (fun s w => w.apply s) s') := by
  induction ws generalizing s' with
  | nil => rfl
  | cons w ws ih =>
    obtain ⟨hne, hnodup⟩ := List.nodup_cons.mp hnodup
    have hfirst := hsame w List.mem_cons_self
    rw [writeEach, List.dropWhile_cons, List.takeWhile_cons]
    by_cases hw : w.Admitted s linearizable
    · have hlater : ∀ v ∈ ws, v.Admitted (w.apply s') linearizable ↔ v.Admitted s linearizable := by
        intro v hv
        rw [← hsame v (List.mem_cons_of_mem w hv)]
        apply admitted_apply_of_ne
        intro heq
        exact hne (heq ▸ List.mem_map_of_mem hv)
      rw [if_pos (hfirst.mpr hw), if_pos (decide_eq_true hw), if_pos (decide_eq_true hw)]
      exact ih hnodup hlater
    · rw [if_neg (mt hfirst.mp hw), if_neg (by simpa using hw), if_neg (by simpa using hw)]
      rfl

theorem Readable.writeEach (h : v.Readable s) (ws : List PendingWrite) :
    v.Readable (PendingWrite.writeEach linearizable ws s).2 := by
  induction ws generalizing s with
  | nil => exact h
  | cons w ws ih =>
    rw [PendingWrite.writeEach]
    split
    · exact ih h.apply
    · exact h

theorem get?_foldl_apply_of_notMem {t : Table} {key : String}
    (h : ∀ w ∈ ws, ¬ (t = w.kind.table ∧ key = w.key)) :
    ((ws.foldl (fun s w => w.apply s) s).table t).get? key = (s.table t).get? key := by
  induction ws generalizing s with
  | nil => rfl
  | cons w ws ih =>
    rw [List.foldl_cons, ih fun v hv => h v (List.mem_cons_of_mem w hv), get?_apply,
      if_neg (h w List.mem_cons_self)]

theorem get?_foldl_apply_of_mem (hnodup : (ws.map name).Nodup) (hw : w ∈ ws) :
    ((ws.foldl (fun s w => w.apply s) s).table w.kind.table).get? w.key =
      some (.row (w.container.rowOver (w.row s))) := by
  induction ws generalizing s with
  | nil => cases hw
  | cons v ws ih =>
    obtain ⟨hne, hnodup⟩ := List.nodup_cons.mp hnodup
    rw [List.foldl_cons]
    rcases List.mem_cons.mp hw with rfl | hw
    · rw [get?_foldl_apply_of_notMem, get?_apply, if_pos ⟨rfl, rfl⟩]
      intro v hv hsame
      exact hne (name_eq_iff.mpr hsame ▸ List.mem_map_of_mem hv)
    · have hother : w.name ≠ v.name := fun heq => hne (heq ▸ List.mem_map_of_mem hw)
      rw [ih hnodup hw, row_apply_of_ne hother]

theorem writeEach_written (hnodup : (ws.map name).Nodup)
    (hok : (writeEach linearizable ws s).1 = .ok ()) (hw : w ∈ ws) :
    ((writeEach linearizable ws s).2.table w.kind.table).get? w.key =
      some (.row (w.container.rowOver (w.row s))) := by
  rw [writeEach_eq hnodup fun _ _ => Iff.rfl] at hok ⊢
  have hall : ws.dropWhile (·.Admitted s linearizable) = [] := by
    cases hrest : ws.dropWhile (·.Admitted s linearizable) with
    | nil => rfl
    | cons v rest =>
      rw [hrest] at hok
      cases hok
  rw [List.takeWhile_eq_self_iff.mpr (List.dropWhile_eq_nil_iff.mp hall)]
  exact get?_foldl_apply_of_mem hnodup hw

end PendingWrite

namespace Coordinator

variable {k : ContainerKind} {tenant : String} {d : Desk (Coordinator (Container k))}

section PutBack

variable {s : RowStore} {x : Loaded (Container k)} {linearizable : Bool}

theorem putIfVersion_of_readableAt (h : s.ReadableAt k.table (key tenant).encode) :
    ∃ version current,
      Update.putIfVersion (Aggregate.table (Container k)) (key tenant) x.value x.version s =
        if (PendingWrite.mk k tenant x).Unmoved s then
          (.ok (.applied version), s.writeContainer tenant x)
        else (.ok (.rejected current), s) := by
  have hput := h.putIfVersion_eq (key tenant) (Storable.payload x.value) none x.version
  have hiff : ((s.rowAt k.table (key tenant).encode).filter (·.isLive s.now)).map (·.version) =
      x.version ↔ (PendingWrite.mk k tenant x).Unmoved s := eq_comm
  by_cases hunmoved : (PendingWrite.mk k tenant x).Unmoved s
  · rw [if_pos (hiff.mpr hunmoved)] at hput
    exact ⟨_, none, (Update.ofRows_of_ok hput).trans (if_pos hunmoved).symm⟩
  · rw [if_neg (mt hiff.mp hunmoved)] at hput
    exact ⟨0, _, (Update.ofRows_of_ok hput).trans (if_neg hunmoved).symm⟩

theorem putBack_of_admitted (h : s.ReadableAt k.table (key tenant).encode)
    (hadmitted : (PendingWrite.mk k tenant x).Admitted s linearizable) :
    ∃ version, putBack linearizable tenant x s = (.ok version, s.writeContainer tenant x) := by
  cases linearizable with
  | false =>
    have hput : Update.put k.table (key tenant) x.value none s =
        (.ok _, s.writeContainer tenant x) :=
      Update.ofRows_of_ok (h.put_eq (key tenant) (Storable.payload x.value) none)
    exact ⟨_, hput⟩
  | true =>
    obtain ⟨version, current, hput⟩ := putIfVersion_of_readableAt (x := x) h
    rw [if_pos (hadmitted rfl)] at hput
    refine ⟨version, ?_⟩
    rw [putBack, if_pos rfl, Update.bind_of_ok hput]
    rfl

theorem putBack_of_not_admitted (h : s.ReadableAt k.table (key tenant).encode)
    (hrefused : ¬ (PendingWrite.mk k tenant x).Admitted s linearizable) :
    putBack linearizable tenant x s = (.error (.concurrentModification k tenant), s) := by
  cases linearizable with
  | false => exact absurd (fun hlin => nomatch hlin) hrefused
  | true =>
    obtain ⟨version, current, hput⟩ := putIfVersion_of_readableAt (x := x) h
    rw [if_neg fun hunmoved => hrefused fun _ => hunmoved] at hput
    rw [putBack, if_pos rfl, Update.bind_of_ok hput, k.kind_eq]
    rfl

end PutBack

def pendingOf (c : Coordinator (Container k)) (tenants : List String) : List PendingWrite :=
  tenants.filterMap fun tenant => (c.pending? tenant).map (PendingWrite.mk k tenant)

theorem linearizable_writeBack (tenant : String) :
    (writeBack tenant d).2.held.linearizable = d.held.linearizable := by
  cases hpending : d.held.pending? tenant with
  | none => rw [writeBack_of_none hpending]
  | some x =>
    cases hput : putBack d.held.linearizable tenant x d.rows with
    | mk result s' =>
      cases result with
      | ok version =>
        rw [(writeBack_of_some hpending).1 version s' hput]
        rfl
      | error e => rw [(writeBack_of_some hpending).2 e s' hput]

theorem linearizable_countTrue (tenants : List String) :
    (Work.countTrue writeBack tenants d).2.held.linearizable = d.held.linearizable := by
  induction tenants generalizing d with
  | nil => rfl
  | cons tenant tenants ih =>
    have hfirst := linearizable_writeBack (d := d) tenant
    cases hd : writeBack tenant d with
    | mk result d' =>
      rw [hd] at hfirst
      cases result with
      | ok done => rw [(countTrue_of_ok hd).2, ih, hfirst]
      | error e => rw [Work.countTrue, Work.bind_of_error hd, hfirst]

theorem countTrue_eq_writeEach {tenants : List String} (hnodup : tenants.Nodup)
    (h : ∀ w ∈ pendingOf d.held tenants, w.Readable d.rows) :
    ((Work.countTrue writeBack tenants d).1.map fun _ => (),
        (Work.countTrue writeBack tenants d).2.rows) =
      PendingWrite.writeEach d.held.linearizable (pendingOf d.held tenants) d.rows := by
  induction tenants generalizing d with
  | nil => rfl
  | cons tenant tenants ih =>
    obtain ⟨hnotMem, hnodup⟩ := List.nodup_cons.mp hnodup
    cases hpending : d.held.pending? tenant with
    | none =>
      have hskip : pendingOf d.held (tenant :: tenants) = pendingOf d.held tenants := by
        rw [pendingOf, List.filterMap_cons_none (by rw [hpending]; rfl)]
        rfl
      obtain ⟨hresult, hdesk⟩ := countTrue_of_ok (l := tenants) (writeBack_of_none hpending)
      rw [hskip] at h ⊢
      rw [hresult, hdesk]
      exact ih hnodup h
    | some x =>
      let w : PendingWrite := ⟨k, tenant, x⟩
      have hcons : pendingOf d.held (tenant :: tenants) = w :: pendingOf d.held tenants := by
        rw [pendingOf, List.filterMap_cons_some (by rw [hpending]; rfl)]
        rfl
      rw [hcons] at h ⊢
      have hreadable := h w List.mem_cons_self
      rw [PendingWrite.writeEach]
      by_cases hadmitted : w.Admitted d.rows d.held.linearizable
      · obtain ⟨version, hput⟩ := putBack_of_admitted hreadable hadmitted
        have hwrite := (writeBack_of_some hpending).1 version _ hput
        obtain ⟨hresult, hdesk⟩ := countTrue_of_ok (l := tenants) hwrite
        -- What is pending for the other tenants is not changed by noting the version written.
        have hlater : pendingOf (d.held.settle tenant x version) tenants =
            pendingOf d.held tenants := by
          apply List.filterMap_congr
          intro tenant' hmem
          have hne : tenant' ≠ tenant := fun heq => hnotMem (heq ▸ hmem)
          rw [pending?_settle_of_ne hne]
        have hreadable' : ∀ v ∈ pendingOf (d.held.settle tenant x version) tenants,
            v.Readable (w.apply d.rows) := by
          rw [hlater]
          exact fun v hv => (h v (List.mem_cons_of_mem w hv)).apply
        have hrest := ih (d := { d with
          rows := w.apply d.rows, held := d.held.settle tenant x version }) hnodup hreadable'
        rw [if_pos hadmitted, hresult, hdesk, ← hlater]
        exact hrest
      · have hput := putBack_of_not_admitted hreadable hadmitted
        have hwrite := (writeBack_of_some hpending).2 _ _ hput
        rw [if_neg hadmitted, Work.countTrue, Work.bind_of_error hwrite]
        rfl

end Coordinator

namespace UnitOfWork

variable {d : Desk UnitOfWork} {k j : ContainerKind} {kinds : List ContainerKind}
  {linearizable : Bool}

def pendingOfKind (u : UnitOfWork) (k : ContainerKind) : List PendingWrite :=
  (u.coordinator k).pendingWrites.filterMap fun tenant =>
    ((u.coordinator k).loaded.get? tenant).map (PendingWrite.mk k tenant)

def pendingWrites (u : UnitOfWork) : List PendingWrite := allKinds.flatMap u.pendingOfKind

theorem pendingOfKind_eq (u : UnitOfWork) (k : ContainerKind) :
    u.pendingOfKind k = (u.coordinator k).pendingOf (u.coordinator k).changed.toList := by
  rw [pendingOfKind, Coordinator.pendingWrites, List.filterMap_filter, Coordinator.pendingOf]
  apply List.filterMap_congr
  intro tenant _
  rw [Coordinator.pending?]
  by_cases hdeleted : tenant ∈ (u.coordinator k).deleted
  · simp [hdeleted]
  · cases hloaded : (u.coordinator k).loaded.get? tenant with
    | none => simp [hdeleted]
    | some x => simp [hdeleted, StringMap.mem_iff, hloaded]

theorem map_name_pendingOfKind (u : UnitOfWork) (k : ContainerKind) :
    (u.pendingOfKind k).map (·.name) =
      (u.coordinator k).pendingWrites.map fun tenant => (k, tenant) := by
  rw [pendingOfKind, List.map_filterMap, List.filterMap_eq_map_iff_forall_eq_some]
  intro tenant hmem
  have hloaded : tenant ∈ (u.coordinator k).loaded := by
    have hfilter := (List.mem_filter.mp hmem).2
    simp only [Bool.and_eq_true, decide_eq_true_eq] at hfilter
    exact hfilter.2
  obtain ⟨x, hx⟩ := Option.isSome_iff_exists.mp (StringMap.mem_iff.mp hloaded)
  rw [hx]
  rfl

theorem nodup_map_name_pendingOfKind (u : UnitOfWork) (k : ContainerKind) :
    ((u.pendingOfKind k).map (·.name)).Nodup := by
  have hnodup : (u.coordinator k).changed.toList.Nodup := (u.coordinator k).changed.entries_nodup
  rw [map_name_pendingOfKind]
  exact (hnodup.filter _).map fun _ _ h => (Prod.mk.inj h).2

theorem nodup_map_name_pendingWrites (u : UnitOfWork) : (u.pendingWrites.map (·.name)).Nodup := by
  rw [pendingWrites, List.map_flatMap]
  apply List.nodup_flatMap.mpr
  constructor
  · exact fun k _ => nodup_map_name_pendingOfKind u k
  · simp only [map_name_pendingOfKind]
    have hkinds : allKinds.Pairwise (· ≠ ·) := by decide
    apply hkinds.imp
    intro k j hne w hk hj
    obtain ⟨_, -, rfl⟩ := List.mem_map.mp hk
    obtain ⟨_, -, heq⟩ := List.mem_map.mp hj
    exact hne (Prod.mk.inj heq).1.symm

theorem completing_eq_writeEach (h : ∀ w ∈ d.held.pendingOfKind k, w.Readable d.rows) :
    ((completing (part k) d).1, (completing (part k) d).2.rows) =
      PendingWrite.writeEach (d.held.coordinator k).linearizable (d.held.pendingOfKind k) d.rows := by
  have hnodup : (d.held.coordinator k).changed.toList.Nodup :=
    (d.held.coordinator k).changed.entries_nodup
  rw [pendingOfKind_eq] at h ⊢
  have hflush := Coordinator.countTrue_eq_writeEach
    (d := { d with held := { d.held.coordinator k with changed := ∅ } }) hnodup h
  cases hd : Coordinator.flush { d with held := d.held.coordinator k } with
  | mk flushed e =>
    rw [show Work.countTrue Coordinator.writeBack _ _ = _ from hd] at hflush
    rw [completing_eq hd]
    exact hflush

theorem coordinator_completing (d : Desk UnitOfWork) (k j : ContainerKind) :
    (completing (part k) d).2.held.coordinator j =
      if j = k then (d.held.coordinator j).closed else d.held.coordinator j := by
  cases hd : Coordinator.flush { d with held := d.held.coordinator k } with
  | mk flushed e =>
    have hflag : e.held.linearizable = (d.held.coordinator k).linearizable := by
      have hkept := Coordinator.linearizable_countTrue
        (d := { d with held := { d.held.coordinator k with changed := ∅ } })
        (d.held.coordinator k).changed.toList
      rw [show Work.countTrue Coordinator.writeBack _ _ = _ from hd] at hkept
      exact hkept
    rw [completing_eq hd]
    split
    · next heq =>
      subst heq
      rw [coordinator_set, Coordinator.closed, hflag]
      rfl
    · next hne => exact coordinator_set_of_ne hne _ _

theorem completions_eq_writeEach (hnodup : kinds.Nodup)
    (hflags : ∀ k ∈ kinds, (d.held.coordinator k).linearizable = linearizable)
    (h : ∀ w ∈ kinds.flatMap d.held.pendingOfKind, w.Readable d.rows) :
    let completed := (kinds.forM fun k => completing (part k) : Work UnitOfWork Unit) d
    (completed.1, completed.2.rows) =
      PendingWrite.writeEach linearizable (kinds.flatMap d.held.pendingOfKind) d.rows := by
  induction kinds generalizing d with
  | nil => rfl
  | cons k kinds ih =>
    obtain ⟨hk, hnodup⟩ := List.nodup_cons.mp hnodup
    rw [List.flatMap_cons] at h ⊢
    have hfirst := completing_eq_writeEach fun w hw => h w (List.mem_append_left _ hw)
    have hcoordinator := coordinator_completing d k
    rw [hflags k List.mem_cons_self] at hfirst
    rw [PendingWrite.writeEach_append, ← hfirst,
      show (k :: kinds).forM (fun k => completing (part k)) =
        (completing (part k) >>= fun _ => kinds.forM fun k => completing (part k)) from rfl]
    cases hd : completing (part k) d with
    | mk result d' =>
      cases result with
      | error e =>
        rw [Work.bind_of_error hd]
      | ok _ =>
        rw [Work.bind_of_ok hd]
        rw [hd] at hcoordinator hfirst
        have hkept : ∀ j ∈ kinds, d'.held.coordinator j = d.held.coordinator j := by
          intro j hj
          have hne : j ≠ k := fun heq => hk (heq ▸ hj)
          rw [hcoordinator j, if_neg hne]
        have hsame : kinds.flatMap d'.held.pendingOfKind = kinds.flatMap d.held.pendingOfKind := by
          apply List.flatMap_congr
          intro j hj
          rw [pendingOfKind, pendingOfKind, hkept j hj]
        have hrest := ih (d := d') hnodup
        rw [hsame] at hrest
        apply hrest
        · intro j hj
          rw [hkept j hj]
          exact hflags j (List.mem_cons_of_mem k hj)
        · intro w hw
          rw [show d'.rows = _ from congrArg Prod.snd hfirst]
          exact (h w (List.mem_append_right _ hw)).writeEach _

theorem coordinator_completions (hnodup : kinds.Nodup) (d : Desk UnitOfWork) (j : ContainerKind) :
    let completed := (kinds.forM fun k => completing (part k) : Work UnitOfWork Unit) d
    (completed.2.held.coordinator j = d.held.coordinator j ∨
        completed.2.held.coordinator j = (d.held.coordinator j).closed) ∧
      (completed.1 = .ok () → j ∈ kinds →
        completed.2.held.coordinator j = (d.held.coordinator j).closed) := by
  induction kinds generalizing d with
  | nil => exact ⟨.inl rfl, fun _ hmem => absurd hmem List.not_mem_nil⟩
  | cons k kinds ih =>
    obtain ⟨hk, hnodup⟩ := List.nodup_cons.mp hnodup
    have hfirst := coordinator_completing d k j
    rw [show (k :: kinds).forM (fun k => completing (part k)) =
      (completing (part k) >>= fun _ => kinds.forM fun k => completing (part k)) from rfl]
    cases hd : completing (part k) d with
    | mk result d' =>
      rw [hd] at hfirst
      cases result with
      | error e =>
        rw [Work.bind_of_error hd]
        refine ⟨?_, fun hok => nomatch hok⟩
        rw [hfirst]
        split
        · exact .inr rfl
        · exact .inl rfl
      | ok _ =>
        obtain ⟨hrest, hdone⟩ := ih hnodup d'
        rw [Work.bind_of_ok hd]
        by_cases hj : j = k
        · -- Once closed, a coordinator stays as it is.
          rw [if_pos hj] at hfirst
          have hagain : (d.held.coordinator j).closed.closed = (d.held.coordinator j).closed := rfl
          rw [hfirst, hagain, or_self] at hrest
          exact ⟨.inr hrest, fun _ _ => hrest⟩
        · rw [if_neg hj] at hfirst
          rw [hfirst] at hrest hdone
          exact ⟨hrest, fun hok hmem => hdone hok ((List.mem_cons.mp hmem).resolve_left hj)⟩

theorem coordinator_commit (d : Desk UnitOfWork) (k : ContainerKind) :
    (commit d).2.held.coordinator k = (d.held.coordinator k).closed := by
  have hnodup : allKinds.Nodup := by decide
  obtain ⟨hcases, hdone⟩ := coordinator_completions hnodup d k
  rcases commit_cases d with ⟨hok, heq⟩ | ⟨e, -, heq⟩
  · rw [heq]
    exact hdone hok (mem_allKinds k)
  · rw [heq, (abort_spec _).2 k]
    rcases hcases with hsame | hclosed
    · rw [hsame]
    · rw [hclosed]
      rfl

theorem commit_eq_writeEach (hflags : ∀ k, (d.held.coordinator k).linearizable = linearizable)
    (h : ∀ w ∈ d.held.pendingWrites, w.Readable d.rows) : ((commit d).1, (commit d).2.rows) =
      PendingWrite.writeEach linearizable d.held.pendingWrites d.rows := by
  have hnodup : allKinds.Nodup := by decide
  have hcompleted := completions_eq_writeEach hnodup (fun k _ => hflags k) h
  rw [pendingWrites, ← hcompleted]
  rcases commit_cases d with ⟨-, heq⟩ | ⟨e, herror, heq⟩
  · rw [heq]
  · rw [heq, herror, (abort_spec _).1]

/-- A commit writes the changed containers back, roles before groups before client scopes and each
kind in the order of tenants, up to the first whose row has not the version loaded any more. -/
theorem commit_writes_prefix (d : Desk UnitOfWork) (linearizable : Bool)
    (hflags : ∀ k, (d.held.coordinator k).linearizable = linearizable)
    (hreadable : ∀ w ∈ d.held.pendingWrites, w.Readable d.rows) :
    let pending := d.held.pendingWrites
    let written := if linearizable then pending.takeWhile (·.Unmoved d.rows) else pending
    (pending.map (·.name) = [.roles, .groups, .clientScopes].flatMap fun k =>
      (d.held.coordinator k).pendingWrites.map fun tenant => (k, tenant)) ∧
    (∀ k, (d.held.coordinator k).pendingWrites.Pairwise (· < ·)) ∧
    ((commit d).1 = .ok () ↔ written = pending) ∧
    (∀ w rest, pending = written ++ w :: rest →
      (commit d).1 = .error (.concurrentModification w.kind w.tenant)) ∧
    (∀ w ∈ written, ((commit d).2.rows.table w.kind.table).get? w.key =
      some (.row (w.container.rowOver (w.row d.rows)))) ∧
    (∀ t key, (∀ w ∈ written, ¬ (t = w.kind.table ∧ key = w.key)) →
      ((commit d).2.rows.table t).get? key = (d.rows.table t).get? key) ∧
    ∀ k, (commit d).2.held.coordinator k = { linearizable } := by
  intro pending written
  have hrun := commit_eq_writeEach hflags hreadable
  rw [PendingWrite.writeEach_eq (nodup_map_name_pendingWrites d.held) fun _ _ => Iff.rfl] at hrun
  obtain ⟨hresult, hrows⟩ := Prod.mk.inj hrun
  have hwritten : pending.takeWhile (·.Admitted d.rows linearizable) = written := by
    cases linearizable with
    | true => simp [written, PendingWrite.Admitted]
    | false =>
      apply List.takeWhile_eq_self_iff.mpr
      intro w _
      exact decide_eq_true fun hlin => nomatch hlin
  have hsplit : written ++ pending.dropWhile (·.Admitted d.rows linearizable) = pending := by
    rw [← hwritten]
    exact List.takeWhile_append_dropWhile
  have hnodup : (written.map (·.name)).Nodup := by
    rw [← hwritten]
    exact (nodup_map_name_pendingWrites d.held).sublist ((List.takeWhile_sublist _).map _)
  rw [show List.takeWhile _ d.held.pendingWrites = written from hwritten] at hrows
  have hrefused : ∀ w rest, pending = written ++ w :: rest →
      (commit d).1 = .error (.concurrentModification w.kind w.tenant) := by
    intro w rest heq
    have hdrop : pending.dropWhile (·.Admitted d.rows linearizable) = w :: rest :=
      List.append_cancel_left (hsplit.trans heq)
    rw [hresult, show List.dropWhile _ d.held.pendingWrites = w :: rest from hdrop]
    rfl
  refine ⟨?_, ?_, ?_, ?_, ?_, ?_, ?_⟩
  · exact (List.map_flatMap ..).trans (List.flatMap_congr fun k _ => map_name_pendingOfKind d.held k)
  · intro k
    exact (List.pairwise_map.mpr (d.held.coordinator k).changed.ascending).filter _
  · cases hrest : pending.dropWhile (·.Admitted d.rows linearizable) with
    | nil =>
      rw [hrest, List.append_nil] at hsplit
      rw [hresult, show List.dropWhile _ d.held.pendingWrites = [] from hrest]
      exact ⟨fun _ => hsplit, fun _ => rfl⟩
    | cons w rest =>
      rw [hrest] at hsplit
      rw [hrefused w rest hsplit.symm]
      constructor
      · intro hok
        cases hok
      · intro heq
        rw [← heq] at hsplit
        simp at hsplit
  · exact hrefused
  · intro w hw
    rw [hrows]
    exact PendingWrite.get?_foldl_apply_of_mem hnodup hw
  · intro t key hother
    rw [hrows]
    exact PendingWrite.get?_foldl_apply_of_notMem hother
  · intro k
    rw [coordinator_commit, Coordinator.closed, hflags k]

/-- The roles of a second realm have been changed in between: those of the first are written, the
groups, which would come later, are not. -/
theorem commit_writes_prefix_up_to_conflict :
    let mine : Work UnitOfWork Unit := do
      discard <| Work.on rolesPart (Roles.addRealmRole "a" "mine")
      discard <| Work.on rolesPart (Roles.addRealmRole "b" "mine")
      discard <| Work.on groupsPart (Groups.createGroup "a" "mine" none)
    let theirs : Work UnitOfWork Unit := do
      discard <| Work.on rolesPart (Roles.addRealmRole "b" "theirs")
      commit
    let d₁ := (mine ⟨.empty 0, { value := fun n => n }, start "u" true true⟩).2
    let d₂ := (theirs { d₁ with held := start "v" true true }).2
    let d : Desk UnitOfWork := { d₂ with held := d₁.held }
    (∀ k, (d.held.coordinator k).linearizable = true) ∧
      (∀ w ∈ d.held.pendingWrites, w.Readable d.rows) ∧
      d.held.pendingWrites.map (·.name) = [(.roles, "a"), (.roles, "b"), (.groups, "a")] ∧
      (commit d).1 = .error (.concurrentModification .roles "b") ∧
      (d.rows.table .realmRoles).get? "a\x00" = none ∧
      ((commit d).2.rows.table .realmRoles).get? "a\x00" ≠ none ∧
      ((commit d).2.rows.table .realmGroups).get? "a\x00" = none := by
  intro mine theirs d₁ d₂ d
  have hflags : ∀ k, (d.held.coordinator k).linearizable = true := by
    intro k
    cases k <;> decide +kernel
  have hreadable : ∀ w ∈ d.held.pendingWrites, w.Readable d.rows := by decide +kernel
  obtain ⟨-, -, -, hrefused, hwritten, hothers, -⟩ := commit_writes_prefix d true hflags hreadable
  simp only [↓reduceIte] at hrefused hwritten hothers
  refine ⟨hflags, hreadable, by decide +kernel, ?_, by decide +kernel, ?_, ?_⟩
  · have hnames : (d.held.pendingWrites.dropWhile (·.Unmoved d.rows)).map (·.name) =
        [(.roles, "b"), (.groups, "a")] := by decide +kernel
    obtain ⟨w, rest, hrest, hname, -⟩ := List.map_eq_cons_iff.mp hnames
    obtain ⟨hkind, htenant⟩ := Prod.mk.inj hname
    rw [hrefused w rest (hrest ▸ List.takeWhile_append_dropWhile.symm), hkind, htenant]
  · have hnames : (.roles, "a") ∈
        (d.held.pendingWrites.takeWhile (·.Unmoved d.rows)).map (·.name) := by decide +kernel
    obtain ⟨w, hw, hname⟩ := List.mem_map.mp hnames
    obtain ⟨hkind, htenant⟩ := Prod.mk.inj hname
    have hkey : w.key = "a\x00" := by
      rw [PendingWrite.key, htenant]
      decide
    have hrow : ((commit d).2.rows.table w.kind.table).get? w.key ≠ none := by
      rw [hwritten w hw]
      exact Option.some_ne_none _
    rw [hkey, hkind] at hrow
    exact hrow
  · have hother : ∀ w ∈ d.held.pendingWrites.takeWhile (·.Unmoved d.rows),
        ¬ (Table.realmGroups = w.kind.table ∧ "a\x00" = w.key) := by decide +kernel
    rw [hothers _ _ hother]
    decide +kernel

end UnitOfWork

end IdentityDirectory
