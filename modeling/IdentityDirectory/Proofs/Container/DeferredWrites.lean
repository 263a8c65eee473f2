import IdentityDirectory.Proofs.Container.Drafts

/-!
Deferred write-back over any run of any number of units of work, whether they check versions or not.
Main statements: what a call does to the stored rows and to the drafts (`redrafted_perform`),
`reads_and_commits_follow_draft`, and that the operations on roles, groups and client scopes are among
the calls (`followed_after_editing`).
-/

namespace IdentityDirectory

namespace Containers

open UnitOfWork (part Aloof removeRecords removeContainers)

/-- The calls to a unit of work, which flushes its coordinators by a commit only; `restart` drops it for
one that may check versions or not. -/
inductive Call where
  | edit (k : ContainerKind) (e : Edit k)
  | markChanged (k : ContainerKind) (tenant : String)
  | markDeleted (k : ContainerKind) (tenant : String)
  | delete (k : ContainerKind) (tenant : String)
  | removeRealm (realmId : String)
  | commit
  | abort
  | restart (linearizable caching : Bool)
  | elsewhere (work : Work UnitOfWork Unit) (aloof : Aloof work)

namespace Call

def perform : Call → Work UnitOfWork Unit
  | edit k e => Work.on (part k) e.perform
  | markChanged k tenant => Work.on (part k) (Coordinator.markChanged tenant)
  | markDeleted k tenant => Work.on (part k) (Coordinator.markDeleted tenant)
  | delete k tenant => discard (Work.on (part k) (Coordinator.delete tenant))
  | removeRealm realmId => discard (UnitOfWork.removeRealm realmId)
  | commit => UnitOfWork.commit
  | abort => liftM UnitOfWork.abort
  | restart linearizable caching => Work.modifyHeld fun _ => .start "" linearizable caching
  | elsewhere work _ => work

def Writes (k : ContainerKind) (tenant : String) : Call → Prop
  | commit => True
  | delete j deleted => j = k ∧ deleted = tenant
  | removeRealm realmId => realmId = tenant
  | edit .. | markChanged .. | markDeleted .. | abort | restart .. | elsewhere .. => False

def on (d : Desk UnitOfWork) (call : Call) (k : ContainerKind) (tenant : String)
    (draft : Draft k) : Draft k :=
  match call with
  | edit j e =>
    if h : j = k then (h ▸ e).on tenant (d.rows.container k tenant) d.draws draft else draft
  | markChanged j marked => if j = k ∧ tenant = marked then { draft with changed := true } else draft
  | markDeleted j marked => if j = k ∧ tenant = marked then { draft with deleted := true } else draft
  | delete j deleted => if j = k ∧ tenant = deleted then draft.dropped else draft
  | removeRealm realmId =>
    if tenant = realmId ∧ (removeRecords realmId d).1 = .ok true then draft.dropped else draft
  | commit | abort | restart .. => {}
  | elsewhere .. => draft

end Call

structure Redrafted (writes : ContainerKind → String → Prop)
    (act : (k : ContainerKind) → String → Draft k → Draft k) (d d' : Desk UnitOfWork) : Prop where
  stocked : d'.rows.Stocked
  rows : ∀ k tenant, ¬ writes k tenant →
    d'.rows.containerRow k tenant = d.rows.containerRow k tenant
  drafts : ∀ k tenant draft, Draft.Of draft (d.held.coordinator k) tenant →
    (act k tenant draft).Of (d'.held.coordinator k) tenant

variable {d d' d'' : Desk UnitOfWork} {writes writes' : ContainerKind → String → Prop}
  {act act' : (k : ContainerKind) → String → Draft k → Draft k} {k : ContainerKind}

theorem Redrafted.trans (h : Redrafted writes act d d') (h' : Redrafted writes' act' d' d'') :
    Redrafted (fun k tenant => writes k tenant ∨ writes' k tenant)
      (fun k tenant draft => act' k tenant (act k tenant draft)) d d'' where
  stocked := h'.stocked
  rows k tenant hnot :=
    (h'.rows k tenant fun hw => hnot (.inr hw)).trans (h.rows k tenant fun hw => hnot (.inl hw))
  drafts k tenant draft hdraft := h'.drafts k tenant _ (h.drafts k tenant draft hdraft)

theorem Redrafted.congr (h : Redrafted writes act d d')
    (hwrites : ∀ k tenant, writes k tenant → writes' k tenant)
    (hact : ∀ k tenant draft, act' k tenant draft = act k tenant draft) :
    Redrafted writes' act' d d' where
  stocked := h.stocked
  rows k tenant hnot := h.rows k tenant fun hw => hnot (hwrites k tenant hw)
  drafts k tenant draft hdraft := by
    rw [hact]
    exact h.drafts k tenant draft hdraft

theorem redrafted_aloof {α : Type} {work : Work UnitOfWork α} (hwork : Aloof work)
    (h : d.rows.Stocked) :
    Redrafted (fun _ _ => False) (fun _ _ draft => draft) d (work d).2 where
  stocked := h.of_tables (hwork d).1
  rows k tenant _ := RowStore.containerRow_congr ((hwork d).1 k) tenant
  drafts k tenant draft hdraft := by
    rw [(hwork d).2]
    exact hdraft

theorem redrafted_on {α : Type} {work : Work (Coordinator (Container k)) α} (h : d.rows.Stocked)
    (hwork : Coordinator.Redrafts (act k) { d with held := d.held.coordinator k }
      (work { d with held := d.held.coordinator k }).2)
    (hother : ∀ j, k ≠ j → ∀ tenant draft, act j tenant draft = draft) :
    Redrafted (fun _ _ => False) act d (Work.on (part k) work d).2 := by
  have hrows : (Work.on (part k) work d).2.rows = d.rows := hwork.rows
  have hheld : (Work.on (part k) work d).2.held =
      (part k).set (work { d with held := d.held.coordinator k }).2.held d.held := rfl
  constructor
  · rw [hrows]
    exact h
  · intro j tenant _
    rw [hrows]
  · intro j tenant draft hdraft
    rw [hheld]
    by_cases hj : k = j
    · subst hj
      rw [UnitOfWork.coordinator_set]
      exact hwork.drafts tenant draft hdraft
    · rw [UnitOfWork.coordinator_set_of_ne (Ne.symm hj), hother j hj]
      exact hdraft

theorem redrafted_delete (h : d.rows.Stocked) (k : ContainerKind) (deleted : String) :
    ∃ removed d', Work.on (part k) (Coordinator.delete deleted) d = (.ok removed, d') ∧
      Redrafted (fun j tenant => k = j ∧ deleted = tenant)
        (fun j tenant draft => if k = j ∧ tenant = deleted then draft.dropped else draft) d d' := by
  refine ⟨_, _, UnitOfWork.delete_eq (h.lasting k).readable deleted, ?_⟩
  constructor
  · exact h.remove _ _
  · intro j tenant hnot
    by_cases hj : k = j
    · subst hj
      have hne : tenant ≠ deleted := fun heq => hnot ⟨rfl, heq.symm⟩
      rw [RowStore.containerRow_remove, if_neg hne]
    · exact RowStore.containerRow_congr
        (d.rows.table_remove_of_ne (ContainerKind.table_ne (Ne.symm hj)) _) tenant
  · intro j tenant draft hdraft
    by_cases hj : k = j
    · subst hj
      rw [UnitOfWork.coordinator_set]
      simp only [true_and]
      exact hdraft.drop deleted
    · rw [UnitOfWork.coordinator_set_of_ne (Ne.symm hj), if_neg fun hc => hj hc.1]
      exact hdraft

theorem redrafted_removeContainers (h : d.rows.Stocked) (realmId : String) :
    ∃ d', removeContainers realmId d = (.ok (), d') ∧
      Redrafted (fun _ tenant => realmId = tenant)
        (fun _ tenant draft => if tenant = realmId then draft.dropped else draft) d d' := by
  obtain ⟨_, d₁, heq₁, hroles⟩ := redrafted_delete h .roles realmId
  obtain ⟨_, d₂, heq₂, hgroups⟩ := redrafted_delete hroles.stocked .groups realmId
  obtain ⟨_, d₃, heq₃, hscopes⟩ := redrafted_delete hgroups.stocked .clientScopes realmId
  refine ⟨d₃, ?_, ((hroles.trans hgroups).trans hscopes).congr ?_ ?_⟩
  · rw [removeContainers, Work.bind_of_ok heq₁, Work.bind_of_ok heq₂, Work.bind_of_ok heq₃]
    rfl
  · rintro k tenant ((⟨-, heq⟩ | ⟨-, heq⟩) | ⟨-, heq⟩) <;> exact heq
  · intro k tenant draft
    cases k <;> simp

theorem redrafted_removeRealm (h : d.rows.Stocked) (realmId : String) :
    Redrafted (fun _ tenant => realmId = tenant)
      (fun _ tenant draft =>
        if tenant = realmId ∧ (removeRecords realmId d).1 = .ok true then draft.dropped else draft) d
      (UnitOfWork.removeRealm realmId d).2 := by
  have hrecords := redrafted_aloof (UnitOfWork.aloof_removeRecords realmId) h
  rw [UnitOfWork.removeRealm_eq]
  cases hd : removeRecords realmId d with
  | mk result d₁ =>
    rw [hd] at hrecords
    cases result with
    | error e =>
      rw [Work.bind_of_error hd]
      exact hrecords.congr nofun fun _ _ _ => if_neg nofun
    | ok found =>
      rw [Work.bind_of_ok hd]
      cases found with
      | false => exact hrecords.congr nofun fun _ _ _ => if_neg nofun
      | true =>
        -- The containers are gone even if the record of the realm cannot be removed after them.
        obtain ⟨d₂, heq, hcontainers⟩ := redrafted_removeContainers hrecords.stocked realmId
        have hrest : Aloof (do
            let _ ← Work.on UnitOfWork.realmsPart (Realms.remove realmId)
            return true) := (UnitOfWork.aloof_removeRealmRecord realmId).bind fun _ => .pure true
        have hrealm := redrafted_aloof hrest hcontainers.stocked
        rw [if_pos rfl, Work.bind_of_ok heq]
        refine ((hrecords.trans hcontainers).trans hrealm).congr ?_ ?_
        · rintro k tenant ((hfalse | hwrites) | hfalse)
          · exact hfalse.elim
          · exact hwrites
          · exact hfalse.elim
        · simp

theorem redrafted_closed (h : d'.rows.Stocked)
    (hrows : ∀ k tenant, ¬ writes k tenant →
      d'.rows.containerRow k tenant = d.rows.containerRow k tenant)
    (hclosed : ∀ k, ∃ flag, d'.held.coordinator k = { linearizable := flag }) :
    Redrafted writes (fun _ _ _ => {}) d d' := by
  refine ⟨h, hrows, fun k tenant draft _ => ?_⟩
  obtain ⟨flag, hempty⟩ := hclosed k
  rw [hempty]
  exact .empty flag tenant

theorem redrafted_perform (h : d.rows.Stocked) (call : Call) :
    Redrafted (fun k tenant => call.Writes k tenant) (call.on d) d (call.perform d).2 := by
  cases call with
  | edit j e =>
    apply redrafted_on h
    · have hedit := e.perform_spec (d := { d with held := d.held.coordinator j }) h
      exact hedit.congr fun tenant draft => dif_pos rfl
    · exact fun k hk tenant draft => dif_neg hk
  | markChanged j marked =>
    apply redrafted_on h
    · exact (Coordinator.redrafts_markChanged _ marked).congr fun tenant draft => by
        simp only [Call.on, true_and]
    · exact fun k hk tenant draft => if_neg fun hc => hk hc.1
  | markDeleted j marked =>
    apply redrafted_on h
    · exact (Coordinator.redrafts_markDeleted _ marked).congr fun tenant draft => by
        simp only [Call.on, true_and]
    · exact fun k hk tenant draft => if_neg fun hc => hk hc.1
  | delete j deleted =>
    obtain ⟨_, d', heq, hredrafted⟩ := redrafted_delete h j deleted
    rw [Call.perform, Work.discard_desk, heq]
    exact hredrafted
  | removeRealm realmId =>
    rw [Call.perform, Work.discard_desk]
    exact redrafted_removeRealm h realmId
  | commit =>
    obtain ⟨hstocked, -, hclosed⟩ := UnitOfWork.settled_commit h
    exact redrafted_closed hstocked (fun _ _ hnot => absurd trivial hnot) hclosed
  | abort =>
    obtain ⟨hrows, hclosed⟩ := UnitOfWork.abort_spec d
    have hsame : (Call.abort.perform d).2.rows = d.rows := hrows
    exact redrafted_closed (hsame ▸ h) (fun _ _ _ => by rw [hsame]) fun k => ⟨_, hclosed k⟩
  | restart linearizable caching =>
    exact redrafted_closed h (fun _ _ _ => rfl) fun k => ⟨linearizable, by cases k <;> rfl⟩
  | elsewhere work aloof => exact redrafted_aloof aloof h

open World (Event)

def Draft.after (w : World) (unit : Nat) (k : ContainerKind) (tenant : String) (draft : Draft k) :
    Event Call → Draft k
  | .start other => if unit = other then {} else draft
  | .call other call => if unit = other then call.on (w.desk unit) k tenant draft else draft
  | .sweep | .advance _ => draft

def draftOf (unit : Nat) (k : ContainerKind) (tenant : String) :
    World → Draft k → List (Event Call) → Draft k
  | _, draft, [] => draft
  | w, draft, e :: events =>
    draftOf unit k tenant (w.step Call.perform e) (Draft.after w unit k tenant draft e) events

def Writes (k : ContainerKind) (tenant : String) : Event Call → Prop
  | .call _ call => call.Writes k tenant
  | .start _ | .sweep | .advance _ => False

variable {w : World} {unit : Nat} {tenant : String} {draft : Draft k}

theorem stocked_step (h : w.rows.Stocked) (e : Event Call) :
    (w.step Call.perform e).rows.Stocked := by
  cases e with
  | start u => exact h
  | call u call => exact (redrafted_perform (d := w.desk u) h call).stocked
  | sweep => exact h.sweep
  | advance millis => exact h.of_tables fun _ => rfl

theorem stored_step (h : w.rows.Stocked) {e : Event Call} (he : ¬ Writes k tenant e) :
    (w.step Call.perform e).stored k tenant = w.stored k tenant := by
  cases e with
  | start u => rfl
  | call u call => exact (redrafted_perform (d := w.desk u) h call).rows k tenant he
  | sweep => exact (h.lasting k).containerRow_sweep tenant
  | advance millis => rfl

theorem draft_step (h : w.rows.Stocked) (hdraft : draft.Of (w.coordinator unit k) tenant)
    (e : Event Call) : (Draft.after w unit k tenant draft e).Of
      ((w.step Call.perform e).coordinator unit k) tenant := by
  cases e with
  | start u =>
    rw [World.coordinator_start, Draft.after]
    split
    · exact .empty _ tenant
    · exact hdraft
  | call u call =>
    rw [World.coordinator_call, Draft.after]
    split
    · next heq =>
      subst heq
      exact (redrafted_perform (d := w.desk unit) h call).drafts k tenant draft hdraft
    · exact hdraft
  | sweep | advance millis => exact hdraft

theorem draft_run (h : w.rows.Stocked) (hdraft : draft.Of (w.coordinator unit k) tenant)
    (events : List (Event Call)) : (w.run Call.perform events).rows.Stocked ∧
      (draftOf unit k tenant w draft events).Of
        ((w.run Call.perform events).coordinator unit k) tenant := by
  induction events generalizing w draft with
  | nil => exact ⟨h, hdraft⟩
  | cons e events ih => exact ih (stocked_step h e) (draft_step h hdraft e)

/-- A draft decides what is read and what a commit writes. -/
structure Followed (draft : Draft k) (w : World) (unit : Nat) (tenant : String) : Prop where
  reads : ∀ {β : Type} (f : Container k → β),
    w.resultOf unit (Work.on (part k) (Coordinator.read tenant f)) =
      .ok (f (draft.seen (w.rows.container k tenant)))
  changes : ∀ {β : Type} (f : Container k → Except StoreError (β × Container k)),
    w.resultOf unit (Work.on (part k) (Coordinator.tryUpdate tenant f)) =
      (f (draft.seen (w.rows.container k tenant))).map Prod.fst
  written : w.resultOf unit UnitOfWork.commit = .ok () → ∀ value, draft.due? = some value →
    (w.call unit UnitOfWork.commit).stored k tenant =
      some ⟨none, Row.age (w.stored k tenant) + 1, Storable.payload value⟩
  spared : draft.due? = none →
    (w.call unit UnitOfWork.commit).stored k tenant = w.stored k tenant

theorem resultOf_on {β : Type} (w : World) (unit : Nat)
    (work : Work (Coordinator (Container k)) β) : w.resultOf unit (Work.on (part k) work) =
      (work { w.desk unit with held := w.coordinator unit k }).1 := rfl

theorem followed (h : w.rows.Stocked) (hdraft : draft.Of (w.coordinator unit k) tenant) :
    Followed draft w unit tenant := by
  let d : Desk (Coordinator (Container k)) := { w.desk unit with held := w.coordinator unit k }
  have hseen : draft.seen (w.rows.container k tenant) = Coordinator.seen d tenant :=
    Coordinator.seen_of_draft (d := d) hdraft
  obtain ⟨-, hsettled, -⟩ := UnitOfWork.settled_commit (d := w.desk unit) h
  have hrow : Settled ((w.coordinator unit k).due? tenant) (w.stored k tenant)
      ((w.call unit UnitOfWork.commit).stored k tenant) (w.resultOf unit UnitOfWork.commit) :=
    hsettled k tenant
  have hdue := hdraft.due
  constructor
  · intro β f
    obtain ⟨d', heq, -⟩ := Coordinator.read_spec (d := d) h tenant f
    rw [hseen, resultOf_on, heq]
  · intro β f
    obtain ⟨d', heq, -⟩ := Coordinator.tryUpdate_spec (d := d) h tenant f
    rw [hseen, resultOf_on, heq]
  · intro hok value hvalue
    rw [hok] at hrow
    rw [hvalue] at hdue
    obtain ⟨x, hx, rfl⟩ := Option.map_eq_some_iff.mp hdue
    rw [hrow.of_ok, hx]
    rfl
  · intro hnone
    rw [hnone, Option.map_eq_none_iff] at hdue
    rw [hdue] at hrow
    exact hrow.same

theorem followed_run (linearizable caching : Bool) (start : Int) (draws : Draws)
    (events : List (Event Call)) (unit : Nat) (k : ContainerKind) (tenant : String) :
    let opened := World.opened linearizable caching start draws
    (opened.run Call.perform events).rows.Stocked ∧
      Followed (draftOf unit k tenant opened {} events) (opened.run Call.perform events) unit
        tenant := by
  intro opened
  have hopened : Draft.Of {} (opened.coordinator unit k) tenant := by
    cases k <;> exact .empty linearizable tenant
  obtain ⟨hstocked, hdraft⟩ := draft_run (RowStore.stocked_empty start) hopened events
  exact ⟨hstocked, followed hstocked hdraft⟩

/-- An operation on containers makes of the drafts what an edit makes of them, and reads and commits go
by these from then on. -/
theorem followed_after_editing (linearizable caching : Bool) (start : Int) (draws : Draws)
    (events : List (Event Call)) (unit : Nat) {β : Type} {work : Work (Coordinator (Container k)) β}
    (hwork : Coordinator.Editing work) :
    let opened := World.opened linearizable caching start draws
    let v := (opened.run Call.perform events).call unit (Work.on (part k) (discard work))
    ∃ e : Edit k, discard work = e.perform ∧ ∀ tenant,
      Followed (draftOf unit k tenant opened {} (events ++ [.call unit (.edit k e)])) v unit
        tenant := by
  intro opened v
  obtain ⟨e, he⟩ := exists_edit hwork
  refine ⟨e, he, fun tenant => ?_⟩
  have hv : v = opened.run Call.perform (events ++ [.call unit (.edit k e)]) := by
    rw [World.run, List.foldl_append, ← World.run]
    exact congrArg (fun edit => (opened.run Call.perform events).call unit (Work.on (part k) edit)) he
  rw [hv]
  exact (followed_run linearizable caching start draws _ unit k tenant).2

/-- Units of work read and write containers by their drafts alone, and nothing else writes them. -/
theorem reads_and_commits_follow_draft (linearizable caching : Bool) (start : Int) (draws : Draws)
    (events : List (Event Call)) (w : World)
    (hrun : w = (World.opened linearizable caching start draws).run Call.perform events)
    (unit : Nat) (k : ContainerKind) (tenant : String) :
    Followed (draftOf unit k tenant (.opened linearizable caching start draws) {} events) w unit
        tenant ∧
      ∀ e, ¬ Writes k tenant e → (w.step Call.perform e).stored k tenant = w.stored k tenant := by
  obtain ⟨hstocked, hfollowed⟩ :=
    followed_run linearizable caching start draws events unit k tenant
  rw [← hrun] at hstocked hfollowed
  exact ⟨hfollowed, fun e he => stored_step hstocked he⟩

/-- Two units of work add a role each. The one that commits last does not see what the other one has
committed, and writes over it. -/
theorem reads_and_commits_follow_draft_last : ∃ (events : List (Event Call)) (w : World),
    w = (World.opened false true 0 { value := id }).run Call.perform events ∧
      Followed (draftOf 1 .roles "r" (.opened false true 0 { value := id }) {} events) w 1 "r" ∧
      roleNames (w.stored .roles "r") = some ["old", "theirs"] ∧
      w.resultOf 1 (Work.on (part .roles) (Coordinator.read "r" (·.roles.map (·.name)))) =
        .ok ["old", "mine"] ∧
      w.resultOf 1 UnitOfWork.commit = .ok () ∧
      roleNames ((w.call 1 UnitOfWork.commit).stored .roles "r") = some ["old", "mine"] ∧
      Row.age ((w.call 1 UnitOfWork.commit).stored .roles "r") = 3 := by
  let add (name : String) : Call :=
    .edit .roles (.drawing fun id => .change "r" fun roles => roles.add { id, name })
  let events : List (Event Call) := [.call 0 (add "old"), .call 0 .commit, .call 1 (add "mine"),
    .call 2 (add "theirs"), .call 2 .commit]
  obtain ⟨w, hw⟩ : ∃ w, w = (World.opened false true 0 { value := id }).run Call.perform events :=
    ⟨_, rfl⟩
  obtain ⟨hfollowed, -⟩ := reads_and_commits_follow_draft false true 0 { value := id } events w hw 1
    .roles "r"
  refine ⟨events, w, hw, hfollowed, ?_⟩
  rw [hw]
  decide +kernel

end Containers

end IdentityDirectory
