import IdentityDirectory.Proofs.Container.Settlement

/-!
The draft that a unit of work has of a container: its copy, with what it has done to it. Main
statements: a look or a change goes by the draft (`read_spec`, `tryUpdate_spec`), an edit does to the
draft what it says (`Edit.perform_spec`), and all work on containers is such an edit (`exists_edit`).
-/

namespace IdentityDirectory

variable {k : ContainerKind} {tenant : String}

namespace RowStore

def container (s : RowStore) (k : ContainerKind) (tenant : String) : Container k :=
  ((s.containerRow k tenant).bind fun r => Storable.ofPayload? r.payload).getD
    (Aggregate.empty tenant)

theorem Stocked.stored_eq {s : RowStore} (h : s.Stocked) (tenant : String) :
    Coordinator.stored tenant s =
      .ok ⟨s.container k tenant, (s.containerRow k tenant).map (·.version)⟩ := by
  have hrow : Query.row (Aggregate.table (Container k)) (Coordinator.key tenant) s =
      .ok (s.containerRow k tenant) :=
    (Query.row_eq (h.lasting k).readable _).trans (congrArg Except.ok ((h.lasting k).live_eq _ _))
  rw [Coordinator.stored, Query.bind_of_ok hrow, container]
  cases hr : s.containerRow k tenant with
  | none => rfl
  | some r =>
    obtain ⟨value, hvalue⟩ := (h.holds k).payloads _ r hr
    have hread : (r.read : Except StorageFault (Container k)) = .ok value := by
      rw [Row.read, hvalue, Storable.ofPayload?_payload]
    have hquery : Query.ofRows (fun _ => (r.read : Except StorageFault (Container k))) s =
        .ok value := Query.ofRows_of_ok hread
    rw [Option.bind_some, hvalue, Storable.ofPayload?_payload]
    exact Query.bind_of_ok hquery _

end RowStore

/-- The copy is there once the container has been asked for, and gone once it is deleted. -/
structure Draft (k : ContainerKind) where
  value : Option (Container k) := none
  changed : Bool := false
  deleted : Bool := false

namespace Draft

variable (draft : Draft k)

def seen (stored : Container k) : Container k := draft.value.getD stored

def opened (stored : Container k) : Draft k := { draft with value := some (draft.seen stored) }

def tried (stored : Container k) (f : Container k → Except StoreError (Container k)) : Draft k :=
  match f (draft.seen stored) with
  | .ok value => { draft with value := some value, changed := true }
  | .error _ => draft.opened stored

def dropped : Draft k := { draft with value := none, deleted := true }

def due? : Option (Container k) := if draft.changed && !draft.deleted then draft.value else none

structure Of (c : Coordinator (Container k)) (tenant : String) : Prop where
  value : (c.loaded.get? tenant).map (·.value) = draft.value
  changed : tenant ∈ c.changed ↔ draft.changed = true
  deleted : tenant ∈ c.deleted ↔ draft.deleted = true

end Draft

theorem Draft.Of.empty (linearizable : Bool) (tenant : String) :
    Draft.Of {} ({ linearizable } : Coordinator (Container k)) tenant := by
  constructor
  · rfl
  · exact iff_of_false Bool.false_ne_true Bool.false_ne_true
  · exact iff_of_false Bool.false_ne_true Bool.false_ne_true

theorem Draft.Of.congr {draft : Draft k} {c c' : Coordinator (Container k)} {tenant : String}
    (h : draft.Of c tenant) (hloaded : c'.loaded.get? tenant = c.loaded.get? tenant)
    (hchanged : tenant ∈ c'.changed ↔ tenant ∈ c.changed)
    (hdeleted : tenant ∈ c'.deleted ↔ tenant ∈ c.deleted) : draft.Of c' tenant := by
  refine ⟨?_, hchanged.trans h.changed, hdeleted.trans h.deleted⟩
  rw [hloaded]
  exact h.value

theorem Draft.Of.due {draft : Draft k} {c : Coordinator (Container k)} {tenant : String}
    (h : draft.Of c tenant) : (c.due? tenant).map (·.value) = draft.due? := by
  rw [Coordinator.due?, Coordinator.pending?, Draft.due?, ← h.value]
  simp only [h.changed, h.deleted]
  cases draft.changed <;> cases draft.deleted <;> simp

theorem Draft.Of.drop {draft : Draft k} {c : Coordinator (Container k)} {tenant : String}
    (h : draft.Of c tenant) (deleted : String) :
    (if tenant = deleted then draft.dropped else draft).Of (c.dropped deleted) tenant := by
  split
  · next heq =>
    subst heq
    constructor
    · rw [Coordinator.dropped, StringMap.get?_erase, if_pos rfl]
      rfl
    · exact h.changed
    · simp [Coordinator.dropped, Draft.dropped, StringSet.mem_insert]
  · next hne =>
    apply h.congr
    · rw [Coordinator.dropped, StringMap.get?_erase, if_neg hne]
    · rfl
    · rw [Coordinator.dropped, StringSet.mem_insert, or_iff_right hne]

namespace Coordinator

variable {d d' : Desk (Coordinator (Container k))} {β : Type} {x : Loaded (Container k)}

def seen (d : Desk (Coordinator (Container k))) (tenant : String) : Container k :=
  ((d.held.loaded.get? tenant).map (·.value)).getD (d.rows.container k tenant)

theorem seen_of_draft {draft : Draft k} (h : draft.Of d.held tenant) :
    draft.seen (d.rows.container k tenant) = seen d tenant := by
  rw [Draft.seen, ← h.value, seen]

/-- Nothing is written, and the draft of each tenant becomes what `act` makes of it. -/
structure Redrafts (act : String → Draft k → Draft k) (d d' : Desk (Coordinator (Container k))) :
    Prop where
  rows : d'.rows = d.rows
  drafts : ∀ tenant draft, Draft.Of draft d.held tenant → (act tenant draft).Of d'.held tenant

theorem Redrafts.congr {act act' : String → Draft k → Draft k} (h : Redrafts act d d')
    (hact : ∀ tenant draft, act' tenant draft = act tenant draft) : Redrafts act' d d' where
  rows := h.rows
  drafts tenant draft hdraft := by
    rw [hact]
    exact h.drafts tenant draft hdraft

structure Loads (tenant : String) (x : Loaded (Container k))
    (d d' : Desk (Coordinator (Container k))) : Prop where
  value : x.value = seen d tenant
  rows : d'.rows = d.rows
  changed : d'.held.changed = d.held.changed
  deleted : d'.held.deleted = d.held.deleted
  loaded : ∀ tenant', d'.held.loaded.get? tenant' =
    if tenant' = tenant then some x else d.held.loaded.get? tenant'

theorem loads_load (h : d.rows.Stocked) (tenant : String) :
    ∃ x d', load tenant d = (.ok x, d') ∧ Loads tenant x d d' := by
  cases hheld : d.held.loaded.get? tenant with
  | some x =>
    refine ⟨x, d, load_of_held hheld, ?_, rfl, rfl, rfl, fun tenant' => ?_⟩
    · rw [seen, hheld]
      rfl
    · split
      · next heq => rw [heq, hheld]
      · rfl
  | none =>
    refine ⟨_, _, load_of_stored hheld (h.stored_eq tenant), ?_, rfl, rfl, rfl, fun tenant' => ?_⟩
    · rw [seen, hheld]
      rfl
    · exact StringMap.get?_insert _ _ _ _

theorem Loads.redrafts (h : Loads tenant x d d') : Redrafts (fun tenant' draft =>
    if tenant' = tenant then draft.opened (d.rows.container k tenant') else draft) d d' where
  rows := h.rows
  drafts tenant' draft hdraft := by
    split
    · next heq =>
      subst heq
      constructor
      · rw [h.loaded, if_pos rfl, Option.map_some, h.value, Draft.opened, seen_of_draft hdraft]
      · rw [h.changed]
        exact hdraft.changed
      · rw [h.deleted]
        exact hdraft.deleted
    · next hne =>
      apply hdraft.congr
      · rw [h.loaded, if_neg hne]
      · rw [h.changed]
      · rw [h.deleted]

theorem Loads.changing (h : Loads tenant x d d') (value : Container k) :
    Redrafts (fun tenant' draft =>
        if tenant' = tenant then { draft with value := some value, changed := true } else draft) d
      { d' with held := { d'.held with
        loaded := d'.held.loaded.insert tenant { x with value }
        changed := d'.held.changed.insert tenant } } where
  rows := h.rows
  drafts tenant' draft hdraft := by
    split
    · next heq =>
      subst heq
      constructor
      · rw [StringMap.get?_insert, if_pos rfl]
        rfl
      · simp [StringSet.mem_insert]
      · rw [h.deleted]
        exact hdraft.deleted
    · next hne =>
      apply hdraft.congr
      · rw [StringMap.get?_insert, if_neg hne, h.loaded, if_neg hne]
      · rw [StringSet.mem_insert, h.changed, or_iff_right hne]
      · rw [h.deleted]

theorem redrafts_markChanged (d : Desk (Coordinator (Container k))) (marked : String) :
    Redrafts (fun tenant draft => if tenant = marked then { draft with changed := true } else draft)
      d (markChanged marked d).2 where
  rows := rfl
  drafts tenant draft hdraft := by
    have hchanged : tenant ∈ (markChanged marked d).2.held.changed ↔
        tenant = marked ∨ tenant ∈ d.held.changed := StringSet.mem_insert
    rw [hdraft.changed] at hchanged
    split
    · next heq => exact ⟨hdraft.value, hchanged.trans (by simp [heq]), hdraft.deleted⟩
    · next hne => exact ⟨hdraft.value, hchanged.trans (by simp [hne]), hdraft.deleted⟩

theorem redrafts_markDeleted (d : Desk (Coordinator (Container k))) (marked : String) :
    Redrafts (fun tenant draft => if tenant = marked then { draft with deleted := true } else draft)
      d (markDeleted marked d).2 where
  rows := rfl
  drafts tenant draft hdraft := by
    have hdeleted : tenant ∈ (markDeleted marked d).2.held.deleted ↔
        tenant = marked ∨ tenant ∈ d.held.deleted := StringSet.mem_insert
    rw [hdraft.deleted] at hdeleted
    split
    · next heq => exact ⟨hdraft.value, hdraft.changed, hdeleted.trans (by simp [heq])⟩
    · next hne => exact ⟨hdraft.value, hdraft.changed, hdeleted.trans (by simp [hne])⟩

theorem read_spec (h : d.rows.Stocked) (tenant : String) (f : Container k → β) :
    ∃ d', read tenant f d = (.ok (f (seen d tenant)), d') ∧
      Redrafts (fun tenant' draft =>
        if tenant' = tenant then draft.opened (d.rows.container k tenant') else draft) d d' := by
  obtain ⟨x, d', hload, hloads⟩ := loads_load h tenant
  refine ⟨d', ?_, hloads.redrafts⟩
  rw [read, Work.bind_of_ok hload, ← hloads.value]
  rfl

theorem tryUpdate_spec (h : d.rows.Stocked) (tenant : String)
    (f : Container k → Except StoreError (β × Container k)) :
    ∃ d', tryUpdate tenant f d = ((f (seen d tenant)).map Prod.fst, d') ∧
      Redrafts (fun tenant' draft => if tenant' = tenant then
        draft.tried (d.rows.container k tenant') fun value => (f value).map Prod.snd
        else draft) d d' := by
  obtain ⟨x, d', hload, hloads⟩ := loads_load h tenant
  have hact : ∀ tenant' (draft : Draft k), draft.Of d.held tenant' → tenant' = tenant →
      draft.seen (d.rows.container k tenant') = x.value := by
    rintro tenant' draft hdraft rfl
    rw [seen_of_draft hdraft, hloads.value]
  rw [tryUpdate, Work.bind_of_ok hload, ← hloads.value]
  cases hf : f x.value with
  | error e =>
    refine ⟨d', rfl, hloads.redrafts.rows, fun tenant' draft hdraft => ?_⟩
    have hdrafts := hloads.redrafts.drafts tenant' draft hdraft
    split
    · next heq =>
      rw [if_pos heq] at hdrafts
      rw [Draft.tried, hact tenant' draft hdraft heq, hf]
      exact hdrafts
    · next hne =>
      rw [if_neg hne] at hdrafts
      exact hdrafts
  | ok result =>
    obtain ⟨a, value⟩ := result
    have hchanging := hloads.changing value
    refine ⟨_, rfl, hchanging.rows, fun tenant' draft hdraft => ?_⟩
    have hdrafts := hchanging.drafts tenant' draft hdraft
    split
    · next heq =>
      rw [if_pos heq] at hdrafts
      rw [Draft.tried, hact tenant' draft hdraft heq, hf]
      exact hdrafts
    · next hne =>
      rw [if_neg hne] at hdrafts
      exact hdrafts

theorem exists_draft (c : Coordinator (Container k)) (tenant : String) :
    ∃ draft : Draft k, draft.Of c tenant :=
  ⟨⟨(c.loaded.get? tenant).map (·.value), decide (tenant ∈ c.changed), decide (tenant ∈ c.deleted)⟩,
    rfl, by simp, by simp⟩

theorem seen_tryUpdate (h : d.rows.Stocked) (tenant : String)
    (f : Container k → Except StoreError (β × Container k)) :
    (tryUpdate tenant f d).2.rows = d.rows ∧ seen (tryUpdate tenant f d).2 tenant =
      ((f (seen d tenant)).map Prod.snd).toOption.getD (seen d tenant) := by
  obtain ⟨d', heq, hredrafts⟩ := tryUpdate_spec h tenant f
  obtain ⟨draft, hdraft⟩ := exists_draft d.held tenant
  have hnext := seen_of_draft (hredrafts.drafts tenant draft hdraft)
  rw [heq]
  refine ⟨hredrafts.rows, ?_⟩
  rw [← hnext, hredrafts.rows, if_pos rfl, Draft.tried, ← seen_of_draft hdraft]
  cases f (draft.seen (d.rows.container k tenant)) <;> rfl

end Coordinator

inductive Edit (k : ContainerKind) where
  | look (tenant : String)
  | change (tenant : String) (f : Container k → Except StoreError (Container k))
  | drawing (f : String → Edit k)
  | withNewId (f : String → Edit k)

namespace Edit

open Coordinator (Editing Redrafts)

def perform : Edit k → Work (Coordinator (Container k)) Unit
  | look tenant => Coordinator.read tenant fun _ => ()
  | change tenant f => Coordinator.tryUpdate tenant fun value => return ((), ← f value)
  | drawing f => Work.newId >>= fun id => (f id).perform
  | withNewId f => Work.withNewId fun id => (f id).perform

def on (tenant : String) (stored : Container k) : Edit k → Draws → Draft k → Draft k
  | look asked, _, draft => if tenant = asked then draft.opened stored else draft
  | change asked f, _, draft => if tenant = asked then draft.tried stored f else draft
  | drawing f, draws, draft =>
    (f (Identifier.hyphenated (draws.value draws.next))).on tenant stored
      { draws with next := draws.next + 1 } draft
  | withNewId f, draws, draft =>
    (f (Identifier.hyphenated (draws.value draws.next))).on tenant stored draws draft

theorem perform_spec {d : Desk (Coordinator (Container k))} (h : d.rows.Stocked) (e : Edit k) :
    Redrafts (fun tenant draft => e.on tenant (d.rows.container k tenant) d.draws draft) d
      (e.perform d).2 := by
  induction e generalizing d with
  | look tenant =>
    obtain ⟨d', heq, hredrafts⟩ := Coordinator.read_spec h tenant fun _ => ()
    rw [perform, heq]
    exact hredrafts
  | change tenant f =>
    obtain ⟨d', heq, hredrafts⟩ :=
      Coordinator.tryUpdate_spec h tenant fun value => return ((), ← f value)
    have hsnd : (fun value => (do return ((), ← f value) : Except StoreError (Unit × Container k)).map
        Prod.snd) = f := by
      funext value
      cases f value <;> rfl
    rw [hsnd] at hredrafts
    rw [perform, heq]
    exact hredrafts
  | drawing f ih =>
    have hnext := ih (Identifier.hyphenated (d.draws.value d.draws.next))
      (d := { d with draws := { d.draws with next := d.draws.next + 1 } }) h
    exact ⟨hnext.rows, hnext.drafts⟩
  | withNewId f ih =>
    have hdone := ih (Identifier.hyphenated (d.draws.value d.draws.next)) h
    obtain ⟨draws, heq⟩ := Work.exists_withNewId (fun id => (f id).perform) d
    rw [perform, heq]
    exact ⟨hdone.rows, hdone.drafts⟩

end Edit

theorem discard_bind {σ α β : Type} (work : Work σ α) (f : α → Work σ β) :
    (discard (work >>= f) : Work σ Unit) = work >>= fun a => discard (f a) :=
  bind_assoc work f fun _ => pure ()

theorem discard_withNewId {σ α : Type} (f : String → Work σ α) :
    (discard (Work.withNewId f) : Work σ Unit) = Work.withNewId fun id => discard (f id) := by
  have hdiscard {β : Type} (work : Work σ β) :
      (discard work : Work σ Unit) = work >>= fun _ => pure () := rfl
  simp only [Work.withNewId, hdiscard, bind_assoc, pure_bind]

theorem exists_edit {β : Type} {work : Work (Coordinator (Container k)) β}
    (h : Coordinator.Editing work) : ∃ e : Edit k, Functor.discard work = e.perform := by
  induction h with
  | read tenant f =>
    refine ⟨.look tenant, ?_⟩
    rw [Edit.perform, Coordinator.read, Coordinator.read, discard_bind]
    rfl
  | tryUpdate tenant f =>
    refine ⟨.change tenant fun value => (f value).map Prod.snd, ?_⟩
    rw [Edit.perform, Coordinator.tryUpdate, Coordinator.tryUpdate, discard_bind]
    congr 1
    funext x
    cases f x.value <;> rfl
  | drawing _ ih =>
    obtain ⟨e, he⟩ := Classical.axiomOfChoice ih
    refine ⟨.drawing e, ?_⟩
    rw [discard_bind, Edit.perform, funext he]
  | withNewId _ ih =>
    obtain ⟨e, he⟩ := Classical.axiomOfChoice ih
    refine ⟨.withNewId e, ?_⟩
    rw [discard_withNewId, Edit.perform, funext he]
  | discard _ ih =>
    obtain ⟨e, he⟩ := ih
    refine ⟨e, ?_⟩
    rw [← he]
    exact discard_bind _ _

end IdentityDirectory
