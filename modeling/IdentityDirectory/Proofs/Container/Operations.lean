import IdentityDirectory.Proofs.Container.Removal

/-!
What units of work do with containers. Main statement: whichever operation it is, a row stays, goes
or is written once, and a container that is held was loaded from the row that was there
(`progressed_perform`).
-/

namespace IdentityDirectory

def Row.Follows (row row' : Option Row) : Prop :=
  row' = row ∨ row' = none ∨ ∃ r, row' = some r ∧ r.version = Row.age row + 1

namespace Containers

open Coordinator (Editing)
open UnitOfWork (part Dropped Committed)

inductive Operation where
  | edit (k : ContainerKind) (work : Work (Coordinator (Container k)) Unit) (editing : Editing work)
  | markChanged (k : ContainerKind) (tenant : String)
  | markDeleted (k : ContainerKind) (tenant : String)
  | delete (k : ContainerKind) (tenant : String)
  | removeRealm (realmId : String)
  | commit
  | abort
  | elsewhere (update : Update Unit) (spares : ∀ k : ContainerKind, update.Spares k.table)

def Operation.perform : Operation → Work UnitOfWork Unit
  | edit k work _ => Work.on (part k) work
  | markChanged k tenant => Work.on (part k) (Coordinator.markChanged tenant)
  | markDeleted k tenant => Work.on (part k) (Coordinator.markDeleted tenant)
  | delete k tenant => discard (Work.on (part k) (Coordinator.delete tenant))
  | removeRealm realmId => discard (UnitOfWork.removeRealm realmId)
  | commit => UnitOfWork.commit
  | abort => liftM UnitOfWork.abort
  | elsewhere update _ => liftM update

structure Progressed (d d' : Desk UnitOfWork) : Prop where
  lasting : ∀ k, d'.rows.Lasting k
  flags : ∀ k, (d'.held.coordinator k).linearizable = true
  rows : ∀ k tenant,
    Row.Follows (d.rows.containerRow k tenant) (d'.rows.containerRow k tenant)
  loaded : ∀ k tenant x', (d'.held.coordinator k).loaded.get? tenant = some x' →
    (∃ x, (d.held.coordinator k).loaded.get? tenant = some x ∧ x'.version = x.version) ∨
      (d.held.coordinator k).loaded.get? tenant = none ∧
        x'.Fits (d.rows.containerRow k tenant)

variable {d d' : Desk UnitOfWork}

theorem progressed_of_dropped (hlin : ∀ k, (d.held.coordinator k).linearizable = true)
    (h : Dropped d d') : Progressed d d' where
  lasting := h.lasting
  flags k := (h.flags k).trans (hlin k)
  rows k tenant := by
    rcases h.rows k tenant with hsame | hnone
    · exact .inl hsame
    · exact .inr (.inl hnone)
  loaded k tenant x' hx := .inl ⟨x', h.loaded k tenant x' hx, rfl⟩

theorem progressed_of_committed {kinds : List ContainerKind} {result : Except StoreError Unit}
    (h : Committed kinds d d' result) (hclosed : ∀ k, (d'.held.coordinator k).loaded = ∅) :
    Progressed d d' where
  lasting := h.lasting
  flags := h.flags
  rows k tenant := by
    rcases h.rows k tenant with hsame | ⟨-, -, x, -, -, hrow⟩
    · exact .inl hsame
    · exact .inr (.inr ⟨_, hrow, rfl⟩)
  loaded k tenant x' hx := by
    rw [hclosed] at hx
    cases hx

theorem progressed_of_edited {k : ContainerKind} {work : Work (Coordinator (Container k)) Unit}
    (h : ∀ j, d.rows.Lasting j) (hlin : ∀ j, (d.held.coordinator j).linearizable = true)
    (hedited : Coordinator.Edited { d with held := d.held.coordinator k }
      (work { d with held := d.held.coordinator k }).2) :
    Progressed d (Work.on (part k) work d).2 := by
  have hrows : (Work.on (part k) work d).2.rows = d.rows := hedited.rows
  have hheld : (Work.on (part k) work d).2.held =
      (part k).set (work { d with held := d.held.coordinator k }).2.held d.held := rfl
  constructor
  · rw [hrows]
    exact h
  · intro j
    rw [hheld]
    by_cases hj : j = k
    · subst hj
      rw [UnitOfWork.coordinator_set]
      exact hedited.linearizable.trans (hlin j)
    · rw [UnitOfWork.coordinator_set_of_ne hj]
      exact hlin j
  · intro j tenant
    rw [hrows]
    exact .inl rfl
  · intro j tenant x' hx
    rw [hheld] at hx
    by_cases hj : j = k
    · subst hj
      rw [UnitOfWork.coordinator_set] at hx
      exact hedited.loaded tenant x' hx
    · rw [UnitOfWork.coordinator_set_of_ne hj] at hx
      exact .inl ⟨x', hx, rfl⟩

theorem drops_discard {α : Type} {work : Work UnitOfWork α} (h : UnitOfWork.Drops work) :
    UnitOfWork.Drops (Functor.discard work) :=
  h.bind fun _ => .pure ()

theorem progressed_perform (h : ∀ k, d.rows.Lasting k)
    (hlin : ∀ k, (d.held.coordinator k).linearizable = true) (op : Operation) :
    Progressed d (op.perform d).2 := by
  cases op with
  | edit k work editing => exact progressed_of_edited h hlin (editing.edited (h k))
  | markChanged k tenant => exact progressed_of_edited h hlin (.of_loaded rfl rfl rfl)
  | markDeleted k tenant => exact progressed_of_edited h hlin (.of_loaded rfl rfl rfl)
  | delete k tenant =>
    exact progressed_of_dropped hlin (drops_discard (UnitOfWork.drops_delete k tenant) d h)
  | removeRealm realmId =>
    exact progressed_of_dropped hlin (drops_discard (UnitOfWork.drops_removeRealm realmId) d h)
  | commit =>
    obtain ⟨hcommitted, hclosed⟩ := UnitOfWork.committed_commit h hlin
    exact progressed_of_committed hcommitted hclosed
  | abort =>
    obtain ⟨hrows, hclosed⟩ := UnitOfWork.abort_spec d
    have hdropped : Dropped d (UnitOfWork.abort d).2 := by
      constructor
      · rw [hrows]
        exact h
      · intro k
        rw [hclosed]
        rfl
      · intro k tenant
        rw [hrows]
        exact .inl rfl
      · intro k tenant x hx
        rw [hclosed] at hx
        cases hx
    exact progressed_of_dropped hlin hdropped
  | elsewhere update spares =>
    exact progressed_of_dropped hlin ((UnitOfWork.aloof_update spares).drops d h)

end Containers

end IdentityDirectory
