import IdentityDirectory.Proofs.Isolation.Containers
import IdentityDirectory.Proofs.Isolation.Footprint

/-!
What work on containers may write. Edits write nothing; a container is written back as it is held, and
only where its tenant is not marked as deleted. Main statements: `wrote_flush` and, for a whole unit of
work, `wrote_commit`.
-/

namespace IdentityDirectory

variable {k : ContainerKind} {tenant : String} {α : Type}
  {admits : Int → Table → String → Option Cell → Prop}

def Container.Puts (k : ContainerKind) (admits : Int → Table → String → Option Cell → Prop)
    (tenant : String) : Prop :=
  ∀ (x : Container k) now,
    RowStore.Puts admits now k.table (Coordinator.key tenant).encode (Storable.payload x) none

namespace Coordinator

theorem writes_load (tenant : String) :
    Work.Writes admits (load tenant : Work (Coordinator (Container k)) (Loaded (Container k))) := by
  refine .bind Work.writes_held fun c => ?_
  split
  · exact .pure _
  · exact .bind (Work.writes_query _) fun x => .bind (Work.writes_modifyHeld _) fun _ => .pure x

theorem Editing.writes {work : Work (Coordinator (Container k)) α} (h : Editing work) :
    Work.Writes admits work := by
  induction h with
  | read tenant f => exact .bind (writes_load tenant) fun _ => .pure _
  | tryUpdate tenant f =>
    refine .bind (writes_load tenant) fun x => .bind (.except (f x.value)) fun changed => ?_
    refine .bind (Work.writes_modifyHeld _) fun _ => ?_
    exact .bind (Work.writes_modifyHeld _) fun _ => .pure changed.1
  | drawing _ ih => exact .bind Work.writes_newId ih
  | withNewId _ ih => exact Work.writes_withNewId ih
  | discard _ ih => exact .discard ih

theorem writes_delete (h : ∀ now, admits now k.table (key tenant).encode none) :
    Work.Writes admits (delete tenant : Work (Coordinator (Container k)) Bool) := by
  refine .bind (Work.writes_update (Update.writes_delete h)) fun removed => ?_
  refine .bind (Work.writes_modifyHeld _) fun _ => ?_
  exact .bind (Work.writes_modifyHeld _) fun _ => .pure removed

def Puts (admits : Int → Table → String → Option Cell → Prop) (c : Coordinator (Container k)) : Prop :=
  ∀ tenant x, c.pending? tenant = some x → ∀ now,
    RowStore.Puts admits now k.table (key tenant).encode (Storable.payload x.value) none

theorem puts_of_container {c : Coordinator (Container k)}
    (h : ∀ tenant, tenant ∉ c.deleted → Container.Puts k admits tenant) : c.Puts admits := by
  intro tenant x hpending now
  rw [pending?] at hpending
  split at hpending
  · cases hpending
  · next hnot => exact h tenant hnot x.value now

theorem Puts.settle {c : Coordinator (Container k)} {x : Loaded (Container k)} (h : c.Puts admits)
    (hpending : c.pending? tenant = some x) (version : Nat) :
    (c.settle tenant x version).Puts admits := by
  intro tenant' x' hpending'
  by_cases heq : tenant' = tenant
  · subst heq
    rw [pending?] at hpending hpending'
    split at hpending'
    · cases hpending'
    · next hnot =>
      rw [Coordinator.settle, StringMap.get?_insert, if_pos rfl] at hpending'
      obtain rfl := Option.some.inj hpending'
      exact h tenant' x ((if_neg hnot).trans ((if_neg hnot).symm.trans hpending))
  · rw [pending?_settle_of_ne heq] at hpending'
    exact h tenant' x' hpending'

theorem writes_putBack {x : Loaded (Container k)}
    (h : ∀ now, RowStore.Puts admits now k.table (key tenant).encode (Storable.payload x.value) none)
    (linearizable : Bool) : Update.Writes admits (putBack linearizable tenant x) := by
  refine .ite ?_ (Update.writes_put h)
  refine .bind (Update.writes_putIfVersion h) fun written => ?_
  cases written with
  | applied version => exact .pure version
  | rejected found => exact .throw _

variable {d : Desk (Coordinator (Container k))}

theorem wrote_writeBack (h : d.held.Puts admits) (tenant : String) :
    RowStore.Wrote admits d.rows (writeBack tenant d).2.rows ∧
      (writeBack tenant d).2.held.Puts admits := by
  cases hpending : d.held.pending? tenant with
  | none =>
    rw [writeBack_of_none hpending]
    exact ⟨.refl _, h⟩
  | some x =>
    have hput := (writes_putBack (h tenant x hpending) d.held.linearizable).wrote d.rows
    cases hresult : putBack d.held.linearizable tenant x d.rows with
    | mk result s' =>
      rw [hresult] at hput
      cases result with
      | ok version =>
        rw [(writeBack_of_some hpending).1 version s' hresult]
        exact ⟨hput, h.settle hpending version⟩
      | error e =>
        rw [(writeBack_of_some hpending).2 e s' hresult]
        exact ⟨hput, h⟩

theorem wrote_countTrue {tenants : List String} (h : d.held.Puts admits) :
    RowStore.Wrote admits d.rows (Work.countTrue writeBack tenants d).2.rows := by
  induction tenants generalizing d with
  | nil => exact .refl _
  | cons tenant tenants ih =>
    obtain ⟨hwrote, hputs⟩ := wrote_writeBack h tenant
    cases hd : writeBack tenant d with
    | mk result d' =>
      rw [hd] at hwrote hputs
      cases result with
      | ok done =>
        rw [(countTrue_of_ok hd).2]
        exact hwrote.trans (ih hputs)
      | error e =>
        rw [Work.countTrue, Work.bind_of_error hd]
        exact hwrote

theorem wrote_flush (h : d.held.Puts admits) : RowStore.Wrote admits d.rows (flush d).2.rows :=
  wrote_countTrue (d := { d with held := { d.held with changed := ∅ } }) h

theorem Request.writes (h : RowStore.Allows admits k.table) (tenant : String)
    (request : Request k α) : Work.Writes admits (request.perform tenant) := by
  cases request with
  | read f => exact (Editing.read tenant f).writes
  | tryUpdate f => exact (Editing.tryUpdate tenant f).writes
  | update f => exact (Editing.update tenant f).writes
  | markChanged | markDeleted | close => exact Work.writes_modifyHeld _
  | delete => exact writes_delete fun now => h.clears now _
  | pendingWrites => exact .bind Work.writes_held fun _ => .pure _
  | flush =>
    exact Work.writes_of_wrote fun d =>
      wrote_flush (puts_of_container fun _ _ _ now => h.puts now _ _ _)

end Coordinator

namespace UnitOfWork

variable {d : Desk UnitOfWork} {kinds : List ContainerKind}

theorem wrote_completing (h : (d.held.coordinator k).Puts admits) :
    RowStore.Wrote admits d.rows (completing (part k) d).2.rows ∧
      ∀ j, j ≠ k → (completing (part k) d).2.held.coordinator j = d.held.coordinator j := by
  have hflush := Coordinator.wrote_flush (d := { d with held := d.held.coordinator k }) h
  cases hd : Coordinator.flush { d with held := d.held.coordinator k } with
  | mk flushed e =>
    rw [hd] at hflush
    rw [completing_eq hd]
    exact ⟨hflush, fun j hj => coordinator_set_of_ne hj d.held e.held.closed⟩

theorem wrote_completions (hnodup : kinds.Nodup)
    (h : ∀ k ∈ kinds, (d.held.coordinator k).Puts admits) :
    RowStore.Wrote admits d.rows
      ((kinds.forM fun k => completing (part k) : Work UnitOfWork Unit) d).2.rows := by
  induction kinds generalizing d with
  | nil => exact .refl _
  | cons k kinds ih =>
    obtain ⟨hk, hnodup⟩ := List.nodup_cons.mp hnodup
    obtain ⟨hwrote, hothers⟩ := wrote_completing (h k List.mem_cons_self)
    rw [show (k :: kinds).forM (fun k => completing (part k)) =
      (completing (part k) >>= fun _ => kinds.forM fun k => completing (part k)) from rfl]
    cases hd : completing (part k) d with
    | mk result d' =>
      rw [hd] at hwrote hothers
      cases result with
      | ok _ =>
        rw [Work.bind_of_ok hd]
        refine hwrote.trans (ih hnodup fun j hj => ?_)
        have hne : j ≠ k := by
          rintro rfl
          exact hk hj
        rw [hothers j hne]
        exact h j (List.mem_cons_of_mem _ hj)
      | error e =>
        rw [Work.bind_of_error hd]
        exact hwrote

theorem wrote_commit (h : ∀ k, (d.held.coordinator k).Puts admits) :
    RowStore.Wrote admits d.rows (commit d).2.rows := by
  have hdistinct : allKinds.Nodup := by decide
  have hcompleted := wrote_completions hdistinct fun k _ => h k
  rcases commit_cases d with ⟨-, heq⟩ | ⟨e, -, heq⟩
  · rw [heq]
    exact hcompleted
  · rw [heq, (abort_spec _).1]
    exact hcompleted

end UnitOfWork

end IdentityDirectory
