import IdentityDirectory.Proofs.Container.WriteBack

/-!
Commits of a unit of work, which write the containers of one kind back after those of another. Main
statement: what a commit does to every container and how it fails (`committed_commit`).
-/

namespace IdentityDirectory

namespace UnitOfWork

variable {k j : ContainerKind}

def part : (k : ContainerKind) → Part UnitOfWork (Coordinator (Container k))
  | .roles => rolesPart
  | .groups => groupsPart
  | .clientScopes => clientScopesPart

def coordinator (u : UnitOfWork) (k : ContainerKind) : Coordinator (Container k) := (part k).get u

theorem coordinator_set (u : UnitOfWork) (c : Coordinator (Container k)) :
    ((part k).set c u).coordinator k = c := (part k).get_set c u

theorem coordinator_set_of_ne (h : j ≠ k) (u : UnitOfWork) (c : Coordinator (Container k)) :
    ((part k).set c u).coordinator j = u.coordinator j := by
  cases k <;> cases j <;> first | rfl | exact absurd rfl h

def Due (u : UnitOfWork) (k : ContainerKind) (tenant : String) : Prop :=
  tenant ∈ (u.coordinator k).pendingWrites

open Coordinator (Replaced Blocked WrittenBack)

structure Committed (kinds : List ContainerKind) (d d' : Desk UnitOfWork)
    (result : Except StoreError Unit) : Prop where
  lasting : ∀ k, d'.rows.Lasting k
  flags : ∀ k, (d'.held.coordinator k).linearizable = true
  untouched : ∀ k, k ∉ kinds → d'.held.coordinator k = d.held.coordinator k ∧
    d'.rows.table k.table = d.rows.table k.table
  rows : ∀ k tenant, d'.rows.containerRow k tenant = d.rows.containerRow k tenant ∨
    k ∈ kinds ∧ d.held.Due k tenant ∧
      Replaced (d.held.coordinator k).pending? d.rows d'.rows tenant
  complete : result = .ok () → ∀ k ∈ kinds, (d'.held.coordinator k).loaded = ∅ ∧
    ∀ tenant, d.held.Due k tenant →
      Replaced (d.held.coordinator k).pending? d.rows d'.rows tenant
  refused : ∀ e, result = .error e → ∃ k ∈ kinds, ∃ tenant, d.held.Due k tenant ∧
    Blocked (d.held.coordinator k).pending? d.rows tenant ∧ e = .concurrentModification k tenant

variable {d d' d'' : Desk UnitOfWork} {kinds : List ContainerKind}
  {result : Except StoreError Unit}

theorem Committed.nil (h : ∀ k, d.rows.Lasting k)
    (hlin : ∀ k, (d.held.coordinator k).linearizable = true) : Committed [] d d (.ok ()) where
  lasting := h
  flags := hlin
  untouched _ _ := ⟨rfl, rfl⟩
  rows _ _ := .inl rfl
  complete _ _ hmem := absurd hmem List.not_mem_nil
  refused _ he := by cases he

theorem due_of_replaced {s s' : RowStore} {u : UnitOfWork} {tenant : String}
    (hmem : tenant ∈ (u.coordinator k).changed.toList)
    (h : Replaced (u.coordinator k).pending? s s' tenant) : u.Due k tenant := by
  obtain ⟨x, hx, -⟩ := h
  exact Coordinator.mem_pendingWrites_iff.mpr ⟨hmem, x, hx⟩

theorem completing_eq {k : ContainerKind} {d : Desk UnitOfWork} {flushed : Except StoreError Nat}
    {e : Desk (Coordinator (Container k))}
    (h : Coordinator.flush { d with held := d.held.coordinator k } = (flushed, e)) :
    completing (part k) d =
      (flushed.map fun _ => (), { e with held := (part k).set e.held.closed d.held }) := by
  have hon : Work.on (part k) Coordinator.flush d =
      (flushed, { e with held := (part k).set e.held d.held }) := by
    rw [Work.on, show (part k).get d.held = d.held.coordinator k from rfl, h]
  rw [completing, hon]
  cases k <;> rfl

theorem committed_completing (h : ∀ k, d.rows.Lasting k)
    (hlin : ∀ k, (d.held.coordinator k).linearizable = true) (k : ContainerKind) :
    Committed [k] d (completing (part k) d).2 (completing (part k) d).1 := by
  obtain ⟨hflush, hflag⟩ :=
    Coordinator.writtenBack_flush (d := { d with held := d.held.coordinator k }) (hlin k) (h k)
  cases hd : Coordinator.flush { d with held := d.held.coordinator k } with
  | mk flushed e =>
    rw [hd] at hflush hflag
    rw [completing_eq hd]
    constructor
    · intro j
      exact hflush.lasting j (h j)
    · intro j
      by_cases hj : j = k
      · subst hj
        rw [coordinator_set]
        exact hflag
      · rw [coordinator_set_of_ne hj]
        exact hlin j
    · intro j hj
      have hne : j ≠ k := fun heq => hj (heq ▸ List.mem_singleton_self k)
      constructor
      · rw [coordinator_set_of_ne hne]
      · exact hflush.others j.table (ContainerKind.table_ne hne)
    · intro j tenant
      by_cases hj : j = k
      · subst hj
        rcases hflush.rows tenant with hsame | ⟨hmem, hreplaced⟩
        · exact .inl hsame
        · exact .inr ⟨List.mem_singleton_self j, due_of_replaced hmem hreplaced, hreplaced⟩
      · have htable := hflush.others j.table (ContainerKind.table_ne hj)
        exact .inl (RowStore.containerRow_congr htable tenant)
    · intro hok j hj
      obtain rfl := List.mem_singleton.mp hj
      constructor
      · rw [coordinator_set]
        rfl
      · intro tenant hdue
        obtain ⟨hmem, hpending⟩ := Coordinator.mem_pendingWrites_iff.mp hdue
        exact hflush.complete hok tenant hmem hpending
    · intro err herr
      obtain ⟨tenant, hmem, hblocked, rfl⟩ := hflush.refused err herr
      have hdue : d.held.Due k tenant := by
        obtain ⟨x, hx, -⟩ := hblocked
        exact Coordinator.mem_pendingWrites_iff.mpr ⟨hmem, x, hx⟩
      exact ⟨k, List.mem_singleton_self k, tenant, hdue, hblocked, rfl⟩

theorem Committed.cons (h : Committed [k] d d' (.ok ())) (hrest : Committed kinds d' d'' result)
    (hk : k ∉ kinds) : Committed (k :: kinds) d d'' result := by
  have hkept : ∀ j ∈ kinds, d'.held.coordinator j = d.held.coordinator j ∧
      d'.rows.table j.table = d.rows.table j.table := by
    intro j hj
    apply h.untouched j
    intro hmem
    obtain rfl := List.mem_singleton.mp hmem
    exact hk hj
  have hdue : ∀ j ∈ kinds, ∀ tenant, d'.held.Due j tenant ↔ d.held.Due j tenant := by
    intro j hj tenant
    rw [Due, Due, (hkept j hj).1]
  have hreplaced : ∀ j ∈ kinds, ∀ tenant,
      Replaced (d'.held.coordinator j).pending? d'.rows d''.rows tenant →
      Replaced (d.held.coordinator j).pending? d.rows d''.rows tenant := by
    rintro j hj tenant ⟨x, hx, hfits, hrow⟩
    rw [(hkept j hj).1] at hx
    rw [RowStore.containerRow_congr (hkept j hj).2] at hfits hrow
    exact ⟨x, hx, hfits, hrow⟩
  have hfirst : ∀ tenant, Replaced (d.held.coordinator k).pending? d.rows d'.rows tenant →
      Replaced (d.held.coordinator k).pending? d.rows d''.rows tenant := by
    rintro tenant ⟨x, hx, hfits, hrow⟩
    refine ⟨x, hx, hfits, ?_⟩
    rw [RowStore.containerRow_congr (hrest.untouched k hk).2]
    exact hrow
  constructor
  · exact hrest.lasting
  · exact hrest.flags
  · intro j hj
    have hj' := hrest.untouched j fun hmem => hj (List.mem_cons_of_mem _ hmem)
    have hj'' := h.untouched j fun hmem => hj (List.mem_singleton.mp hmem ▸ List.mem_cons_self)
    exact ⟨hj'.1.trans hj''.1, hj'.2.trans hj''.2⟩
  · intro j tenant
    rcases hrest.rows j tenant with hsame | ⟨hj, hd, hr⟩
    · rcases h.rows j tenant with hsame' | ⟨hj, hd, x, hx, hfits, hrow⟩
      · exact .inl (hsame.trans hsame')
      · refine .inr ⟨List.mem_singleton.mp hj ▸ List.mem_cons_self, hd, x, hx, hfits, ?_⟩
        rw [hsame, hrow]
    · exact .inr ⟨List.mem_cons_of_mem _ hj, (hdue j hj tenant).mp hd, hreplaced j hj tenant hr⟩
  · intro hok j hj
    rcases List.mem_cons.mp hj with rfl | hj
    · obtain ⟨hclosed, hall⟩ := h.complete rfl j (List.mem_singleton_self j)
      rw [(hrest.untouched j hk).1]
      exact ⟨hclosed, fun tenant hd => hfirst tenant (hall tenant hd)⟩
    · obtain ⟨hclosed, hall⟩ := hrest.complete hok j hj
      refine ⟨hclosed, fun tenant hd => ?_⟩
      exact hreplaced j hj tenant (hall tenant ((hdue j hj tenant).mpr hd))
  · intro e he
    obtain ⟨j, hj, tenant, hd, ⟨x, hx, hfits⟩, rfl⟩ := hrest.refused e he
    rw [(hkept j hj).1] at hx
    rw [RowStore.containerRow_congr (hkept j hj).2] at hfits
    exact ⟨j, List.mem_cons_of_mem _ hj, tenant, (hdue j hj tenant).mp hd, ⟨x, hx, hfits⟩, rfl⟩

theorem Committed.stop {e : StoreError} (h : Committed [k] d d' (.error e))
    (kinds : List ContainerKind) : Committed (k :: kinds) d d' (.error e) := by
  have hmem : ∀ j ∈ [k], j ∈ k :: kinds := by
    intro j hj
    rw [List.mem_singleton.mp hj]
    exact List.mem_cons_self
  constructor
  · exact h.lasting
  · exact h.flags
  · intro j hj
    exact h.untouched j fun hj' => hj (hmem j hj')
  · intro j tenant
    exact (h.rows j tenant).imp_right fun hr => ⟨hmem j hr.1, hr.2⟩
  · intro hok
    cases hok
  · intro e' he
    obtain ⟨j, hj, hrefused⟩ := h.refused e' he
    exact ⟨j, hmem j hj, hrefused⟩

theorem committed_completions (hnodup : kinds.Nodup) (h : ∀ k, d.rows.Lasting k)
    (hlin : ∀ k, (d.held.coordinator k).linearizable = true) :
    Committed kinds d ((kinds.forM fun k => completing (part k) : Work UnitOfWork Unit) d).2
      ((kinds.forM fun k => completing (part k) : Work UnitOfWork Unit) d).1 := by
  induction kinds generalizing d with
  | nil => exact .nil h hlin
  | cons k kinds ih =>
    obtain ⟨hk, hnodup⟩ := List.nodup_cons.mp hnodup
    have hfirst := committed_completing h hlin k
    rw [show (k :: kinds).forM (fun k => completing (part k)) =
      (completing (part k) >>= fun _ => kinds.forM fun k => completing (part k)) from rfl]
    cases hd : completing (part k) d with
    | mk result d' =>
      rw [hd] at hfirst
      cases result with
      | ok _ =>
        rw [Work.bind_of_ok hd]
        exact hfirst.cons (ih hnodup hfirst.lasting hfirst.flags) hk
      | error e =>
        rw [Work.bind_of_error hd]
        exact hfirst.stop kinds

def allKinds : List ContainerKind := [.roles, .groups, .clientScopes]

theorem mem_allKinds (k : ContainerKind) : k ∈ allKinds := by
  cases k <;> decide

theorem abort_spec (d : Desk UnitOfWork) : (abort d).2.rows = d.rows ∧
    ∀ k, (abort d).2.held.coordinator k = (d.held.coordinator k).closed := by
  refine ⟨rfl, fun k => ?_⟩
  cases k <;> rfl

theorem commit_cases (d : Desk UnitOfWork) :
    let completed := (allKinds.forM fun k => completing (part k) : Work UnitOfWork Unit) d
    completed.1 = .ok () ∧ commit d = completed ∨
      ∃ e, completed.1 = .error e ∧ commit d = (.error e, (abort completed.2).2) := by
  have hcommit : commit d = (tryCatch (allKinds.forM fun k => completing (part k))
      fun e => do (abort : StateM (Desk UnitOfWork) Unit); throw e : Work UnitOfWork Unit) d := rfl
  intro completed
  cases hd : completed with
  | mk result d' =>
    have hrun : (allKinds.forM fun k => completing (part k) : Work UnitOfWork Unit) d =
        (result, d') := hd
    simp only [tryCatch, tryCatchThe, MonadExceptOf.tryCatch, ExceptT.tryCatch, ExceptT.mk, bind,
      StateT.bind, hrun] at hcommit
    cases result with
    | ok _ => exact .inl ⟨rfl, hcommit⟩
    | error e => exact .inr ⟨e, rfl, hcommit⟩

theorem committed_commit (h : ∀ k, d.rows.Lasting k)
    (hlin : ∀ k, (d.held.coordinator k).linearizable = true) :
    Committed allKinds d (commit d).2 (commit d).1 ∧
      ∀ k, ((commit d).2.held.coordinator k).loaded = ∅ := by
  have hcompleted : Committed allKinds d _ _ := committed_completions (by decide) h hlin
  rcases commit_cases d with ⟨hok, heq⟩ | ⟨e, herror, heq⟩
  · rw [heq]
    exact ⟨hcompleted, fun k => (hcompleted.complete hok k (mem_allKinds k)).1⟩
  · obtain ⟨habort, hclosed⟩ := abort_spec
      ((allKinds.forM fun k => completing (part k) : Work UnitOfWork Unit) d).2
    rw [heq]
    rw [herror] at hcompleted
    constructor
    · constructor
      · rw [habort]
        exact hcompleted.lasting
      · intro k
        rw [hclosed]
        exact hcompleted.flags k
      · intro k hk
        exact absurd (mem_allKinds k) hk
      · rw [habort]
        exact hcompleted.rows
      · intro hok
        cases hok
      · exact hcompleted.refused
    · intro k
      rw [hclosed]
      rfl

end UnitOfWork

namespace World

def coordinator (w : World) (unit : Nat) (k : ContainerKind) : Coordinator (Container k) :=
  (w.units unit).coordinator k

def stored (w : World) (k : ContainerKind) (tenant : String) : Option Row :=
  w.rows.containerRow k tenant

variable {ω : Type} (w : World) (perform : ω → Work UnitOfWork Unit)

theorem coordinator_call (u : Nat) (operation : ω) (unit : Nat) (k : ContainerKind) :
    (w.step perform (.call u operation)).coordinator unit k =
      if unit = u then (perform operation (w.desk u)).2.held.coordinator k
      else w.coordinator unit k := by
  change ((if unit = u then _ else _) : UnitOfWork).coordinator k = _
  split <;> rfl

theorem coordinator_start (u unit : Nat) (k : ContainerKind) :
    (w.step perform (.start u)).coordinator unit k =
      if unit = u then { linearizable := w.linearizable } else w.coordinator unit k := by
  change ((if unit = u then _ else _) : UnitOfWork).coordinator k = _
  split
  · cases k <;> rfl
  · rfl

end World

end IdentityDirectory
