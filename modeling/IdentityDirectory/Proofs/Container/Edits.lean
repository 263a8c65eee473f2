import IdentityDirectory.Proofs.Container.Rows

/-!
Work on the containers of one kind within a unit of work. Main statements: what an edit leaves of
what is held (`Editing.edited`), and that every operation on roles, groups and client scopes is one.
-/

namespace IdentityDirectory

namespace Coordinator

variable {k : ContainerKind} {β : Type}

/-- Work that reads containers and changes copies of them, maybe after identifiers are drawn. -/
inductive Editing : {β : Type} → Work (Coordinator (Container k)) β → Prop
  | read {β : Type} (tenant : String) (f : Container k → β) : Editing (read tenant f)
  | tryUpdate {β : Type} (tenant : String) (f : Container k → Except StoreError (β × Container k)) :
    Editing (tryUpdate tenant f)
  | drawing {β : Type} {f : String → Work (Coordinator (Container k)) β} :
    (∀ id, Editing (f id)) → Editing (Work.newId >>= f)
  | withNewId {β : Type} {f : String → Work (Coordinator (Container k)) β} :
    (∀ id, Editing (f id)) → Editing (Work.withNewId f)
  | discard {β : Type} {work : Work (Coordinator (Container k)) β} :
    Editing work → Editing (Functor.discard work)

theorem Editing.update {β : Type} (tenant : String) (f : Container k → β × Container k) :
    Editing (update tenant f) := .tryUpdate tenant _

/-- Nothing is written, and a container that was not held before comes from the row that is there. -/
structure Edited (d d' : Desk (Coordinator (Container k))) : Prop where
  rows : d'.rows = d.rows
  linearizable : d'.held.linearizable = d.held.linearizable
  loaded : ∀ tenant x', d'.held.loaded.get? tenant = some x' →
    (∃ x, d.held.loaded.get? tenant = some x ∧ x'.version = x.version) ∨
      d.held.loaded.get? tenant = none ∧ x'.Fits (d.rows.containerRow k tenant)

variable {d : Desk (Coordinator (Container k))}

theorem Edited.of_loaded {d' : Desk (Coordinator (Container k))} (hrows : d'.rows = d.rows)
    (hlin : d'.held.linearizable = d.held.linearizable)
    (hloaded : d'.held.loaded = d.held.loaded) : Edited d d' := by
  refine ⟨hrows, hlin, fun tenant x' hx => ?_⟩
  rw [hloaded] at hx
  exact .inl ⟨x', hx, rfl⟩

theorem Edited.refl (d : Desk (Coordinator (Container k))) : Edited d d := .of_loaded rfl rfl rfl

theorem stored_fits_live {s : RowStore} {tenant : String} {x : Loaded (Container k)}
    (h : s.ReadableAt k.table (key tenant).encode) (hx : stored tenant s = .ok x) :
    x.Fits ((s.containerRow k tenant).filter (·.isLive s.now)) := by
  have hrow : Query.row (Aggregate.table (Container k)) (key tenant) s =
      .ok ((s.containerRow k tenant).filter (·.isLive s.now)) :=
    Query.ofRows_of_ok (h.get_eq (key tenant))
  rw [stored, Query.bind_of_ok hrow] at hx
  cases hr : (s.containerRow k tenant).filter (·.isLive s.now) with
  | none =>
    rw [hr] at hx
    obtain rfl := Except.ok.inj hx
    rfl
  | some r =>
    rw [hr] at hx
    have hread : (Query.ofRows (fun _ => (r.read : Except StorageFault (Container k))) s >>=
        fun a => .ok ⟨a, some r.version⟩) = .ok x := hx
    cases hvalue : Query.ofRows (fun _ => (r.read : Except StorageFault (Container k))) s with
    | error e =>
      rw [hvalue] at hread
      cases hread
    | ok a =>
      rw [hvalue] at hread
      obtain rfl := Except.ok.inj hread
      rfl

theorem stored_fits {s : RowStore} (h : s.Lasting k) {tenant : String} {x : Loaded (Container k)}
    (hx : stored tenant s = .ok x) : x.Fits (s.containerRow k tenant) := by
  have hfits := stored_fits_live (h.readable _) hx
  rw [RowStore.containerRow, h.live_eq] at hfits
  exact hfits

theorem load_of_held {tenant : String} {x : Loaded (Container k)}
    (h : d.held.loaded.get? tenant = some x) : load tenant d = (.ok x, d) := by
  rw [load, Work.bind_of_ok (show Work.held d = (.ok d.held, d) from rfl), h]
  rfl

theorem load_of_stored {tenant : String} {x : Loaded (Container k)}
    (h : d.held.loaded.get? tenant = none) (hx : stored tenant d.rows = .ok x) :
    load tenant d =
      (.ok x, { d with held := { d.held with loaded := d.held.loaded.insert tenant x } }) := by
  rw [load, Work.bind_of_ok (show Work.held d = (.ok d.held, d) from rfl), h]
  have hquery : (liftM (stored tenant : Query (Loaded (Container k))) :
      Work (Coordinator (Container k)) _) d = (.ok x, d) := by
    rw [Work.liftM_query_apply, hx]
  exact Work.bind_of_ok hquery _

theorem load_of_error {tenant : String} {e : StoreError}
    (h : d.held.loaded.get? tenant = none)
    (he : (stored tenant : Query (Loaded (Container k))) d.rows = .error e) :
    load tenant d = (.error e, d) := by
  rw [load, Work.bind_of_ok (show Work.held d = (.ok d.held, d) from rfl), h]
  have hquery : (liftM (stored tenant : Query (Loaded (Container k))) :
      Work (Coordinator (Container k)) _) d = (.error e, d) := by
    rw [Work.liftM_query_apply, he]
  exact Work.bind_of_error hquery _

theorem load_cases (h : d.rows.Lasting k) (tenant : String) :
    (∃ e, load tenant d = (.error e, d)) ∨
      ∃ x d', load tenant d = (.ok x, d') ∧ Edited d d' ∧ d'.held.loaded.get? tenant = some x := by
  cases hheld : d.held.loaded.get? tenant with
  | some x => exact .inr ⟨x, d, load_of_held hheld, .refl d, hheld⟩
  | none =>
    cases hstored : (stored tenant : Query (Loaded (Container k))) d.rows with
    | error e => exact .inl ⟨e, load_of_error hheld hstored⟩
    | ok x =>
      refine .inr ⟨x, _, load_of_stored hheld hstored, ⟨rfl, rfl, ?_⟩, ?_⟩
      · intro tenant' x' hx'
        rw [StringMap.get?_insert] at hx'
        split at hx'
        · next ht =>
          obtain rfl := Option.some.inj hx'
          rw [ht]
          exact .inr ⟨hheld, stored_fits h hstored⟩
        · exact .inl ⟨x', hx', rfl⟩
      · rw [StringMap.get?_insert, if_pos rfl]

theorem Edited.keep {d' : Desk (Coordinator (Container k))} (h : Edited d d') {tenant : String}
    {x : Loaded (Container k)} (hx : d'.held.loaded.get? tenant = some x) (value : Container k)
    (changed : StringSet) :
    Edited d { d' with held := { d'.held with
      loaded := d'.held.loaded.insert tenant { x with value }, changed } } := by
  refine ⟨h.rows, h.linearizable, fun tenant' x' hx' => ?_⟩
  rw [StringMap.get?_insert] at hx'
  split at hx'
  · next ht =>
    obtain rfl := Option.some.inj hx'
    rw [ht]
    exact h.loaded tenant x hx
  · exact h.loaded tenant' x' hx'

theorem Editing.edited {β : Type} {work : Work (Coordinator (Container k)) β} (hw : Editing work)
    (h : d.rows.Lasting k) : Edited d (work d).2 := by
  induction hw generalizing d with
  | read tenant f =>
    rcases load_cases h tenant with ⟨e, hload⟩ | ⟨x, d', hload, hedited, -⟩
    · rw [Coordinator.read, Work.bind_of_error hload]
      exact .refl d
    · rw [Coordinator.read, Work.bind_of_ok hload]
      exact hedited
  | tryUpdate tenant f =>
    rcases load_cases h tenant with ⟨e, hload⟩ | ⟨x, d', hload, hedited, hx⟩
    · rw [Coordinator.tryUpdate, Work.bind_of_error hload]
      exact .refl d
    · rw [Coordinator.tryUpdate, Work.bind_of_ok hload]
      cases hf : f x.value with
      | error e => exact hedited
      | ok result =>
        obtain ⟨a, value⟩ := result
        exact hedited.keep hx value _
  | drawing _ ih =>
    have hnext := ih (Identifier.hyphenated (d.draws.value d.draws.next))
      (d := { d with draws := { d.draws with next := d.draws.next + 1 } }) h
    exact ⟨hnext.rows, hnext.linearizable, hnext.loaded⟩
  | @withNewId _ f _ ih =>
    have hdone := ih (Identifier.hyphenated (d.draws.value d.draws.next)) h
    obtain ⟨draws, heq⟩ := Work.exists_withNewId f d
    rw [heq]
    exact ⟨hdone.rows, hdone.linearizable, hdone.loaded⟩
  | discard _ ih =>
    rw [Work.discard_desk]
    exact ih h

end Coordinator

open Coordinator (Editing)

theorem Roles.operations_editing (r : String) :
    (∀ role, Editing (k := .roles) (addRole r role)) ∧
    (∀ name, Editing (k := .roles) (addRealmRole r name)) ∧
    (∀ client name, Editing (k := .roles) (addClientRole r client name)) ∧
    (∀ id, Editing (k := .roles) (getRole r id)) ∧
    (∀ name, Editing (k := .roles) (getRealmRole r name)) ∧
    (∀ client name, Editing (k := .roles) (getClientRole r client name)) ∧
    (∀ search page, Editing (k := .roles) (realmRoles r search page)) ∧
    (∀ client search page, Editing (k := .roles) (clientRoles r client search page)) ∧
    (∀ role, Editing (k := .roles) (updateRole r role)) ∧
    (∀ id, Editing (k := .roles) (removeRole r id)) ∧
    (∀ client, Editing (k := .roles) (removeClientRoles r client)) ∧
    (∀ id child, Editing (k := .roles) (addComposite r id child)) ∧
    (∀ id child, Editing (k := .roles) (removeComposite r id child)) ∧
    (∀ id search page, Editing (k := .roles) (composites r id search page)) ∧
    (∀ granted id, Editing (k := .roles) (hasRole r granted id)) ∧
    ∀ ids, Editing (k := .roles) (resolve r ids) := by
  refine ⟨fun role => .tryUpdate r _, fun name => .drawing fun id => .tryUpdate r _,
    fun client name => .drawing fun id => .tryUpdate r _, fun id => .read r _,
    fun name => .read r _, fun client name => .read r _, fun search page => .read r _,
    fun client search page => .read r _, fun role => .tryUpdate r _, fun id => .update r _,
    fun client => .update r _, fun id child => .tryUpdate r _, fun id child => .update r _,
    fun id search page => .read r _, fun granted id => .read r _, fun ids => .read r _⟩

theorem Groups.operations_editing (r : String) :
    (∀ name parent, Editing (k := .groups) (createGroup r name parent)) ∧
    (∀ id, Editing (k := .groups) (getGroup r id)) ∧
    (∀ id, Editing (k := .groups) (groupPath r id)) ∧
    (∀ id search page, Editing (k := .groups) (subGroups r id search page)) ∧
    (∀ search page, Editing (k := .groups) (topLevelGroups r search page)) ∧
    (∀ search page, Editing (k := .groups) (searchGroups r search page)) ∧
    (∀ id parent, Editing (k := .groups) (moveGroup r id parent)) ∧
    (∀ id name, Editing (k := .groups) (renameGroup r id name)) ∧
    (∀ id name values, Editing (k := .groups) (setGroupAttribute r id name values)) ∧
    (∀ id, Editing (k := .groups) (removeGroup r id)) ∧
    (∀ id role, Editing (k := .groups) (grantGroupRole r id role)) ∧
    (∀ id role, Editing (k := .groups) (revokeGroupRole r id role)) ∧
    (∀ ids, Editing (k := .groups) (resolveGroups r ids)) ∧
    ∀ ids, Editing (k := .groups) (inheritedRoleIds r ids) := by
  refine ⟨fun name parent => .withNewId fun id => .tryUpdate r _, fun id => .read r _,
    fun id => .read r _, fun id search page => .read r _, fun search page => .read r _,
    fun search page => .read r _, fun id parent => .tryUpdate r _, fun id name => .tryUpdate r _,
    fun id name values => .update r _, fun id => .update r _, fun id role => .update r _,
    fun id role => .update r _, fun ids => .read r _, fun ids => .read r _⟩

theorem ClientScopes.operations_editing (r : String) :
    (∀ name protocol, Editing (k := .clientScopes) (addClientScope r name protocol)) ∧
    (∀ id, Editing (k := .clientScopes) (getClientScope r id)) ∧
    (∀ name, Editing (k := .clientScopes) (getClientScopeByName r name)) ∧
    Editing (k := .clientScopes) (clientScopes r) ∧
    (∀ scope, Editing (k := .clientScopes) (updateClientScope r scope)) ∧
    (∀ id, Editing (k := .clientScopes) (removeClientScope r id)) ∧
    ∀ id role, Editing (k := .clientScopes) (addScopeRole r id role) := by
  refine ⟨fun name protocol => .withNewId fun id => .tryUpdate r _, fun id => .read r _,
    fun name => .read r _, .read r _, fun scope => .tryUpdate r _, fun id => .update r _,
    fun id role => .update r _⟩

end IdentityDirectory
