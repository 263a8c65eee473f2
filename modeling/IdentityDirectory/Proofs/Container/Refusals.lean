import IdentityDirectory.Proofs.Container.Footprint
import IdentityDirectory.Proofs.Container.InPlace

/-!
Calls that refuse. All that such a call leaves behind is a container that it has loaded and that nobody
asked for before, and what is held ahead of need is not noticed while the row that it was loaded from
stays. Main statements: `Attempt.refused`, and that every request gives the same at a coordinator that
is ahead of another (`Request.follows`).
-/

namespace IdentityDirectory

variable {α β : Type} {k : ContainerKind} {s s' : RowStore} {tenant : String}

theorem Update.rows_of_error {f : RowStore → Except StorageFault (α × RowStore)} {e : StoreError}
    (h : Update.ofRows f s = (.error e, s')) : s' = s := by
  rw [ofRows] at h
  split at h
  · cases (Prod.mk.inj h).1
  · exact (Prod.mk.inj h).2.symm

namespace Coordinator

variable {c c' c'' : Coordinator (Container k)} {d d' : Desk (Coordinator (Container k))}

theorem stored_of_get (h : s'.get k.table (key tenant) = s.get k.table (key tenant)) :
    (stored tenant s' : Except StoreError (Loaded (Container k))) = stored tenant s := by
  have hrow : Query.row (Aggregate.table (Container k)) (key tenant) s' =
      Query.row (Aggregate.table (Container k)) (key tenant) s :=
    congrArg (Except.mapError _) h
  refine Query.bind_congr hrow fun found _ => ?_
  cases found with
  | none => rfl
  | some row => rfl

theorem stored_congr (hnow : s'.now = s.now)
    (hcell : (s'.table k.table).get? (key tenant).encode =
      (s.table k.table).get? (key tenant).encode) :
    (stored tenant s' : Except StoreError (Loaded (Container k))) = stored tenant s :=
  stored_of_get (RowStore.get_congr hnow hcell)

/-- Two coordinators for one unit of work, of which the first holds what the second holds and maybe
also containers that the second would load as they are. -/
structure Ahead (s : RowStore) (c c' : Coordinator (Container k)) : Prop where
  linearizable : c.linearizable = c'.linearizable
  changed : c.changed = c'.changed
  deleted : c.deleted = c'.deleted
  loaded : ∀ t, c.loaded.get? t = c'.loaded.get? t ∨
    c'.loaded.get? t = none ∧ ∃ x, c.loaded.get? t = some x ∧ stored t s = .ok x

theorem Ahead.refl (s : RowStore) (c : Coordinator (Container k)) : Ahead s c c :=
  ⟨rfl, rfl, rfl, fun _ => .inl rfl⟩

theorem Ahead.trans (h : Ahead s c c') (h' : Ahead s c' c'') : Ahead s c c'' where
  linearizable := h.linearizable.trans h'.linearizable
  changed := h.changed.trans h'.changed
  deleted := h.deleted.trans h'.deleted
  loaded t := by
    rcases h.loaded t with hsame | ⟨hnone, hloaded⟩
    · rw [hsame]
      exact h'.loaded t
    · rcases h'.loaded t with hsame' | ⟨hnone', -⟩
      · exact .inr ⟨hsame' ▸ hnone, hloaded⟩
      · exact .inr ⟨hnone', hloaded⟩

theorem Ahead.held (h : Ahead s c c') {x : Loaded (Container k)}
    (hx : c'.loaded.get? tenant = some x) : c.loaded.get? tenant = some x := by
  rcases h.loaded tenant with hsame | ⟨hnone, -⟩
  · exact hsame.trans hx
  · rw [hnone] at hx
    cases hx

theorem Ahead.at_rows (h : Ahead s c c')
    (hs : ∀ t, c'.loaded.get? t = none → (c.loaded.get? t).isSome →
      (stored t s' : Except StoreError (Loaded (Container k))) = stored t s) : Ahead s' c c' where
  linearizable := h.linearizable
  changed := h.changed
  deleted := h.deleted
  loaded t := by
    rcases h.loaded t with hsame | ⟨hnone, x, hx, hstored⟩
    · exact .inl hsame
    · refine .inr ⟨hnone, x, hx, ?_⟩
      rw [hs t hnone (by rw [hx]; rfl)]
      exact hstored

theorem Ahead.keep (h : Ahead s c c') (tenant : String) (x : Loaded (Container k)) :
    Ahead s { c with loaded := c.loaded.insert tenant x }
      { c' with loaded := c'.loaded.insert tenant x } where
  linearizable := h.linearizable
  changed := h.changed
  deleted := h.deleted
  loaded t := by
    simp only [StringMap.get?_insert]
    split
    · exact .inl rfl
    · exact h.loaded t

theorem Ahead.catchUp (h : Ahead s c c') {x : Loaded (Container k)}
    (hx : c.loaded.get? tenant = some x) :
    Ahead s c { c' with loaded := c'.loaded.insert tenant x } where
  linearizable := h.linearizable
  changed := h.changed
  deleted := h.deleted
  loaded t := by
    simp only [StringMap.get?_insert]
    split
    · next heq => exact .inl (heq ▸ hx)
    · exact h.loaded t

theorem ahead_loaded {x : Loaded (Container k)} (hnone : c.loaded.get? tenant = none)
    (hx : stored tenant s = .ok x) :
    Ahead s { c with loaded := c.loaded.insert tenant x } c where
  linearizable := rfl
  changed := rfl
  deleted := rfl
  loaded t := by
    simp only [StringMap.get?_insert]
    split
    · next heq => exact .inr ⟨heq ▸ hnone, x, rfl, heq ▸ hx⟩
    · exact .inl rfl

theorem Ahead.closed (h : Ahead s c c') : Ahead s' c.closed c'.closed :=
  ⟨h.linearizable, rfl, rfl, fun _ => .inl rfl⟩

def ahead (k : ContainerKind) : Boundary (Desk (Coordinator (Container k))) where
  shared d d' := d.rows = d'.rows ∧ d.draws = d'.draws ∧ Ahead d.rows d.held d'.held
  spared _ _ := True
  refl _ := trivial
  trans _ _ := trivial

theorem isolates_modifyHeld {f : Coordinator (Container k) → Coordinator (Container k)}
    (hf : ∀ s c c', Ahead s c c' → Ahead s (f c) (f c')) :
    (ahead k).Isolates (Work.modifyHeld f) :=
  fun _ _ ⟨hrows, hdraws, h⟩ => ⟨rfl, ⟨hrows, hdraws, hf _ _ _ h⟩, trivial⟩

theorem isolates_keep (tenant : String) (x : Loaded (Container k)) :
    (ahead k).Isolates (keep tenant x) :=
  isolates_modifyHeld fun _ _ _ h => h.keep tenant x

theorem isolates_markChanged (tenant : String) :
    (ahead k).Isolates (markChanged tenant : Work (Coordinator (Container k)) Unit) :=
  isolates_modifyHeld fun _ _ _ h =>
    ⟨h.linearizable, congrArg (·.insert tenant) h.changed, h.deleted, h.loaded⟩

theorem isolates_markDeleted (tenant : String) :
    (ahead k).Isolates (markDeleted tenant : Work (Coordinator (Container k)) Unit) :=
  isolates_modifyHeld fun _ _ _ h =>
    ⟨h.linearizable, h.changed, congrArg (·.insert tenant) h.deleted, h.loaded⟩

theorem isolates_close : (ahead k).Isolates (close : Work (Coordinator (Container k)) Unit) :=
  isolates_modifyHeld fun _ _ _ h => h.closed

theorem sharesDraws_ahead (k : ContainerKind) : (ahead k).SharesDraws where
  eq hd := hd.2.1
  shared _ hd := ⟨hd.1, rfl, hd.2.2⟩
  spared _ _ := trivial

theorem isolates_load (tenant : String) :
    (ahead k).Isolates (load tenant : Work (Coordinator (Container k)) (Loaded (Container k))) := by
  rintro d d' ⟨hrows, hdraws, h⟩
  cases hheld' : d'.held.loaded.get? tenant with
  | some x =>
    rw [load_of_held hheld', load_of_held (h.held hheld')]
    exact ⟨rfl, ⟨hrows, hdraws, h⟩, trivial⟩
  | none =>
    rcases h.loaded tenant with hsame | ⟨-, x, hheld, hstored⟩
    · have hheld := hsame.trans hheld'
      cases hstored : (stored tenant : Query (Loaded (Container k))) d.rows with
      | error e =>
        rw [load_of_error hheld hstored, load_of_error hheld' (hrows ▸ hstored)]
        exact ⟨rfl, ⟨hrows, hdraws, h⟩, trivial⟩
      | ok x =>
        rw [load_of_stored hheld hstored, load_of_stored hheld' (hrows ▸ hstored)]
        exact ⟨rfl, ⟨hrows, hdraws, h.keep tenant x⟩, trivial⟩
    · rw [load_of_held hheld, load_of_stored hheld' (hrows ▸ hstored)]
      exact ⟨rfl, ⟨hrows, hdraws, h.catchUp hheld⟩, trivial⟩

theorem Editing.isolates {work : Work (Coordinator (Container k)) β} (h : Editing work) :
    (ahead k).Isolates work := by
  induction h with
  | read tenant f => exact .bind (isolates_load tenant) fun _ => .pure _
  | tryUpdate tenant f =>
    refine .bind (isolates_load tenant) fun x => .bind (.except (f x.value)) fun changed => ?_
    refine .bind (isolates_keep tenant _) fun _ => ?_
    exact .bind (isolates_markChanged tenant) fun _ => .pure changed.1
  | drawing _ ih => exact .bind (sharesDraws_ahead k).newId ih
  | withNewId _ ih => exact (sharesDraws_ahead k).withNewId ih
  | discard _ ih => exact .discard ih

def only (k : ContainerKind) (tenant : String) (_ : Int) (t : Table) (key : String)
    (_ : Option Cell) : Prop :=
  t = k.table ∧ key = (Coordinator.key tenant).encode

theorem Ahead.wrote (h : Ahead s c c') (hw : RowStore.Wrote (only k tenant) s s')
    (hsame : c.loaded.get? tenant = c'.loaded.get? tenant) : Ahead s' c c' := by
  refine h.at_rows fun t hnone hsome => stored_congr hw.now ((hw.cells _ _).resolve_right ?_)
  rintro ⟨-, heq⟩
  obtain rfl := encode_key_inj heq
  rw [hsame, hnone] at hsome
  cases hsome

theorem Ahead.drop (h : Ahead s c c') (tenant : String) :
    Ahead s { c with loaded := c.loaded.erase tenant, deleted := c.deleted.insert tenant }
      { c' with loaded := c'.loaded.erase tenant, deleted := c'.deleted.insert tenant } where
  linearizable := h.linearizable
  changed := h.changed
  deleted := congrArg (·.insert tenant) h.deleted
  loaded t := by
    simp only [StringMap.get?_erase]
    split
    · exact .inl rfl
    · exact h.loaded t

theorem isolates_delete (tenant : String) :
    (ahead k).Isolates (delete tenant : Work (Coordinator (Container k)) Bool) := by
  rintro d ⟨-, -, held'⟩ ⟨rfl, rfl, h⟩
  have hwrote : RowStore.Wrote (only k tenant) d.rows
      (Update.delete k.table (key tenant) d.rows).2 :=
    (Update.writes_delete fun _ => ⟨rfl, rfl⟩).wrote d.rows
  cases hdelete : Update.delete k.table (key tenant) d.rows with
  | mk result s =>
    have hlift : ∀ held : Coordinator (Container k),
        (liftM (Update.delete k.table (key tenant)) : Work (Coordinator (Container k)) Bool)
          { d with held } = (result, ⟨s, d.draws, held⟩) :=
      fun _ => Work.liftM_update_of_eq hdelete
    rw [hdelete] at hwrote
    cases result with
    | ok removed =>
      have hdropped : ∀ held : Coordinator (Container k), delete tenant { d with held } =
          (.ok removed, ⟨s, d.draws, { held with
            loaded := held.loaded.erase tenant, deleted := held.deleted.insert tenant }⟩) :=
        fun held => Work.bind_of_ok (hlift held) _
      rw [hdropped d.held, hdropped held']
      refine ⟨rfl, ⟨rfl, rfl, (h.drop tenant).wrote hwrote ?_⟩, trivial⟩
      simp only [StringMap.get?_erase, if_pos]
    | error e =>
      have hfailed : ∀ held : Coordinator (Container k), delete tenant { d with held } =
          (.error e, ⟨s, d.draws, held⟩) := fun held => Work.bind_of_error (hlift held) _
      rw [hfailed d.held, hfailed held']
      obtain rfl := Update.rows_of_error hdelete
      exact ⟨rfl, ⟨rfl, rfl, h⟩, trivial⟩

/-- Nothing is to be written back that only the first holds. -/
def Even (c c' : Coordinator (Container k)) : Prop := ∀ t ∈ c.pendingWrites, t ∈ c'.loaded

instance (c c' : Coordinator (Container k)) : Decidable (Even c c') :=
  inferInstanceAs (Decidable (∀ t ∈ c.pendingWrites, t ∈ c'.loaded))

theorem Ahead.pendingWrites (h : Ahead s c c') :
    c'.pendingWrites = c.pendingWrites.filter (· ∈ c'.loaded) := by
  rw [Coordinator.pendingWrites, Coordinator.pendingWrites, List.filter_filter, h.changed, h.deleted]
  refine List.filter_congr fun t _ => ?_
  by_cases hheld : t ∈ c'.loaded
  · obtain ⟨x, hx⟩ := Option.isSome_iff_exists.mp hheld
    have hheld' : t ∈ c.loaded := StringMap.mem_iff.mpr (by rw [h.held hx]; rfl)
    simp only [hheld, hheld', decide_true, Bool.and_true, Bool.true_and]
  · simp only [hheld, decide_false, Bool.and_false, Bool.false_and]

theorem Ahead.pendingWrites_of_even (h : Ahead s c c') (heven : Even c c') :
    c.pendingWrites = c'.pendingWrites := by
  rw [h.pendingWrites, List.filter_eq_self.mpr]
  exact fun t ht => decide_eq_true (heven t ht)

theorem pending?_eq_some_iff {x : Loaded (Container k)} :
    c.pending? tenant = some x ↔ tenant ∉ c.deleted ∧ c.loaded.get? tenant = some x := by
  rw [pending?]
  split
  · next hdeleted =>
    constructor
    · intro hx
      cases hx
    · exact fun h => absurd hdeleted h.1
  · next hnot => exact ⟨fun hx => ⟨hnot, hx⟩, fun h => h.2⟩

theorem Ahead.pending?_of_some (h : Ahead s c c') {x : Loaded (Container k)}
    (hx : c'.pending? tenant = some x) : c.pending? tenant = some x := by
  obtain ⟨hnot, hheld⟩ := pending?_eq_some_iff.mp hx
  exact pending?_eq_some_iff.mpr ⟨h.deleted ▸ hnot, h.held hheld⟩

theorem Ahead.pending?_of_none (h : Ahead s c c') (heven : Even c c')
    (hchanged : tenant ∈ c.changed.toList) (hnone : c'.pending? tenant = none) :
    c.pending? tenant = none := by
  cases hpending : c.pending? tenant with
  | none => rfl
  | some x =>
    have hheld := heven tenant (mem_pendingWrites_iff.mpr ⟨hchanged, x, hpending⟩)
    obtain ⟨y, hy⟩ := Option.isSome_iff_exists.mp hheld
    have hnot := h.deleted ▸ (pending?_eq_some_iff.mp hpending).1
    rw [pending?_eq_some_iff.mpr ⟨hnot, hy⟩] at hnone
    cases hnone

def settling (k : ContainerKind) (tenants : List String) :
    Boundary (Desk (Coordinator (Container k))) where
  shared d d' := (ahead k).shared d d' ∧
    ∀ t ∈ tenants, d'.held.pending? t = none → d.held.pending? t = none
  spared _ _ := True
  refl _ := trivial
  trans _ _ := trivial

theorem isolates_writeBack {tenants : List String} (tenant : String) (hmem : tenant ∈ tenants) :
    (settling k tenants).Isolates
      (writeBack tenant : Work (Coordinator (Container k)) Bool) := by
  rintro d ⟨-, -, held'⟩ ⟨⟨rfl, rfl, h⟩, hnone⟩
  cases hpending' : held'.pending? tenant with
  | none =>
    rw [writeBack_of_none (hnone tenant hmem hpending'), writeBack_of_none hpending']
    exact ⟨rfl, ⟨⟨rfl, rfl, h⟩, hnone⟩, trivial⟩
  | some x =>
    have hpending := h.pending?_of_some hpending'
    have hwrote : RowStore.Wrote (only k tenant) d.rows
        (putBack d.held.linearizable tenant x d.rows).2 :=
      (writes_putBack (fun _ _ => ⟨rfl, rfl⟩) d.held.linearizable).wrote d.rows
    cases hput : putBack d.held.linearizable tenant x d.rows with
    | mk result s =>
      rw [hput] at hwrote
      have hput' : putBack held'.linearizable tenant x d.rows = (result, s) := by
        rw [← h.linearizable, hput]
      cases result with
      | ok version =>
        rw [(writeBack_of_some hpending).1 version s hput,
          (writeBack_of_some (d := ⟨d.rows, d.draws, held'⟩) hpending').1 version s hput']
        have hkept := h.keep tenant { x with version := some version }
        refine ⟨rfl, ⟨⟨rfl, rfl, hkept.wrote hwrote ?_⟩, fun t ht hlater => ?_⟩, trivial⟩
        · simp only [StringMap.get?_insert, if_pos]
        · by_cases heq : t = tenant
          · have hsettled : (held'.settle tenant x version).pending? t =
                some { x with version := some version } := by
              refine pending?_eq_some_iff.mpr ⟨heq ▸ (pending?_eq_some_iff.mp hpending').1, ?_⟩
              rw [settle, StringMap.get?_insert, if_pos heq]
            rw [hsettled] at hlater
            cases hlater
          · rw [pending?_settle_of_ne heq] at hlater ⊢
            exact hnone t ht hlater
      | error e =>
        rw [(writeBack_of_some hpending).2 e s hput,
          (writeBack_of_some (d := ⟨d.rows, d.draws, held'⟩) hpending').2 e s hput']
        have hsame := (pending?_eq_some_iff.mp hpending).2.trans
          (pending?_eq_some_iff.mp hpending').2.symm
        exact ⟨rfl, ⟨⟨rfl, rfl, h.wrote hwrote hsame⟩, hnone⟩, trivial⟩

theorem follows_flush (h : (ahead k).shared d d') (heven : Even d.held d'.held) :
    (ahead k).Follows flush d d' := by
  obtain ⟨hrows, hdraws, hahead⟩ := h
  have hloop := Boundary.Isolates.countTrue (B := settling k d.held.changed.toList)
    (l := d.held.changed.toList) fun t ht => isolates_writeBack t ht
  obtain ⟨hresult, ⟨hafter, -⟩, -⟩ := hloop
    { d with held := { d.held with changed := ∅ } } { d' with held := { d'.held with changed := ∅ } }
    ⟨⟨hrows, hdraws, hahead.linearizable, rfl, hahead.deleted, hahead.loaded⟩,
      fun t ht => hahead.pending?_of_none heven ht⟩
  have hflush : flush d' = Work.countTrue writeBack d.held.changed.toList
      { d' with held := { d'.held with changed := ∅ } } := by
    rw [hahead.changed]
    rfl
  rw [Boundary.Follows, hflush]
  exact ⟨hresult, hafter⟩

def Request.settles : Request k α → Bool
  | pendingWrites | flush => true
  | _ => false

theorem Request.follows (request : Request k α) (tenant : String) (h : (ahead k).shared d d')
    (heven : request.settles = true → Even d.held d'.held) :
    (ahead k).Follows (request.perform tenant) d d' := by
  cases request with
  | read f => exact (Editing.read tenant f).isolates.follows h
  | tryUpdate f => exact (Editing.tryUpdate tenant f).isolates.follows h
  | update f => exact (Editing.update tenant f).isolates.follows h
  | markChanged => exact (isolates_markChanged tenant).follows h
  | markDeleted => exact (isolates_markDeleted tenant).follows h
  | delete => exact (isolates_delete tenant).follows h
  | close => exact isolates_close.follows h
  | pendingWrites => exact ⟨congrArg Except.ok (h.2.2.pendingWrites_of_even (heven rfl)), h⟩
  | flush => exact follows_flush h (heven rfl)

inductive Attempt (tenant : String) : {β : Type} → Work (Coordinator (Container k)) β → Prop
  | tryUpdate {β : Type} (f : Container k → Except StoreError (β × Container k)) :
    Attempt tenant (tryUpdate tenant f)
  | drawing {β : Type} {f : String → Work (Coordinator (Container k)) β} :
    (∀ id, Attempt tenant (f id)) → Attempt tenant (Work.newId >>= f)
  | withNewId {β : Type} {f : String → Work (Coordinator (Container k)) β} :
    (∀ id, Attempt tenant (f id)) → Attempt tenant (Work.withNewId f)

/-- What is left of a call that refused: identifiers are drawn, and a container may be loaded. -/
structure Refused (tenant : String) (d d' : Desk (Coordinator (Container k))) : Prop where
  rows : d'.rows = d.rows
  draws : ∃ count, d'.draws = { d.draws with next := d.draws.next + count }
  ahead : Ahead d.rows d'.held d.held
  others : ∀ t, t ≠ tenant → d'.held.loaded.get? t = d.held.loaded.get? t

theorem Refused.refl (tenant : String) (d : Desk (Coordinator (Container k))) : Refused tenant d d :=
  ⟨rfl, ⟨0, rfl⟩, .refl _ _, fun _ _ => rfl⟩

theorem refused_load (tenant : String) (d : Desk (Coordinator (Container k))) :
    Refused tenant d (load tenant d).2 := by
  cases hheld : d.held.loaded.get? tenant with
  | some x =>
    rw [load_of_held hheld]
    exact .refl tenant d
  | none =>
    cases hstored : (stored tenant : Query (Loaded (Container k))) d.rows with
    | error e =>
      rw [load_of_error hheld hstored]
      exact .refl tenant d
    | ok x =>
      rw [load_of_stored hheld hstored]
      refine ⟨rfl, ⟨0, rfl⟩, ahead_loaded hheld hstored, fun t ht => ?_⟩
      rw [StringMap.get?_insert, if_neg ht]

theorem Attempt.refused {work : Work (Coordinator (Container k)) β} (h : Attempt tenant work)
    {e : StoreError} (he : (work d).1 = .error e) : Refused tenant d (work d).2 := by
  induction h generalizing d with
  | tryUpdate f =>
    have hload := refused_load tenant d
    cases hloaded : load tenant d with
    | mk result d' =>
      rw [hloaded] at hload
      cases result with
      | error e' =>
        rw [Coordinator.tryUpdate, Work.bind_of_error hloaded]
        exact hload
      | ok x =>
        rw [Coordinator.tryUpdate, Work.bind_of_ok hloaded] at he ⊢
        cases hf : f x.value with
        | error e' => exact hload
        | ok changed =>
          rw [hf] at he
          cases he
  | drawing _ ih =>
    obtain ⟨hrows, ⟨count, hdraws⟩, hahead, hothers⟩ :=
      ih (Identifier.hyphenated (d.draws.value d.draws.next))
        (d := { d with draws := { d.draws with next := d.draws.next + 1 } }) he
    refine ⟨hrows, ⟨1 + count, hdraws.trans ?_⟩, hahead, hothers⟩
    rw [Nat.add_assoc]
  | @withNewId f _ ih =>
    have hrefused := ih (Identifier.hyphenated (d.draws.value d.draws.next)) (d := d)
    cases hdone : f (Identifier.hyphenated (d.draws.value d.draws.next)) d with
    | mk result d' =>
      cases result with
      | ok a =>
        rw [Work.withNewId_of_ok hdone] at he
        cases he
      | error e' =>
        rw [Work.withNewId_of_error hdone] at he ⊢
        rw [hdone] at hrefused
        exact hrefused he

theorem result_load (tenant : String) (d : Desk (Coordinator (Container k))) :
    (load tenant d).1 = match d.held.loaded.get? tenant with
      | some x => .ok x
      | none => stored tenant d.rows := by
  cases hheld : d.held.loaded.get? tenant with
  | some x => rw [load_of_held hheld]
  | none =>
    cases hstored : (stored tenant : Query (Loaded (Container k))) d.rows with
    | error e => rw [load_of_error hheld hstored]
    | ok x => rw [load_of_stored hheld hstored]

theorem Ahead.result_load (h : Ahead d.rows d.held d'.held) (hrows : d.rows = d'.rows)
    (tenant : String) : (load tenant d).1 = (load tenant d').1 := by
  rw [Coordinator.result_load, Coordinator.result_load, ← hrows]
  rcases h.loaded tenant with hsame | ⟨hnone, x, hx, hstored⟩
  · rw [hsame]
  · rw [hx, hnone]
    exact hstored.symm

theorem result_read (tenant : String) (f : Container k → β)
    (d : Desk (Coordinator (Container k))) :
    (read tenant f d).1 = (load tenant d).1.map fun x => f x.value := by
  cases hload : load tenant d with
  | mk result d' =>
    cases result with
    | ok x => exact congrArg Prod.fst (Work.bind_of_ok hload _)
    | error e => exact congrArg Prod.fst (Work.bind_of_error hload _)

theorem Refused.result_read (h : Refused tenant d d') (t : String) (f : Container k → β) :
    (read t f d').1 = (read t f d).1 := by
  have hload := Ahead.result_load (h.rows.symm ▸ h.ahead) h.rows t
  rw [Coordinator.result_read, Coordinator.result_read, hload]

theorem Refused.even (h : Refused tenant d d')
    (hheld : tenant ∈ d.held.changed → tenant ∈ d.held.deleted ∨ tenant ∈ d.held.loaded) :
    Even d'.held d.held := by
  intro t ht
  obtain ⟨hchanged, x, hpending⟩ := mem_pendingWrites_iff.mp ht
  obtain ⟨hnot, hx⟩ := pending?_eq_some_iff.mp hpending
  by_cases hne : t = tenant
  · subst hne
    refine (hheld ?_).resolve_left (h.ahead.deleted ▸ hnot)
    exact StringSet.mem_toList.mp (h.ahead.changed ▸ hchanged)
  · rw [h.others t hne] at hx
    exact StringMap.mem_iff.mpr (by rw [hx]; rfl)

end Coordinator

open Coordinator (Editing Attempt)

namespace Roles

theorem Request.editing (tenant : String) (request : Request α) :
    Editing (k := .roles) (request.perform tenant) := by
  cases request with unfold Request.perform
  | addRealmRole | addClientRole => exact .drawing fun _ => .tryUpdate tenant _
  | addRole | updateRole | addComposite => exact .tryUpdate tenant _
  | removeRole | removeClientRoles | removeComposite => exact .update tenant _
  | _ => exact .read tenant _

theorem Request.attempt {request : Request α} (h : request.canRefuse = true) (tenant : String) :
    Attempt (k := .roles) tenant (request.perform tenant) := by
  cases request with unfold Request.perform
  | addRealmRole | addClientRole => exact .drawing fun _ => .tryUpdate _
  | addRole | updateRole | addComposite => exact .tryUpdate _
  | _ => cases h

end Roles

namespace Groups

theorem Request.editing (tenant : String) (request : Request α) :
    Editing (k := .groups) (request.perform tenant) := by
  cases request with unfold Request.perform
  | createGroup => exact .withNewId fun _ => .tryUpdate tenant _
  | moveGroup | renameGroup => exact .tryUpdate tenant _
  | setGroupAttribute | removeGroup | grantGroupRole | revokeGroupRole => exact .update tenant _
  | _ => exact .read tenant _

theorem Request.attempt {request : Request α} (h : request.canRefuse = true) (tenant : String) :
    Attempt (k := .groups) tenant (request.perform tenant) := by
  cases request with unfold Request.perform
  | createGroup => exact .withNewId fun _ => .tryUpdate _
  | moveGroup | renameGroup => exact .tryUpdate _
  | _ => cases h

end Groups

namespace ClientScopes

theorem Request.editing (tenant : String) (request : Request α) :
    Editing (k := .clientScopes) (request.perform tenant) := by
  cases request with unfold Request.perform
  | addClientScope => exact .withNewId fun _ => .tryUpdate tenant _
  | updateClientScope => exact .tryUpdate tenant _
  | removeClientScope | addScopeRole => exact .update tenant _
  | _ => exact .read tenant _

theorem Request.attempt {request : Request α} (h : request.canRefuse = true) (tenant : String) :
    Attempt (k := .clientScopes) tenant (request.perform tenant) := by
  cases request with unfold Request.perform
  | addClientScope => exact .withNewId fun _ => .tryUpdate _
  | updateClientScope => exact .tryUpdate _
  | _ => cases h

end ClientScopes

end IdentityDirectory
