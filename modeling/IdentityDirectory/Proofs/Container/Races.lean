import IdentityDirectory.Proofs.Container.Operations

/-!
Units of work that race for a container. A commit tells the row that it replaces from others by its
version only, and the versions of a row start again once it has been removed. Main statement: a
commit replaces a row that has been written as often since it was last absent as the one loaded
(`commit_replaces_equal_writes`), which is the row loaded unless it has been removed meanwhile.
-/

namespace IdentityDirectory

namespace World

variable {ω : Type} (perform : ω → Work UnitOfWork Unit)

def passed (w : World) : List (Event ω) → List World
  | [] => []
  | e :: events => w.step perform e :: (w.step perform e).passed events

end World

instance (u : UnitOfWork) (k : ContainerKind) (tenant : String) : Decidable (u.Due k tenant) :=
  inferInstanceAs (Decidable (_ ∈ _))

namespace Containers

open World (Event)

structure Checking (w : World) : Prop where
  lasting : ∀ k, w.rows.Lasting k
  opening : w.linearizable = true
  flags : ∀ unit k, (w.coordinator unit k).linearizable = true

theorem checking_opened (caching : Bool) (now : Int) (draws : Draws) :
    Checking (.opened true caching now draws) where
  lasting k := RowStore.lasting_empty now k
  opening := rfl
  flags _ k := by cases k <;> rfl

variable {w v : World} {unit : Nat} {k : ContainerKind} {tenant : String}

structure Advances (w v : World) : Prop where
  checking : Checking v
  rows : ∀ k tenant, Row.Follows (w.stored k tenant) (v.stored k tenant)
  loaded : ∀ unit k tenant x', (v.coordinator unit k).loaded.get? tenant = some x' →
    (∃ x, (w.coordinator unit k).loaded.get? tenant = some x ∧ x'.version = x.version) ∨
      (w.coordinator unit k).loaded.get? tenant = none ∧ x'.Fits (w.stored k tenant)

theorem advances_step (h : Checking w) (e : Event Operation) :
    Advances w (w.step Operation.perform e) := by
  cases e with
  | start u =>
    have hunit := World.coordinator_start w Operation.perform u
    constructor
    · constructor
      · exact h.lasting
      · exact h.opening
      · intro unit k
        rw [hunit]
        split
        · exact h.opening
        · exact h.flags unit k
    · intro k tenant
      exact .inl rfl
    · intro unit k tenant x' hx
      rw [hunit] at hx
      split at hx
      · cases hx
      · exact .inl ⟨x', hx, rfl⟩
  | call u op =>
    have hop := progressed_perform (d := w.desk u) h.lasting (h.flags u) op
    have hunit := World.coordinator_call w Operation.perform u op
    constructor
    · constructor
      · exact hop.lasting
      · exact h.opening
      · intro unit k
        rw [hunit]
        split
        · exact hop.flags k
        · exact h.flags unit k
    · exact hop.rows
    · intro unit k tenant x' hx
      rw [hunit] at hx
      split at hx
      · next hu =>
        subst hu
        exact hop.loaded k tenant x' hx
      · exact .inl ⟨x', hx, rfl⟩
  | sweep =>
    constructor
    · exact ⟨fun k => (h.lasting k).sweep, h.opening, h.flags⟩
    · intro k tenant
      exact .inl ((h.lasting k).containerRow_sweep tenant)
    · intro unit k tenant x' hx
      exact .inl ⟨x', hx, rfl⟩
  | advance millis =>
    constructor
    · exact ⟨fun k => (h.lasting k).of_table rfl, h.opening, h.flags⟩
    · intro k tenant
      exact .inl rfl
    · intro unit k tenant x' hx
      exact .inl ⟨x', hx, rfl⟩

theorem checking_run (h : Checking w) (events : List (Event Operation)) :
    Checking (w.run Operation.perform events) := by
  induction events generalizing w with
  | nil => exact h
  | cons e events ih => exact ih (advances_step h e).checking

theorem version_run (h : Checking w) {events : List (Event Operation)}
    (hheld : ∀ v ∈ w.passed Operation.perform events, tenant ∈ (v.coordinator unit k).loaded)
    {x : Loaded (Container k)} (hx : (w.coordinator unit k).loaded.get? tenant = some x) :
    ∃ x', ((w.run Operation.perform events).coordinator unit k).loaded.get? tenant = some x' ∧
      x'.version = x.version := by
  induction events generalizing w x with
  | nil => exact ⟨x, hx, rfl⟩
  | cons e events ih =>
    have hstep := advances_step h e
    have hnext := hheld _ List.mem_cons_self
    obtain ⟨y, hy⟩ := Option.isSome_iff_exists.mp hnext
    have hversion : y.version = x.version := by
      rcases hstep.loaded unit k tenant y hy with ⟨x₀, hx₀, hsame⟩ | ⟨hnone, -⟩
      · rw [hx] at hx₀
        rw [hsame, Option.some.inj hx₀]
      · rw [hx] at hnone
        cases hnone
    obtain ⟨x', hx', hsame⟩ :=
      ih hstep.checking (fun v hv => hheld v (List.mem_cons_of_mem _ hv)) hy
    exact ⟨x', hx', hsame.trans hversion⟩

theorem row_run (h : Checking w) {events : List (Event Operation)}
    (hthere : ∀ v ∈ w.passed Operation.perform events, v.stored k tenant ≠ none) :
    Row.age (w.stored k tenant) ≤ Row.age ((w.run Operation.perform events).stored k tenant) ∧
      (Row.age (w.stored k tenant) = Row.age ((w.run Operation.perform events).stored k tenant) →
        (w.run Operation.perform events).stored k tenant = w.stored k tenant) := by
  induction events generalizing w with
  | nil => exact ⟨Nat.le_refl _, fun _ => rfl⟩
  | cons e events ih =>
    have hstep := advances_step h e
    have hnext := hthere _ List.mem_cons_self
    have hrest := ih hstep.checking fun v hv => hthere v (List.mem_cons_of_mem _ hv)
    change _ ≤ Row.age (((w.step Operation.perform e).run Operation.perform events).stored k
      tenant) ∧ (_ = Row.age (((w.step Operation.perform e).run Operation.perform events).stored k
      tenant) → _)
    rcases hstep.rows k tenant with hsame | hnone | ⟨r, hr, hversion⟩
    · rw [hsame] at hrest
      exact hrest
    · exact absurd hnone hnext
    · -- As long as the row is there its version only grows, so this write is never undone.
      have hage : Row.age ((w.step Operation.perform e).stored k tenant) =
          Row.age (w.stored k tenant) + 1 := by
        rw [hr]
        exact hversion
      have hle := hrest.1
      constructor
      · omega
      · intro heq
        omega

/-- How often the row of a container has been written since it was last absent, given that it was
`n` times before the events. -/
def writes (k : ContainerKind) (tenant : String) : World → Nat → List (Event Operation) → Nat
  | _, n, [] => n
  | w, n, e :: events =>
    let v := w.step Operation.perform e
    writes k tenant v
      (if v.stored k tenant = none then 0
        else if v.stored k tenant = w.stored k tenant then n else n + 1) events

theorem writes_append (k : ContainerKind) (tenant : String) (w : World) (n : Nat)
    (events more : List (Event Operation)) :
    writes k tenant w n (events ++ more) =
      writes k tenant (w.run Operation.perform events) (writes k tenant w n events) more := by
  induction events generalizing w n with
  | nil => rfl
  | cons e events ih => exact ih _ _

theorem writes_eq_age (h : Checking w) (k : ContainerKind) (tenant : String)
    (events : List (Event Operation)) :
    writes k tenant w (Row.age (w.stored k tenant)) events =
      Row.age ((w.run Operation.perform events).stored k tenant) := by
  induction events generalizing w with
  | nil => rfl
  | cons e events ih =>
    have hstep := advances_step h e
    have hcount : (if (w.step Operation.perform e).stored k tenant = none then 0
        else if (w.step Operation.perform e).stored k tenant = w.stored k tenant then
          Row.age (w.stored k tenant)
        else Row.age (w.stored k tenant) + 1) =
        Row.age ((w.step Operation.perform e).stored k tenant) := by
      rcases hstep.rows k tenant with hsame | hnone | ⟨r, hr, hversion⟩
      · rw [if_pos hsame, hsame]
        split
        · next hnone =>
          rw [hnone]
          rfl
        · rfl
      · rw [if_pos hnone, hnone]
        rfl
      · have hne : (w.step Operation.perform e).stored k tenant ≠ w.stored k tenant := by
          intro heq
          rw [← heq, hr] at hversion
          change r.version = r.version + 1 at hversion
          omega
        rw [if_neg (by rw [hr]; nofun), if_neg hne, hr]
        exact hversion.symm
    rw [writes, hcount]
    exact ih hstep.checking

/-- A unit of work loads a container at the first of the events and holds it from then on. -/
structure Holding (w : World) (events : List (Event Operation)) (unit : Nat) (k : ContainerKind)
    (tenant : String) : Prop where
  unloaded : tenant ∉ (w.coordinator unit k).loaded
  held : ∀ v ∈ w.passed Operation.perform events, tenant ∈ (v.coordinator unit k).loaded

theorem exists_holding {events : List (Event Operation)}
    (h : tenant ∈ ((w.run Operation.perform events).coordinator unit k).loaded) :
    (tenant ∈ (w.coordinator unit k).loaded ∧
        ∀ v ∈ w.passed Operation.perform events, tenant ∈ (v.coordinator unit k).loaded) ∨
      ∃ before since, events = before ++ since ∧
        Holding (w.run Operation.perform before) since unit k tenant := by
  induction events generalizing w with
  | nil => exact .inl ⟨h, fun v hv => absurd hv List.not_mem_nil⟩
  | cons e events ih =>
    have hrest : tenant ∈ (((w.step Operation.perform e).run Operation.perform events).coordinator
      unit k).loaded := h
    rcases ih hrest with ⟨hnext, hpassed⟩ | ⟨before, since, rfl, hholding⟩
    · have hall : ∀ v ∈ w.passed Operation.perform (e :: events),
          tenant ∈ (v.coordinator unit k).loaded := by
        intro v hv
        rcases List.mem_cons.mp hv with rfl | hv
        · exact hnext
        · exact hpassed v hv
      by_cases hloaded : tenant ∈ (w.coordinator unit k).loaded
      · exact .inl ⟨hloaded, hall⟩
      · exact .inr ⟨[], e :: events, rfl, hloaded, hall⟩
    · exact .inr ⟨e :: before, since, rfl, hholding⟩

theorem Holding.fits {events : List (Event Operation)} (h : Holding w events unit k tenant)
    (hw : Checking w) {x : Loaded (Container k)}
    (hx : ((w.run Operation.perform events).coordinator unit k).loaded.get? tenant = some x) :
    x.Fits (w.stored k tenant) := by
  have hunloaded : (w.coordinator unit k).loaded.get? tenant = none := by
    rw [← Option.not_isSome_iff_eq_none]
    exact h.unloaded
  cases events with
  | nil =>
    change (w.coordinator unit k).loaded.get? tenant = some x at hx
    rw [hunloaded] at hx
    cases hx
  | cons e events =>
    have hstep := advances_step hw e
    obtain ⟨y, hy⟩ := Option.isSome_iff_exists.mp (h.held _ List.mem_cons_self)
    have hfits : y.Fits (w.stored k tenant) := by
      rcases hstep.loaded unit k tenant y hy with ⟨x₀, hx₀, -⟩ | ⟨-, hfits⟩
      · rw [hunloaded] at hx₀
        cases hx₀
      · exact hfits
    obtain ⟨x', hx', hversion⟩ :=
      version_run hstep.checking (fun v hv => h.held v (List.mem_cons_of_mem _ hv)) hy
    obtain rfl : x' = x := Option.some.inj (hx'.symm.trans hx)
    exact hversion.trans hfits

def Refused (w : World) (unit : Nat) : Prop :=
  ∃ k tenant, w.resultOf unit UnitOfWork.commit = .error (.concurrentModification k tenant) ∧
    (w.units unit).Due k tenant ∧
    Coordinator.Blocked (w.coordinator unit k).pending? w.rows tenant

/-- The commit of a unit of work replaces no row but the one loaded, and fails where another one
stands. -/
def Safe (w : World) (unit : Nat) (k : ContainerKind) (tenant : String)
    (loaded : Option Row) : Prop :=
  let after := (w.call unit UnitOfWork.commit).stored k tenant
  (after ≠ w.stored k tenant → w.stored k tenant = loaded) ∧
    (w.stored k tenant ≠ loaded → after = w.stored k tenant ∧ Refused w unit)

theorem loaded_of_pending {c : Coordinator (Container k)} {x : Loaded (Container k)}
    (h : c.pending? tenant = some x) : c.loaded.get? tenant = some x := by
  rw [Coordinator.pending?] at h
  split at h
  · cases h
  · exact h

theorem commit_of_fits (h : Checking w) (hdue : (w.units unit).Due k tenant)
    {x : Loaded (Container k)} (hx : (w.coordinator unit k).pending? tenant = some x) :
    (¬ x.Fits (w.stored k tenant) → (w.call unit UnitOfWork.commit).stored k tenant =
        w.stored k tenant ∧ Refused w unit) ∧
      ((w.call unit UnitOfWork.commit).stored k tenant = w.stored k tenant ∧ Refused w unit ∨
        (w.call unit UnitOfWork.commit).stored k tenant =
          some (x.rowOver (w.stored k tenant))) := by
  obtain ⟨hcommitted, -⟩ :=
    UnitOfWork.committed_commit (d := w.desk unit) h.lasting (h.flags unit)
  have hrefused : ∀ e, w.resultOf unit UnitOfWork.commit = .error e → Refused w unit := by
    intro e he
    obtain ⟨j, -, tenant', hdue', hblocked, rfl⟩ := hcommitted.refused e he
    exact ⟨j, tenant', he, hdue', hblocked⟩
  have hreplaced : Coordinator.Replaced (w.coordinator unit k).pending? w.rows
      (w.call unit UnitOfWork.commit).rows tenant →
      x.Fits (w.stored k tenant) ∧ (w.call unit UnitOfWork.commit).stored k tenant =
        some (x.rowOver (w.stored k tenant)) := by
    rintro ⟨y, hy, hfits, hrow⟩
    obtain rfl : x = y := Option.some.inj (hx.symm.trans hy)
    exact ⟨hfits, hrow⟩
  have hok : w.resultOf unit UnitOfWork.commit = .ok () →
      x.Fits (w.stored k tenant) ∧ (w.call unit UnitOfWork.commit).stored k tenant =
        some (x.rowOver (w.stored k tenant)) := by
    intro hok
    exact hreplaced ((hcommitted.complete hok k (UnitOfWork.mem_allKinds k)).2 tenant hdue)
  cases hresult : w.resultOf unit UnitOfWork.commit with
  | ok result =>
    obtain ⟨hfits, hrow⟩ := hok hresult
    exact ⟨fun hnot => absurd hfits hnot, .inr hrow⟩
  | error e =>
    have hfailed := hrefused e hresult
    rcases hcommitted.rows k tenant with hsame | ⟨-, -, hr⟩
    · exact ⟨fun _ => ⟨hsame, hfailed⟩, .inl ⟨hsame, hfailed⟩⟩
    · obtain ⟨hfits, hrow⟩ := hreplaced hr
      exact ⟨fun hnot => absurd hfits hnot, .inr hrow⟩

theorem Holding.commit {w₀ : World} {before since : List (Event Operation)} (h₀ : Checking w₀)
    (habsent : w₀.stored k tenant = none) (hw : w = w₀.run Operation.perform before)
    (hv : v = w.run Operation.perform since) (h : Holding w since unit k tenant)
    (hdue : (v.units unit).Due k tenant) :
    let n := writes k tenant w₀ 0 before
    let m := writes k tenant w₀ 0 (before ++ since)
    let after := (v.call unit UnitOfWork.commit).stored k tenant
    (n ≠ m → after = v.stored k tenant ∧ Refused v unit) ∧
      (n = m → after = v.stored k tenant ∧ Refused v unit ∨
        ∃ x, (v.coordinator unit k).loaded.get? tenant = some x ∧
          after = some (x.rowOver (v.stored k tenant))) ∧
      ((w.stored k tenant = none ∨
          ∀ u ∈ w.passed Operation.perform since, u.stored k tenant ≠ none) →
        Safe v unit k tenant (w.stored k tenant)) := by
  intro n m after
  have hcheckingW : Checking w := hw ▸ checking_run h₀ before
  have hcheckingV : Checking v := hv ▸ checking_run hcheckingW since
  have hn : n = Row.age (w.stored k tenant) := by
    have hcount := writes_eq_age h₀ k tenant before
    rw [habsent] at hcount
    rw [hw]
    exact hcount
  have hm : m = Row.age (v.stored k tenant) := by
    have hcount := writes_eq_age hcheckingW k tenant since
    rw [← hn, ← hv] at hcount
    rw [← hcount, hw]
    exact writes_append k tenant w₀ 0 before since
  obtain ⟨-, x, hx⟩ := Coordinator.mem_pendingWrites_iff.mp hdue
  have hfits : x.Fits (w.stored k tenant) := by
    have hloaded := loaded_of_pending hx
    apply h.fits hcheckingW
    rw [← hv]
    exact hloaded
  -- Versions count the writes, so a commit cannot tell two rows with equal counts apart.
  have hiff : x.Fits (v.stored k tenant) ↔ n = m := by
    rw [hn, hm]
    change x.version = _ ↔ _
    rw [show x.version = (w.stored k tenant).map (·.version) from hfits]
    exact (hcheckingW.lasting k).version_eq_iff (hcheckingV.lasting k)
  obtain ⟨hnot, hcases⟩ := commit_of_fits hcheckingV hdue hx
  have hsame : (w.stored k tenant = none ∨
      ∀ u ∈ w.passed Operation.perform since, u.stored k tenant ≠ none) →
      n = m → v.stored k tenant = w.stored k tenant := by
    rintro (hnone | hthere) heq
    · have hversion := hfits.symm.trans (hiff.mpr heq)
      rw [hnone] at hversion ⊢
      exact Option.map_eq_none_iff.mp hversion.symm
    · rw [hn, hm, hv] at heq
      rw [hv]
      exact (row_run hcheckingW hthere).2 heq
  refine ⟨fun hne => hnot (mt hiff.mp hne), fun _ => ?_, fun hkept => ⟨fun hwritten => ?_, ?_⟩⟩
  · rcases hcases with hrefused | hwritten
    · exact .inl hrefused
    · exact .inr ⟨x, loaded_of_pending hx, hwritten⟩
  · apply hsame hkept
    rw [← hiff]
    apply Decidable.byContradiction
    intro hunfit
    exact hwritten (hnot hunfit).1
  · intro hother
    apply hnot
    intro hstands
    exact hother (hsame hkept (hiff.mp hstands))

theorem commit_of_not_due (h : Checking w) (hdue : ¬ (w.units unit).Due k tenant) :
    (w.call unit UnitOfWork.commit).stored k tenant = w.stored k tenant := by
  obtain ⟨hcommitted, -⟩ :=
    UnitOfWork.committed_commit (d := w.desk unit) h.lasting (h.flags unit)
  rcases hcommitted.rows k tenant with hsame | ⟨-, hdue', -⟩
  · exact hsame
  · exact absurd hdue' hdue

/-- Whatever a commit has to write back was loaded at some moment and held since. The commit replaces
the row that stands now exactly if that has been written as often since it was last absent as the
row loaded, unless another container makes the commit fail before; so nothing committed in between
is lost as long as the row is not removed in between. All other rows stay. -/
theorem commit_replaces_equal_writes (caching : Bool) (now : Int) (draws : Draws)
    (events : List (Event Operation)) (v : World)
    (hv : v = (World.opened true caching now draws).run Operation.perform events)
    (unit : Nat) (k : ContainerKind) (tenant : String) :
    let after := (v.call unit UnitOfWork.commit).stored k tenant
    (¬ (v.units unit).Due k tenant → after = v.stored k tenant) ∧
      ((v.units unit).Due k tenant → ∃ before since w, events = before ++ since ∧
        w = (World.opened true caching now draws).run Operation.perform before ∧
        Holding w since unit k tenant ∧
        let n := writes k tenant (.opened true caching now draws) 0 before
        let m := writes k tenant (.opened true caching now draws) 0 events
        (n ≠ m → after = v.stored k tenant ∧ Refused v unit) ∧
          (n = m → after = v.stored k tenant ∧ Refused v unit ∨
            ∃ x, (v.coordinator unit k).loaded.get? tenant = some x ∧
              after = some (x.rowOver (v.stored k tenant))) ∧
          ((w.stored k tenant = none ∨
              ∀ u ∈ w.passed Operation.perform since, u.stored k tenant ≠ none) →
            Safe v unit k tenant (w.stored k tenant))) := by
  intro after
  have hopened := checking_opened caching now draws
  constructor
  · intro hdue
    exact commit_of_not_due (hv ▸ checking_run hopened events) hdue
  intro hdue
  obtain ⟨-, x, hx⟩ := Coordinator.mem_pendingWrites_iff.mp hdue
  have hloaded : tenant ∈ (v.coordinator unit k).loaded :=
    Option.isSome_iff_exists.mpr ⟨x, loaded_of_pending hx⟩
  rw [hv] at hloaded
  rcases exists_holding hloaded with ⟨hheld, -⟩ | ⟨before, since, rfl, hholding⟩
  · cases k <;> cases hheld
  · have habsent : (World.opened true caching now draws).stored k tenant = none :=
      RowStore.rowAt_empty now k.table _
    have hsplit : v = ((World.opened true caching now draws).run Operation.perform before).run
        Operation.perform since := by
      rw [hv, World.run, List.foldl_append]
      rfl
    exact ⟨before, since, _, rfl, rfl, hholding,
      hholding.commit hopened habsent rfl hsplit hdue⟩

def addRole (realmId name : String) : Operation :=
  .edit .roles (discard (Roles.addRealmRole realmId name))
    (.discard (.drawing fun _ => .tryUpdate realmId _))

theorem commit_replaces_equal_writes_refused : ∃ (events : List (Event Operation)) (v : World),
    v = (World.opened true true 0 { value := id }).run Operation.perform events ∧
      (∃ before since w, events = before ++ since ∧
        w = (World.opened true true 0 { value := id }).run Operation.perform before ∧
        Holding w since 1 .roles "r" ∧
        ((w.stored .roles "r" = none ∨
            ∀ u ∈ w.passed Operation.perform since, u.stored .roles "r" ≠ none) →
          Safe v 1 .roles "r" (w.stored .roles "r"))) ∧
      v.resultOf 1 UnitOfWork.commit = .error (.concurrentModification .roles "r") ∧
      roleNames ((v.call 1 UnitOfWork.commit).stored .roles "r") = some ["old", "theirs"] := by
  let events : List (Event Operation) := [.call 0 (addRole "r" "old"), .call 0 .commit,
    .call 1 (addRole "r" "mine"), .call 2 (addRole "r" "theirs"), .call 2 .commit]
  obtain ⟨v, hv⟩ : ∃ v, v = (World.opened true true 0 { value := id }).run Operation.perform events :=
    ⟨_, rfl⟩
  have hdue : (v.units 1).Due .roles "r" := by
    rw [hv]
    decide +kernel
  obtain ⟨before, since, w, hevents, hw, hholding, -, -, hsafe⟩ :=
    (commit_replaces_equal_writes true 0 { value := id } events v hv 1 .roles "r").2 hdue
  have hrun : v.resultOf 1 UnitOfWork.commit = .error (.concurrentModification .roles "r") ∧
      roleNames ((v.call 1 UnitOfWork.commit).stored .roles "r") = some ["old", "theirs"] := by
    rw [hv]
    decide +kernel
  exact ⟨events, v, hv, ⟨before, since, w, hevents, hw, hholding, hsafe⟩, hrun⟩

/-- Where the row has been removed and written anew in between, a commit takes it for the one loaded
and replaces it. -/
theorem recreated_container_replaced : ∃ (since : List (Event Operation)) (w v : World),
    w = (World.opened true true 0 { value := id }).run Operation.perform
        [.call 0 (addRole "r" "old"), .call 0 .commit] ∧
      v = w.run Operation.perform since ∧ Holding w since 1 .roles "r" ∧
      (v.units 1).Due .roles "r" ∧ ¬ Safe v 1 .roles "r" (w.stored .roles "r") ∧
      v.resultOf 1 UnitOfWork.commit = .ok () ∧
      roleNames (w.stored .roles "r") = some ["old"] ∧
      roleNames (v.stored .roles "r") = some ["theirs"] ∧
      roleNames ((v.call 1 UnitOfWork.commit).stored .roles "r") = some ["old", "mine"] := by
  let before : List (Event Operation) := [.call 0 (addRole "r" "old"), .call 0 .commit]
  let since : List (Event Operation) := [.call 1 (addRole "r" "mine"),
    .call 2 (.delete .roles "r"), .call 3 (addRole "r" "theirs"), .call 3 .commit]
  obtain ⟨w, hw⟩ : ∃ w, w = (World.opened true true 0 { value := id }).run Operation.perform before :=
    ⟨_, rfl⟩
  obtain ⟨v, hv⟩ : ∃ v, v = w.run Operation.perform since := ⟨_, rfl⟩
  have hholding : Holding w since 1 .roles "r" := by
    rw [hw]
    constructor
    · decide +kernel
    · decide +kernel
  have hrun : (v.call 1 UnitOfWork.commit).stored .roles "r" ≠ v.stored .roles "r" ∧
      v.stored .roles "r" ≠ w.stored .roles "r" ∧ (v.units 1).Due .roles "r" ∧
      v.resultOf 1 UnitOfWork.commit = .ok () ∧ roleNames (w.stored .roles "r") = some ["old"] ∧
      roleNames (v.stored .roles "r") = some ["theirs"] ∧
      roleNames ((v.call 1 UnitOfWork.commit).stored .roles "r") = some ["old", "mine"] := by
    rw [hv, hw]
    decide +kernel
  obtain ⟨hreplaced, hother, hdue, hnames⟩ := hrun
  exact ⟨since, w, v, hw, hv, hholding, hdue, fun hsafe => hother (hsafe.1 hreplaced), hnames⟩

end Containers

end IdentityDirectory
