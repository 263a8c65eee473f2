import IdentityDirectory.Proofs.Access.Authorization
import Mathlib.Data.List.Nodup
import Mathlib.Data.List.Perm.Subperm

/-!
The way from a group up to the top. A way that ends at a group without a parent passes no group twice,
so that the number of groups is bound enough for it; any other runs in a circle. Main statement:
`paths_and_ancestors_complete`.
-/

namespace IdentityDirectory.RealmGroups

variable {c : RealmGroups} {g g' p top top' : Group} {chain chain' : List Group} {id : String}

variable (c) in
inductive Ascent : Group → List Group → Group → Prop
  | stay (g : Group) : Ascent g [g] g
  | up {g p top : Group} {chain : List Group} : c.parent? g = some p → Ascent p chain top →
    Ascent g (g :: chain) top

variable (c) in
def RunsInCircle (g : Group) : Prop := ∃ chain top, c.Ascent g chain top ∧ ¬ chain.Nodup

theorem Ascent.head?_eq (h : c.Ascent g chain top) : chain.head? = some g := by
  cases h with
  | stay => rfl
  | up => rfl

theorem Ascent.length_pos (h : c.Ascent g chain top) : 0 < chain.length := by
  cases h with
  | stay => exact Nat.one_pos
  | up => exact Nat.succ_pos _

theorem Ascent.isPrefix (h : c.Ascent g chain' top') (hfull : c.Ascent g chain top)
    (htop : c.parent? top = none) : chain' <+: chain := by
  -- There is one way up, which can only be left too early.
  induction h generalizing chain with
  | stay g =>
    cases hfull with
    | stay => exact List.prefix_refl _
    | up => exact List.prefix_append [g] _
  | up hparent _ ih =>
    cases hfull with
    | stay =>
      rw [htop] at hparent
      cases hparent
    | up hparent' hrest =>
      rw [hparent] at hparent'
      obtain rfl := Option.some.inj hparent'
      exact List.cons_prefix_cons.mpr ⟨rfl, ih hrest⟩

theorem Ascent.exists_from (h : c.Ascent g chain top) (hmem : g' ∈ chain) :
    ∃ rest, c.Ascent g' rest top ∧ rest.length ≤ chain.length := by
  induction h with
  | stay g =>
    obtain rfl := List.mem_singleton.mp hmem
    exact ⟨[g'], .stay g', Nat.le_refl _⟩
  | up hparent hrest ih =>
    rcases List.mem_cons.mp hmem with rfl | hmem
    · exact ⟨_, .up hparent hrest, Nat.le_refl _⟩
    · obtain ⟨rest, hfrom, hlength⟩ := ih hmem
      exact ⟨rest, hfrom, Nat.le_succ_of_le hlength⟩

theorem Ascent.nodup (h : c.Ascent g chain top) (htop : c.parent? top = none) : chain.Nodup := by
  induction h with
  | stay g => exact List.nodup_singleton g
  | up hparent hrest ih =>
    refine List.nodup_cons.mpr ⟨fun hmem => ?_, ih htop⟩
    -- If the group stood above itself, the way up from it would be longer than it is.
    obtain ⟨rest, hfrom, hlength⟩ := hrest.exists_from hmem
    have hprefix := (Ascent.up hparent hrest).isPrefix hfrom htop
    exact absurd hprefix.length_le (Nat.not_le.mpr (Nat.lt_succ_of_le hlength))

theorem mem_groups_of_parent? (h : c.parent? g = some p) : p ∈ c.groups := by
  obtain ⟨parent, -, hfind⟩ := Option.bind_eq_some_iff.mp h
  exact List.mem_of_find?_eq_some hfind

theorem Ascent.subset_groups (h : c.Ascent g chain top) (hg : g ∈ c.groups) :
    chain ⊆ c.groups := by
  induction h with
  | stay g => exact List.cons_subset.mpr ⟨hg, List.nil_subset _⟩
  | up hparent _ ih => exact List.cons_subset.mpr ⟨hg, ih (mem_groups_of_parent? hparent)⟩

theorem Ascent.length_le_of_nodup (h : c.Ascent g chain top) (hg : g ∈ c.groups)
    (hnodup : chain.Nodup) : chain.length ≤ c.groups.length :=
  (List.subperm_of_subset hnodup (h.subset_groups hg)).length_le

theorem RunsInCircle.parent?_ne_none (h : c.RunsInCircle g) (hfull : c.Ascent g chain top) :
    c.parent? top ≠ none := by
  obtain ⟨_, _, hascent, hagain⟩ := h
  exact fun htop => hagain ((hfull.nodup htop).sublist (hascent.isPrefix hfull htop).sublist)

theorem lineage_eq_of_ascent {steps : Nat} (h : c.Ascent g chain top) (htop : c.parent? top = none)
    (hlength : chain.length ≤ steps + 1) : c.lineage g steps = chain := by
  induction h generalizing steps with
  | stay g =>
    cases steps with
    | zero => rfl
    | succ steps => simp only [lineage, htop]
  | up hparent hrest ih =>
    cases steps with
    | zero => exact absurd hlength (Nat.not_le.mpr (Nat.succ_lt_succ hrest.length_pos))
    | succ steps =>
      simp only [lineage, hparent]
      rw [ih htop (Nat.le_of_succ_le_succ hlength)]

theorem ascent_lineage (c : RealmGroups) (g : Group) (steps : Nat) :
    ∃ top, c.Ascent g (c.lineage g steps) top ∧
      (c.parent? top = none ∨ (c.lineage g steps).length = steps + 1) := by
  induction steps generalizing g with
  | zero => exact ⟨g, .stay g, .inr rfl⟩
  | succ steps ih =>
    rw [lineage]
    cases hparent : c.parent? g with
    | none => exact ⟨g, .stay g, .inl hparent⟩
    | some p =>
      obtain ⟨top, hascent, hend⟩ := ih p
      exact ⟨top, .up hparent hascent, hend.imp_right (congrArg Nat.succ)⟩

theorem runsInCircle_iff (hg : g ∈ c.groups) :
    c.RunsInCircle g ↔ ¬ ∃ chain top, c.Ascent g chain top ∧ c.parent? top = none := by
  -- A way up that does not end is longer than there are groups.
  constructor
  · rintro h ⟨chain, top, hascent, htop⟩
    exact h.parent?_ne_none hascent htop
  · intro hnone
    obtain ⟨top, hascent, hend⟩ := ascent_lineage c g c.groups.length
    have hlong := hend.resolve_left fun htop => hnone ⟨_, top, hascent, htop⟩
    refine ⟨_, top, hascent, fun hnodup => ?_⟩
    exact absurd (hascent.length_le_of_nodup hg hnodup) (by omega)

theorem above_iff_ascent : c.Above id top ↔
    ∃ g, c.find? id = some g ∧ ∃ chain, c.Ascent g chain top := by
  constructor
  · intro h
    induction h with
    | self hfind => exact ⟨_, hfind, _, .stay _⟩
    | parent hfind hparent _ ih =>
      obtain ⟨p, hp, chain, hascent⟩ := ih
      exact ⟨_, hfind, _, .up (Option.bind_eq_some_iff.mpr ⟨_, hparent, hp⟩) hascent⟩
  · rintro ⟨g, hfind, chain, hascent⟩
    induction hascent generalizing id with
    | stay g => exact .self hfind
    | up hparent _ ih =>
      obtain ⟨above, habove, hp⟩ := Option.bind_eq_some_iff.mp hparent
      exact .parent hfind habove (ih hp)

/-- The path of a group whose way up ends names all groups on it, and that of a group whose way up runs
in a circle has one name more than there are groups, the last one its own. With their ancestors come
exactly the groups on the ways up from those that exist. -/
theorem paths_and_ancestors_complete (c : RealmGroups) :
    (∀ id g, c.find? id = some g →
      (∀ chain top, c.Ascent g chain top → c.parent? top = none →
        c.path? id = some ("/" ++ "/".intercalate (chain.map (·.name)).reverse)) ∧
      (c.RunsInCircle g → ∃ chain top, c.Ascent g chain top ∧ chain.head? = some g ∧
        chain.length = c.groups.length + 1 ∧
        c.path? id = some ("/" ++ "/".intercalate (chain.map (·.name)).reverse)) ∧
      (c.RunsInCircle g ↔ ¬ ∃ chain top, c.Ascent g chain top ∧ c.parent? top = none)) ∧
    ∀ ids x, x ∈ c.withAncestors ids ↔
      ∃ id ∈ ids, ∃ g, c.find? id = some g ∧ ∃ chain top, c.Ascent g chain top ∧ top.id = x := by
  refine ⟨fun id g hfind => ?_, fun ids x => ?_⟩
  · have hg : g ∈ c.groups := List.mem_of_find?_eq_some hfind
    have hpath : c.path? id = some ("/" ++ "/".intercalate
        ((c.lineage g c.groups.length).map (·.name)).reverse) := by
      rw [path?, hfind]
      rfl
    refine ⟨fun chain top hascent htop => ?_, fun hcircle => ?_, runsInCircle_iff hg⟩
    · have hbound := hascent.length_le_of_nodup hg (hascent.nodup htop)
      rw [hpath, lineage_eq_of_ascent hascent htop (Nat.le_succ_of_le hbound)]
    · obtain ⟨top, hascent, hend⟩ := ascent_lineage c g c.groups.length
      have hlength := hend.resolve_left (hcircle.parent?_ne_none hascent)
      exact ⟨_, top, hascent, hascent.head?_eq, hlength, hpath⟩
  · simp only [mem_withAncestors_iff, above_iff_ascent]
    constructor
    · rintro ⟨id, hid, top, ⟨g, hfind, chain, hascent⟩, hx⟩
      exact ⟨id, hid, g, hfind, chain, top, hascent, hx⟩
    · rintro ⟨id, hid, g, hfind, chain, top, hascent, hx⟩
      exact ⟨id, hid, top, ⟨g, hfind, chain, hascent⟩, hx⟩

theorem paths_complete_at_full_depth :
    let deep : RealmGroups := { groups := [{ id := "a", name := "x", parentId := some "b" },
      { id := "b", name := "y", parentId := some "gone" }] }
    let circle : RealmGroups := { groups := [{ id := "a", name := "x", parentId := some "b" },
      { id := "b", name := "y", parentId := some "b" }] }
    deep.path? "a" = some "/y/x" ∧ circle.path? "a" = some "/y/y/x" ∧
      "b" ∈ circle.withAncestors ["a"] := by
  intro deep circle
  have hascent : deep.Ascent { id := "a", name := "x", parentId := some "b" } deep.groups
      { id := "b", name := "y", parentId := some "gone" } := .up rfl (.stay _)
  have hpath := ((paths_and_ancestors_complete deep).1 "a" _ rfl).1 _ _ hascent rfl
  have habove : circle.Ascent { id := "a", name := "x", parentId := some "b" } circle.groups
      { id := "b", name := "y", parentId := some "b" } := .up rfl (.stay _)
  refine ⟨hpath.trans (by decide), by decide, ?_⟩
  exact ((paths_and_ancestors_complete circle).2 ["a"] "b").mpr
    ⟨"a", List.mem_singleton_self _, _, rfl, _, _, habove, rfl⟩

end IdentityDirectory.RealmGroups
