import IdentityDirectory.Group.Container
import Mathlib.Data.List.Perm.Subperm

/-!
What the removal of a group takes along. Passes over the groups, in whatever order they stand, stop
when one of them gathers nothing new, and then all that stands below has been gathered. Main
statements: `closedBelow_gatherAll` and `removed_with_all_below`.
-/

namespace IdentityDirectory

theorem StringSet.mem_of_size_le {s t : StringSet} (hsub : ∀ x ∈ s, x ∈ t)
    (hsize : t.size ≤ s.size) {x : String} (h : x ∈ t) : x ∈ s := by
  have hkeys : s.keys ⊆ t.keys := fun y hy =>
    StringMap.mem_keys_iff.mpr (hsub y (StringMap.mem_keys_iff.mp hy))
  have hlength : t.keys.length ≤ s.keys.length := by
    rw [StringMap.keys, StringMap.keys, List.length_map, List.length_map]
    exact hsize
  have hperm := (List.subperm_of_subset s.entries_nodup hkeys).perm_of_length_le hlength
  exact StringMap.mem_keys_iff.mp (hperm.mem_iff.mpr (StringMap.mem_keys_iff.mpr h))

namespace RealmGroups

variable {c : RealmGroups} {id x : String} {gathered : StringSet}

variable (c) in
/-- The ids from which `id` is reached by following parents. Groups may stand in circles, and several
of them may have one id. -/
inductive Below (id : String) : String → Prop
  | self : Below id id
  | child {g : Group} {parent : String} : g ∈ c.groups → g.parentId = some parent →
    Below id parent → Below id g.id

variable (c) in
def ClosedBelow (gathered : StringSet) : Prop :=
  ∀ g ∈ c.groups, ∀ parent, g.parentId = some parent → parent ∈ gathered → g.id ∈ gathered

theorem id_mem_foldl_gather {l : List Group} {g : Group} {parent : String} (hg : g ∈ l)
    (hparent : g.parentId = some parent) (h : parent ∈ gathered) :
    g.id ∈ l.foldl gather gathered := by
  induction l generalizing gathered with
  | nil => cases hg
  | cons g' l ih =>
    rw [List.foldl_cons]
    rcases List.mem_cons.mp hg with rfl | hg
    · exact mem_foldl_gather (mem_gather.mpr (.inr ⟨rfl, parent, hparent, h⟩))
    · exact ih hg (mem_gather.mpr (.inl h))

theorem mem_gatherAll (h : x ∈ gathered) : x ∈ c.gatherAll gathered := by
  induction gathered using gatherAll.induct c with
  | case1 gathered hsize =>
    rw [gatherAll, if_pos hsize]
    exact mem_foldl_gather h
  | case2 gathered hsize ih =>
    rw [gatherAll, if_neg hsize]
    exact ih (mem_foldl_gather h)

theorem closedBelow_gatherAll (gathered : StringSet) : c.ClosedBelow (c.gatherAll gathered) := by
  -- The last pass gathered nothing new, so that what it started from was closed already.
  induction gathered using gatherAll.induct c with
  | case1 gathered hsize =>
    rw [gatherAll, if_pos hsize]
    intro g hg parent hparent hmem
    have hsub : ∀ x ∈ gathered, x ∈ c.gatherOnce gathered := fun _ => mem_foldl_gather
    have hold : parent ∈ gathered := StringSet.mem_of_size_le hsub (Nat.le_of_eq hsize) hmem
    exact id_mem_foldl_gather hg hparent hold
  | case2 gathered hsize ih =>
    rw [gatherAll, if_neg hsize]
    exact ih

theorem below_of_mem_foldl {l : List Group} (hl : l ⊆ c.groups)
    (h : ∀ x ∈ gathered, c.Below id x) (hx : x ∈ l.foldl gather gathered) : c.Below id x := by
  induction l generalizing gathered with
  | nil => exact h x hx
  | cons g l ih =>
    obtain ⟨hg, hl⟩ := List.cons_subset.mp hl
    refine ih hl (fun y hy => ?_) hx
    rcases mem_gather.mp hy with hy | ⟨rfl, parent, hparent, hmem⟩
    · exact h y hy
    · exact .child hg hparent (h parent hmem)

theorem below_of_mem_gatherAll (h : ∀ x ∈ gathered, c.Below id x)
    (hx : x ∈ c.gatherAll gathered) : c.Below id x := by
  induction gathered using gatherAll.induct c with
  | case1 gathered hsize =>
    rw [gatherAll, if_pos hsize] at hx
    exact below_of_mem_foldl (List.Subset.refl _) h hx
  | case2 gathered hsize ih =>
    rw [gatherAll, if_neg hsize] at hx
    exact ih (fun y hy => below_of_mem_foldl (List.Subset.refl _) h hy) hx

theorem mem_gatherAll_iff : x ∈ c.gatherAll ((∅ : StringSet).insert id) ↔ c.Below id x := by
  constructor
  · refine below_of_mem_gatherAll fun y hy => ?_
    rcases StringSet.mem_insert.mp hy with rfl | hy
    · exact .self
    · exact absurd hy (StringMap.not_mem_empty y)
  · intro h
    induction h with
    | self => exact mem_gatherAll (StringSet.mem_insert.mpr (.inl rfl))
    | child hg hparent _ ih => exact closedBelow_gatherAll _ _ hg _ hparent ih

theorem remove_of_find?_none (h : c.find? id = none) : c.remove id = (∅, c) := by
  rw [remove, h]
  rfl

theorem remove_of_find?_some (h : (c.find? id).isSome) : c.remove id =
    (c.gatherAll ((∅ : StringSet).insert id),
      { c with groups := c.outside (c.gatherAll ((∅ : StringSet).insert id)) }) := by
  rw [remove, if_neg]
  rw [Option.isNone_iff_eq_none, ← Option.not_isSome_iff_eq_none]
  exact not_not.mpr h

theorem closedBelow_remove (c : RealmGroups) (id : String) : c.ClosedBelow (c.remove id).1 := by
  -- What is removed is closed under children, so that nobody who stays has lost its parent.
  cases hfind : c.find? id with
  | none =>
    rw [remove_of_find?_none hfind]
    exact fun _ _ parent _ hmem => absurd hmem (StringMap.not_mem_empty parent)
  | some group =>
    rw [remove_of_find?_some (hfind ▸ rfl)]
    exact closedBelow_gatherAll _

theorem groups_remove (c : RealmGroups) (id : String) :
    (c.remove id).2.groups = c.groups.filter (·.id ∉ (c.remove id).1) := by
  cases hfind : c.find? id with
  | none =>
    rw [remove_of_find?_none hfind]
    exact (List.filter_eq_self.mpr fun g _ => decide_eq_true (StringMap.not_mem_empty g.id)).symm
  | some group => rw [remove_of_find?_some (hfind ▸ rfl), outside]

/-- Without a group of that id nothing changes. Otherwise exactly the ids from which it is reached by
following parents are removed, in whatever order, circles and gaps the groups stand; all other groups
stay as they are and where they are, and none of them has a removed parent. -/
theorem removed_with_all_below (c : RealmGroups) (id : String) :
    (c.find? id = none → c.remove id = (∅, c)) ∧
    ((c.find? id).isSome →
      (∀ x, x ∈ (c.remove id).1 ↔ c.Below id x) ∧
      (c.remove id).2 = { c with groups := c.groups.filter (·.id ∉ (c.remove id).1) } ∧
      ∀ g ∈ (c.remove id).2.groups, ∀ parent, g.parentId = some parent →
        parent ∉ (c.remove id).1) := by
  refine ⟨remove_of_find?_none, fun hfind => ⟨fun x => ?_, ?_, fun g hg parent hparent hmem => ?_⟩⟩
  · rw [remove_of_find?_some hfind]
    exact mem_gatherAll_iff
  · rw [remove_of_find?_some hfind]
    rfl
  · rw [groups_remove] at hg
    obtain ⟨hgroup, hkept⟩ := List.mem_filter.mp hg
    exact of_decide_eq_true hkept (closedBelow_remove c id g hgroup parent hparent hmem)

theorem removed_with_all_below_of_circle :
    let c : RealmGroups := { groups := [{ id := "d", parentId := some "c" },
      { id := "c", parentId := some "b" }, { id := "b", parentId := some "c" },
      { id := "e", parentId := some "gone" }] }
    (c.find? "b").isSome ∧ "d" ∈ (c.remove "b").1 ∧
      (c.remove "b").2.groups = [{ id := "e", parentId := some "gone" }] := by
  intro c
  obtain ⟨hmem, hgroups, -⟩ := (removed_with_all_below c "b").2 rfl
  have hc : c.Below "b" "c" := Below.child (g := { id := "c", parentId := some "b" })
    (.tail _ (.head _)) rfl .self
  have hd : c.Below "b" "d" := Below.child (g := { id := "d", parentId := some "c" })
    (.head _) rfl hc
  have hall : ∀ x, c.Below "b" x → x ∈ ["b", "c", "d"] := by
    intro x hx
    induction hx with
    | self => decide
    | child hg hparent _ ih =>
      simp only [c, List.mem_cons, List.not_mem_nil, or_false] at hg
      rcases hg with rfl | rfl | rfl | rfl
      · decide
      · decide
      · decide
      · obtain rfl := Option.some.inj hparent
        exact absurd ih (by decide)
  have he : ¬ c.Below "b" "e" := fun h => absurd (hall "e" h) (by decide)
  refine ⟨rfl, (hmem "d").mpr hd, ?_⟩
  rw [hgroups]
  simp [c, hmem, hc, hd, he, Below.self]

end RealmGroups

end IdentityDirectory
