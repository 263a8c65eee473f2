import IdentityDirectory.Proofs.Access.Authorization
import Mathlib.Order.Bounds.Defs

/-!
What a role comprises. Main statement: `expand_least_and_hasRole_iff`, its expansion is the least set
with the role itself and the parts of whatever is in the set, and to follow one grant after the other
decides the same as to expand each of them apart.
-/

namespace IdentityDirectory.RealmRoles

variable {c : RealmRoles} {id x part : String} {role : Role}

variable (c) in
/-- With a role, those of its parts that exist are in the set. Of several roles with one id the first
one counts. -/
def ClosedUnderParts (s : Set String) : Prop :=
  ∀ id ∈ s, ∀ role, c.find? id = some role → ∀ part ∈ role.compositeRoleIds,
    (c.find? part).isSome → part ∈ s

theorem Contains.isSome_find? (h : c.Contains id x) : (c.find? id).isSome := by
  cases h with
  | self hrole => exact hrole ▸ rfl
  | part hrole => exact hrole ▸ rfl

theorem Contains.append_part (h : c.Contains id x) (hrole : c.find? x = some role)
    (hpart : part ∈ role.compositeRoleIds) (hfind : (c.find? part).isSome) :
    c.Contains id part := by
  induction h with
  | self =>
    obtain ⟨found, hfound⟩ := Option.isSome_iff_exists.mp hfind
    exact .part hrole hpart (.self hfound)
  | part hfirst hchild _ ih => exact .part hfirst hchild (ih hrole)

theorem Contains.mem_of_closed {s : Set String} (h : c.Contains id x) (hs : c.ClosedUnderParts s)
    (hid : id ∈ s) : x ∈ s := by
  induction h with
  | self => exact hid
  | part hrole hchild hrest ih => exact ih (hs _ hid _ hrole _ hchild hrest.isSome_find?)

theorem mem_expand_iff : x ∈ c.expand id ↔ c.Contains id x := by
  rw [expand, Links.mem_walk_empty_iff]
  simp only [List.mem_singleton, exists_eq_left, reaches_iff_contains]

theorem closedUnderParts_expand (c : RealmRoles) (id : String) :
    c.ClosedUnderParts {x | x ∈ c.expand id} := by
  intro x hx role hrole part hpart hfind
  have hcontains : c.Contains id x := mem_expand_iff.mp hx
  exact mem_expand_iff.mpr (hcontains.append_part hrole hpart hfind)

theorem expand_isLeast (c : RealmRoles) (id : String) :
    IsLeast {s : Set String | ((c.find? id).isSome → id ∈ s) ∧ c.ClosedUnderParts s}
      {x | x ∈ c.expand id} := by
  refine ⟨⟨fun hfind => ?_, closedUnderParts_expand c id⟩, fun s hs x hx => ?_⟩
  · obtain ⟨role, hrole⟩ := Option.isSome_iff_exists.mp hfind
    exact mem_expand_iff.mpr (.self hrole)
  · have hcontains : c.Contains id x := mem_expand_iff.mp hx
    exact hcontains.mem_of_closed hs.2 (hs.1 hcontains.isSome_find?)

theorem hasRole_iff_mem_expand {granted : List String} :
    c.hasRole granted id = true ↔ ∃ grant ∈ granted, id ∈ c.expand grant := by
  simp only [hasRole_iff, mem_expand_iff]

/-- Whatever circles, dangling ids and repeated ids there are, an expansion is the least set that has
the role, if it exists, and is closed under existing parts; a role is had exactly if the expansion of
some grant has it, so that neither the order nor the repetition of grants matters. -/
theorem expand_least_and_hasRole_iff (c : RealmRoles) :
    (∀ id, IsLeast {s : Set String | ((c.find? id).isSome → id ∈ s) ∧ c.ClosedUnderParts s}
      {x | x ∈ c.expand id}) ∧
    (∀ granted id, c.hasRole granted id = true ↔ ∃ grant ∈ granted, id ∈ c.expand grant) ∧
    ∀ granted granted' id, (∀ grant, grant ∈ granted ↔ grant ∈ granted') →
      c.hasRole granted id = c.hasRole granted' id := by
  refine ⟨expand_isLeast c, fun _ _ => hasRole_iff_mem_expand, fun granted granted' id hsame => ?_⟩
  rw [Bool.eq_iff_iff, hasRole_iff_mem_expand, hasRole_iff_mem_expand]
  simp only [hsame]

end IdentityDirectory.RealmRoles
