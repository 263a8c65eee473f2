import IdentityDirectory.Error
import IdentityDirectory.FirstMatch
import IdentityDirectory.Group.Record
import IdentityDirectory.Text.Search

/-!
The groups of a realm. A group may have a parent; names are unique among siblings. A group can be
moved under its own descendants, so walks towards the root are bounded by the number of groups.
-/

namespace IdentityDirectory.RealmGroups

variable (c : RealmGroups)

def find? (id : String) : Option Group := c.groups.find? (·.id = id)

def sibling? (parentId : Option String) (name : String) : Option Group :=
  c.groups.find? fun g => g.parentId = parentId && g.name = name

def modify (id : String) (f : Group → Group) : RealmGroups :=
  { c with groups := modifyFirst (·.id = id) f c.groups }

def requireParent : Option String → Except StoreError Unit
  | none => return
  | some parent =>
    if (c.find? parent).isSome then return
    else throw (.invalidArgument (.missingParentGroup parent))

def create (id name : String) (parentId : Option String) :
    Except StoreError (Group × RealmGroups) := do
  c.requireParent parentId
  if (c.sibling? parentId name).isSome then throw (.duplicateKey .group name)
  let group : Group := { id, name, parentId }
  return (group, { c with groups := c.groups ++ [group] })

def parent? (g : Group) : Option Group := g.parentId.bind c.find?

def lineage (g : Group) : Nat → List Group
  | 0 => [g]
  | steps + 1 =>
    match c.parent? g with
    | none => [g]
    | some p => g :: lineage p steps

def path? (id : String) : Option String :=
  (c.find? id).map fun g =>
    let names := ((c.lineage g c.groups.length).map (·.name)).reverse
    "/" ++ "/".intercalate names

def subGroups (parentId search : Option String) (page : Page) : List Group :=
  page.of (c.groups.filter fun g => g.parentId = parentId && Text.matchesSearch g.name search)

def search (search : Option String) (page : Page) : List Group :=
  page.of (c.groups.filter (Text.matchesSearch ·.name search))

def isTaken (id name : String) (parentId : Option String) : Bool :=
  (c.sibling? parentId name).any (·.id ≠ id)

def move (id : String) (parentId : Option String) : Except StoreError (Bool × RealmGroups) := do
  match c.find? id with
  | none => return (false, c)
  | some group =>
    c.requireParent parentId
    if c.isTaken id group.name parentId then throw (.duplicateKey .group group.name)
    return (true, c.modify id fun g => { g with parentId })

def rename (id name : String) : Except StoreError (Bool × RealmGroups) := do
  match c.find? id with
  | none => return (false, c)
  | some group =>
    if c.isTaken id name group.parentId then throw (.duplicateKey .group name)
    return (true, c.modify id fun g => { g with name })

def setAttribute (id name : String) (values : List String) : Bool × RealmGroups :=
  match c.find? id with
  | none => (false, c)
  | some group =>
    if values.isEmpty then
      (group.attributes.contains name, c.modify id fun g =>
        { g with attributes := g.attributes.erase name })
    else
      (true, c.modify id fun g => { g with attributes := g.attributes.insert name values })

def gather (gathered : StringSet) (g : Group) : StringSet :=
  if g.parentId.any (· ∈ gathered) then gathered.insert g.id else gathered

def gatherOnce (gathered : StringSet) : StringSet := c.groups.foldl gather gathered

def outside (gathered : StringSet) : List Group := c.groups.filter (·.id ∉ gathered)

theorem mem_gather {gathered : StringSet} {g : Group} {x : String} :
    x ∈ gather gathered g ↔ x ∈ gathered ∨ g.id = x ∧ ∃ p ∈ g.parentId, p ∈ gathered := by
  have hany : g.parentId.any (· ∈ gathered) ↔ ∃ p ∈ g.parentId, p ∈ gathered := by
    simp [Option.any_eq_true]
  rw [gather]
  split
  · next h => rw [StringSet.mem_insert, or_comm, and_iff_left (hany.mp h), @eq_comm _ x]
  · next h => exact ⟨.inl, fun hmem => hmem.resolve_right fun hchild => h (hany.mpr hchild.2)⟩

theorem mem_foldl_gather {l : List Group} {gathered : StringSet} {x : String}
    (h : x ∈ gathered) : x ∈ l.foldl gather gathered := by
  induction l generalizing gathered with
  | nil => exact h
  | cons g l ih => exact ih (mem_gather.mpr (.inl h))

theorem mem_or_mem_ids_of_mem_foldl {l : List Group} {gathered : StringSet} {x : String}
    (h : x ∈ l.foldl gather gathered) : x ∈ gathered ∨ ∃ g ∈ l, g.id = x := by
  induction l generalizing gathered with
  | nil => exact .inl h
  | cons g l ih =>
    rcases ih h with h | ⟨g', hg', hid⟩
    · exact (mem_gather.mp h).imp_right fun hchild => ⟨g, List.mem_cons_self, hchild.1⟩
    · exact .inr ⟨g', List.mem_cons_of_mem g hg', hid⟩

theorem outside_lt_of_size_ne {gathered : StringSet}
    (h : (c.gatherOnce gathered).size ≠ gathered.size) :
    (c.outside (c.gatherOnce gathered)).length < (c.outside gathered).length := by
  have hsub : ∀ x ∈ gathered, x ∈ c.gatherOnce gathered := fun _ => mem_foldl_gather
  obtain ⟨x, hx, hnot⟩ : ∃ x ∈ c.gatherOnce gathered, x ∉ gathered := by
    refine Classical.byContradiction fun hnone => h ?_
    have hback : ∀ x ∈ c.gatherOnce gathered, x ∈ gathered := fun x hx =>
      Classical.byContradiction fun hnot => hnone ⟨x, hx, hnot⟩
    rw [StringSet.ext_mem fun x => ⟨hback x, hsub x⟩]
  obtain ⟨g, hg, rfl⟩ := (mem_or_mem_ids_of_mem_foldl hx).resolve_left hnot
  have hfilter : c.outside (c.gatherOnce gathered) =
      (c.outside gathered).filter (·.id ∉ c.gatherOnce gathered) := by
    rw [outside, outside, List.filter_filter]
    refine List.filter_congr fun g _ => ?_
    have := hsub g.id
    by_cases hold : g.id ∈ gathered <;> simp_all
  rw [hfilter]
  refine List.length_filter_lt_length_iff_exists.mpr ⟨g, ?_, ?_⟩
  · simp [outside, hg, hnot]
  · simp [hx]

def gatherAll (gathered : StringSet) : StringSet :=
  if (c.gatherOnce gathered).size = gathered.size then c.gatherOnce gathered
  else gatherAll (c.gatherOnce gathered)
termination_by (c.outside gathered).length
decreasing_by
  next h => exact c.outside_lt_of_size_ne h

def remove (id : String) : StringSet × RealmGroups :=
  if (c.find? id).isNone then (∅, c)
  else
    let doomed := c.gatherAll ((∅ : StringSet).insert id)
    (doomed, { c with groups := c.outside doomed })

def grantRole (id roleId : String) : Bool × RealmGroups :=
  match c.find? id with
  | none => (false, c)
  | some group =>
    (roleId ∉ group.roleIds, c.modify id fun g => { g with roleIds := g.roleIds.insert roleId })

def revokeRole (id roleId : String) : Bool × RealmGroups :=
  match c.find? id with
  | none => (false, c)
  | some group =>
    (roleId ∈ group.roleIds, c.modify id fun g => { g with roleIds := g.roleIds.erase roleId })

def resolve (ids : List String) : List Group := ids.filterMap c.find?

def climb (found : StringSet) (group : Option Group) : Nat → StringSet
  | 0 => found
  | steps + 1 =>
    match group with
    | none => found
    | some g =>
      if g.id ∈ found then found else climb (found.insert g.id) (c.parent? g) steps

def withAncestors (ids : List String) : StringSet :=
  ids.foldl (fun found id => c.climb found (c.find? id) (c.groups.length + 2)) ∅

def inheritedRoleIds (ids : List String) : StringSet :=
  (c.resolve (c.withAncestors ids).toList).foldl (fun found g => found.union g.roleIds) ∅

end IdentityDirectory.RealmGroups
