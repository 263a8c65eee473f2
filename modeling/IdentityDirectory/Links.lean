import IdentityDirectory.StringMap

/-!
Links between named nodes, and the walk along them. Links may run in circles and may point at names
that are no nodes; a node is followed once, and a name that is no node counts for nothing. The names
still to be visited are a stack, which may hold a name many times.
-/

namespace IdentityDirectory

structure Links where
  nodes : List String
  next : String → List String

namespace Links

variable (g : Links)

def unvisited (visited : StringSet) : List String := g.nodes.filter (· ∉ visited)

theorem unvisited_insert_lt {visited : StringSet} {x : String} (hx : x ∈ g.nodes)
    (hnew : x ∉ visited) :
    (g.unvisited (visited.insert x)).length < (g.unvisited visited).length := by
  have hsub : g.unvisited (visited.insert x) = (g.unvisited visited).filter (· ≠ x) := by
    simp [unvisited, List.filter_filter, StringSet.mem_insert]
  rw [hsub]
  exact List.length_filter_lt_length_iff_exists.mpr ⟨x, by simp [unvisited, hx, hnew], by simp⟩

def ahead (visited : StringSet) (x : String) : List String :=
  ((g.next x).filter (· ∉ visited)).reverse

theorem mem_ahead {visited : StringSet} {x y : String} :
    y ∈ g.ahead visited x ↔ y ∈ g.next x ∧ y ∉ visited := by
  simp [ahead]

def walk (visited : StringSet) (pending : List String) : StringSet :=
  match pending with
  | [] => visited
  | x :: rest =>
    if x ∈ g.nodes ∧ x ∉ visited then
      walk (visited.insert x) (g.ahead (visited.insert x) x ++ rest)
    else walk visited rest
termination_by ((g.unvisited visited).length, pending.length)
decreasing_by
  · next h => exact .left _ _ (g.unvisited_insert_lt h.1 h.2)
  · exact .right _ (by simp)

end Links

end IdentityDirectory
