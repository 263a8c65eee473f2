import IdentityDirectory.Links

/-!
What a walk along links visits. Main statement: `mem_walk_empty_iff`, a walk that starts afresh
visits exactly the nodes that a path of nodes leads to from one of the pending names.
-/

namespace IdentityDirectory.Links

variable (g : Links)

/-- A path along links on which every name, the first and the last included, is a node. -/
inductive Reaches : String → String → Prop
  | refl {x : String} : x ∈ g.nodes → Reaches x x
  | step {x y z : String} : x ∈ g.nodes → y ∈ g.next x → Reaches y z → Reaches x z

variable {g} {visited : StringSet} {pending : List String} {x y : String}

theorem Reaches.start (h : g.Reaches x y) : x ∈ g.nodes := by
  cases h with
  | refl hx => exact hx
  | step hx => exact hx

theorem walk_nil : g.walk visited [] = visited := by
  rw [walk]

theorem walk_cons_of_new (hx : x ∈ g.nodes) (hnew : x ∉ visited) :
    g.walk visited (x :: pending) =
      g.walk (visited.insert x) (g.ahead (visited.insert x) x ++ pending) := by
  rw [walk, if_pos ⟨hx, hnew⟩]

theorem walk_cons_of_not (h : ¬ (x ∈ g.nodes ∧ x ∉ visited)) :
    g.walk visited (x :: pending) = g.walk visited pending := by
  rw [walk, if_neg h]

theorem walk_append (visited : StringSet) (pending rest : List String) :
    g.walk visited (pending ++ rest) = g.walk (g.walk visited pending) rest := by
  induction visited, pending using walk.induct g with
  | case1 visited => rw [walk_nil, List.nil_append]
  | case2 visited x pending h ih =>
    rw [List.cons_append, walk_cons_of_new h.1 h.2, walk_cons_of_new h.1 h.2, ← ih,
      List.append_assoc]
  | case3 visited x pending h ih =>
    rw [List.cons_append, walk_cons_of_not h, walk_cons_of_not h, ih]

theorem mem_walk_of_visited (h : y ∈ visited) : y ∈ g.walk visited pending := by
  induction visited, pending using walk.induct g with
  | case1 visited =>
    rw [walk_nil]
    exact h
  | case2 visited x pending hx ih =>
    rw [walk_cons_of_new hx.1 hx.2]
    exact ih (StringSet.mem_insert.mpr (.inr h))
  | case3 visited x pending hx ih =>
    rw [walk_cons_of_not hx]
    exact ih h

theorem mem_walk_of_pending (h : y ∈ pending) (hy : y ∈ g.nodes) : y ∈ g.walk visited pending := by
  induction visited, pending using walk.induct g with
  | case1 visited => cases h
  | case2 visited x pending hx ih =>
    rw [walk_cons_of_new hx.1 hx.2]
    rcases List.mem_cons.mp h with rfl | h
    · exact mem_walk_of_visited (StringSet.mem_insert.mpr (.inl rfl))
    · exact ih (List.mem_append_right _ h)
  | case3 visited x pending hx ih =>
    rw [walk_cons_of_not hx]
    rcases List.mem_cons.mp h with rfl | h
    · apply mem_walk_of_visited
      exact Decidable.byContradiction fun hnot => hx ⟨hy, hnot⟩
    · exact ih h

theorem reaches_of_mem_walk (h : y ∈ g.walk visited pending) :
    y ∈ visited ∨ ∃ x ∈ pending, g.Reaches x y := by
  induction visited, pending using walk.induct g with
  | case1 visited =>
    rw [walk_nil] at h
    exact .inl h
  | case2 visited x pending hx ih =>
    rw [walk_cons_of_new hx.1 hx.2] at h
    rcases ih h with hvisited | ⟨z, hz, hreach⟩
    · rcases StringSet.mem_insert.mp hvisited with rfl | hvisited
      · exact .inr ⟨y, List.mem_cons_self, .refl hx.1⟩
      · exact .inl hvisited
    · rcases List.mem_append.mp hz with hz | hz
      · exact .inr ⟨x, List.mem_cons_self, .step hx.1 (g.mem_ahead.mp hz).1 hreach⟩
      · exact .inr ⟨z, List.mem_cons_of_mem x hz, hreach⟩
  | case3 visited x pending hx ih =>
    rw [walk_cons_of_not hx] at h
    rcases ih h with hvisited | ⟨z, hz, hreach⟩
    · exact .inl hvisited
    · exact .inr ⟨z, List.mem_cons_of_mem x hz, hreach⟩

theorem walk_filter_visited {before : StringSet} (hbefore : ∀ y ∈ before, y ∈ visited) :
    g.walk visited (pending.filter (· ∉ before)) = g.walk visited pending := by
  induction pending generalizing visited with
  | nil => rfl
  | cons x pending ih =>
    have hwalk (rest : List String) :
        g.walk visited (x :: rest) = g.walk (g.walk visited [x]) rest :=
      walk_append visited [x] rest
    by_cases hx : x ∈ before
    · have hold : ¬ (x ∈ g.nodes ∧ x ∉ visited) := fun h => h.2 (hbefore x hx)
      rw [List.filter_cons_of_neg (by simpa using hx), ih hbefore, walk_cons_of_not hold]
    · rw [List.filter_cons_of_pos (by simpa using hx), hwalk (pending.filter _), hwalk pending]
      exact ih fun y hy => mem_walk_of_visited (hbefore y hy)

variable (g) in
def Covers (visited : StringSet) (pending : List String) : Prop :=
  ∀ x ∈ visited, ∀ y ∈ g.next x, y ∈ g.nodes → y ∈ visited ∨ y ∈ pending

theorem covers_empty (pending : List String) : g.Covers ∅ pending := by
  intro x hx
  cases hx

theorem Covers.walk (h : g.Covers visited pending) : g.Covers (g.walk visited pending) [] := by
  induction visited, pending using walk.induct g with
  | case1 visited =>
    rw [walk_nil]
    exact h
  | case2 visited x pending hx ih =>
    rw [walk_cons_of_new hx.1 hx.2]
    apply ih
    intro z hz y hy hnode
    by_cases hseen : y ∈ visited.insert x
    · exact .inl hseen
    · right
      rw [List.mem_append, g.mem_ahead]
      rcases StringSet.mem_insert.mp hz with rfl | hz
      · exact .inl ⟨hy, hseen⟩
      · have hold : y ∉ visited := fun hvisited => hseen (StringSet.mem_insert.mpr (.inr hvisited))
        have hnew : y ≠ x := fun heq => hseen (StringSet.mem_insert.mpr (.inl heq))
        have hpending := (h z hz y hy hnode).resolve_left hold
        exact .inr ((List.mem_cons.mp hpending).resolve_left hnew)
  | case3 visited x pending hx ih =>
    rw [walk_cons_of_not hx]
    apply ih
    intro z hz y hy hnode
    rcases h z hz y hy hnode with hvisited | hpending
    · exact .inl hvisited
    · rcases List.mem_cons.mp hpending with rfl | hpending
      · exact .inl (Decidable.byContradiction fun hnot => hx ⟨hnode, hnot⟩)
      · exact .inr hpending

theorem Covers.mem_of_reaches (h : g.Covers visited []) (hreach : g.Reaches x y)
    (hx : x ∈ visited) : y ∈ visited := by
  induction hreach with
  | refl => exact hx
  | step _ hlink hrest ih =>
    rcases h _ hx _ hlink hrest.start with hvisited | hpending
    · exact ih hvisited
    · cases hpending

theorem mem_walk_empty_iff : y ∈ g.walk ∅ pending ↔ ∃ x ∈ pending, g.Reaches x y := by
  constructor
  · intro h
    rcases reaches_of_mem_walk h with hvisited | hreach
    · cases hvisited
    · exact hreach
  · rintro ⟨x, hx, hreach⟩
    exact (covers_empty pending).walk.mem_of_reaches hreach (mem_walk_of_pending hx hreach.start)

end IdentityDirectory.Links
