import IdentityDirectory.Proofs.Access.Links
import IdentityDirectory.Proofs.Container.Commit

/-!
Who has a role. A user has the roles granted to it and to the groups above its own, with all that
these contain. Main statement: `userHasRole_iff_authorized`, the two walks decide exactly this,
whatever circles and dangling ids the containers have.
-/

namespace IdentityDirectory

namespace RealmRoles

variable {c : RealmRoles} {granted : List String} {id : String}

variable (c) in
inductive Contains : String → String → Prop
  | self {id : String} {role : Role} : c.find? id = some role → Contains id id
  | part {id child target : String} {role : Role} : c.find? id = some role →
    child ∈ role.compositeRoleIds → Contains child target → Contains id target

theorem Contains.exists_role {target : String} (h : c.Contains id target) :
    ∃ role, c.find? target = some role := by
  induction h with
  | self hrole => exact ⟨_, hrole⟩
  | part _ _ _ ih => exact ih

theorem mem_nodes_iff : id ∈ c.links.nodes ↔ ∃ role, c.find? id = some role := by
  rw [links, List.mem_map, find?, ← Option.isSome_iff_exists, List.find?_isSome]
  simp only [decide_eq_true_eq]

theorem next_of_find? {role : Role} (h : c.find? id = some role) :
    c.links.next id = role.compositeRoleIds.toList := by
  simp only [links, h]

theorem reaches_iff_contains {target : String} :
    c.links.Reaches id target ↔ c.Contains id target := by
  constructor
  · intro h
    induction h with
    | refl hnode =>
      obtain ⟨role, hrole⟩ := mem_nodes_iff.mp hnode
      exact .self hrole
    | step hnode hlink _ ih =>
      obtain ⟨role, hrole⟩ := mem_nodes_iff.mp hnode
      rw [next_of_find? hrole, StringSet.mem_toList] at hlink
      exact .part hrole hlink ih
  · intro h
    induction h with
    | self hrole => exact .refl (mem_nodes_iff.mpr ⟨_, hrole⟩)
    | part hrole hchild _ ih =>
      apply Links.Reaches.step (mem_nodes_iff.mpr ⟨_, hrole⟩) _ ih
      rw [next_of_find? hrole, StringSet.mem_toList]
      exact hchild

theorem hasRoleFrom_eq {visited : StringSet} (h : id ∉ visited) :
    c.hasRoleFrom id visited granted = decide (id ∈ c.links.walk visited granted) := by
  -- Asking after each grant whether the role has been found finds what one walk over all finds.
  induction granted generalizing visited with
  | nil => simp [hasRoleFrom, Links.walk_nil, h]
  | cons grant rest ih =>
    have hwalk : c.links.walk visited (grant :: rest) =
        c.links.walk (c.links.walk visited [grant]) rest :=
      Links.walk_append visited [grant] rest
    rw [hasRoleFrom, hwalk]
    by_cases hfound : id ∈ c.links.walk visited [grant]
    · simp [hfound, Links.mem_walk_of_visited hfound]
    · simp only [hfound, ↓reduceIte]
      exact ih hfound

theorem hasRole_iff : c.hasRole granted id = true ↔ ∃ g ∈ granted, c.Contains g id := by
  simp only [hasRole, hasRoleFrom_eq (StringMap.not_mem_empty id), decide_eq_true_eq,
    Links.mem_walk_empty_iff, reaches_iff_contains]

end RealmRoles

namespace RealmGroups

variable {c : RealmGroups} {id : String} {ids : List String} {group : Group}

variable (c) in
inductive Above : String → Group → Prop
  | self {id : String} {group : Group} : c.find? id = some group → Above id group
  | parent {id above : String} {group top : Group} : c.find? id = some group →
    group.parentId = some above → Above above top → Above id top

variable (c) in
def parentLinks : Links where
  nodes := c.groups.map (·.id)
  next id := ((c.find? id).bind (·.parentId)).toList

theorem id_of_find? (h : c.find? id = some group) : group.id = id := by
  have hmatch := List.find?_some h
  exact of_decide_eq_true hmatch

theorem mem_nodes_iff : id ∈ c.parentLinks.nodes ↔ ∃ group, c.find? id = some group := by
  rw [parentLinks, List.mem_map, find?, ← Option.isSome_iff_exists, List.find?_isSome]
  simp only [decide_eq_true_eq]

theorem reaches_iff_above {target : String} :
    c.parentLinks.Reaches id target ↔ ∃ group, c.Above id group ∧ group.id = target := by
  constructor
  · intro h
    induction h with
    | refl hnode =>
      obtain ⟨group, hgroup⟩ := mem_nodes_iff.mp hnode
      exact ⟨group, .self hgroup, id_of_find? hgroup⟩
    | step hnode hlink _ ih =>
      obtain ⟨group, hgroup⟩ := mem_nodes_iff.mp hnode
      obtain ⟨top, habove, htarget⟩ := ih
      simp only [parentLinks, hgroup, Option.bind_some, Option.mem_toList] at hlink
      exact ⟨top, .parent hgroup hlink habove, htarget⟩
  · rintro ⟨group, habove, rfl⟩
    induction habove with
    | self hgroup =>
      rw [id_of_find? hgroup]
      exact .refl (mem_nodes_iff.mpr ⟨_, hgroup⟩)
    | parent hgroup hparent _ ih =>
      apply Links.Reaches.step (mem_nodes_iff.mpr ⟨_, hgroup⟩) _ ih
      simp only [parentLinks, hgroup, Option.bind_some, hparent, Option.mem_toList]

theorem climb_eq_walk {found : StringSet} {start : Option Group} {steps : Nat}
    (hstart : ∀ g, start = some g → c.find? g.id = some g)
    (hsteps : (c.parentLinks.unvisited found).length < steps) :
    c.climb found start steps = c.parentLinks.walk found (start.map (·.id)).toList := by
  -- The names above a group that a walk has not seen are as many steps as a climb can take.
  induction steps generalizing found start with
  | zero => omega
  | succ steps ih =>
    cases start with
    | none => simp [climb, Links.walk_nil]
    | some g =>
      have hfind := hstart g rfl
      have hnode : g.id ∈ c.parentLinks.nodes := mem_nodes_iff.mpr ⟨g, hfind⟩
      by_cases hseen : g.id ∈ found
      · have hold : ¬ (g.id ∈ c.parentLinks.nodes ∧ g.id ∉ found) := fun h => h.2 hseen
        simp [climb, hseen, Links.walk_cons_of_not hold, Links.walk_nil]
      · have hnext : c.parentLinks.next g.id = g.parentId.toList := by
          simp [parentLinks, hfind]
        have hfewer := c.parentLinks.unvisited_insert_lt hnode hseen
        have hparent : ∀ p, c.parent? g = some p → c.find? p.id = some p := by
          intro p hp
          obtain ⟨above, -, hp⟩ := Option.bind_eq_some_iff.mp hp
          rw [id_of_find? hp]
          exact hp
        have hrest : c.climb (found.insert g.id) (c.parent? g) steps =
            c.parentLinks.walk (found.insert g.id) ((c.parent? g).map (·.id)).toList :=
          ih hparent (by omega)
        -- A group has one parent at most, and the walk may as well look at it when it has been seen.
        have hahead : c.parentLinks.ahead (found.insert g.id) g.id =
            g.parentId.toList.filter (· ∉ found.insert g.id) := by
          rw [Links.ahead, hnext]
          cases g.parentId with
          | none => rfl
          | some above => by_cases h : above ∈ found.insert g.id <;> simp [h]
        simp only [climb, hseen, ↓reduceIte, Option.map_some, Option.toList_some]
        rw [Links.walk_cons_of_new hnode hseen, List.append_nil, hahead,
          Links.walk_filter_visited fun _ h => h, hrest, parent?]
        -- A parent that does not exist ends the climb, and for the walk it is no node.
        cases hid : g.parentId with
        | none => rfl
        | some above =>
          simp only [Option.bind_some, Option.toList_some]
          cases hp : c.find? above with
          | some p => rw [Option.map_some, id_of_find? hp, Option.toList_some]
          | none =>
            have hnot : above ∉ c.parentLinks.nodes := by
              rw [mem_nodes_iff, hp]
              simp
            rw [Links.walk_cons_of_not fun h => hnot h.1]
            rfl

theorem withAncestors_eq_walk : c.withAncestors ids = c.parentLinks.walk ∅ ids := by
  have hall : ∀ (l : List String) (found : StringSet),
      l.foldl (fun found id => c.climb found (c.find? id) (c.groups.length + 2)) found =
        c.parentLinks.walk found l := by
    intro l
    induction l with
    | nil => exact fun found => Links.walk_nil.symm
    | cons id l ih =>
      intro found
      have hstart : ∀ g, c.find? id = some g → c.find? g.id = some g := by
        intro g hg
        rw [id_of_find? hg]
        exact hg
      have hnodes : c.parentLinks.nodes.length = c.groups.length := List.length_map _
      have hbound : (c.parentLinks.unvisited found).length < c.groups.length + 2 := by
        have := List.length_filter_le (· ∉ found) c.parentLinks.nodes
        rw [Links.unvisited]
        omega
      rw [List.foldl_cons, ih, climb_eq_walk hstart hbound,
        show id :: l = [id] ++ l from rfl, Links.walk_append]
      congr 1
      cases hid : c.find? id with
      | some g => rw [Option.map_some, id_of_find? hid, Option.toList_some]
      | none =>
        have hnot : id ∉ c.parentLinks.nodes := by
          rw [mem_nodes_iff, hid]
          simp
        rw [Links.walk_cons_of_not fun h => hnot h.1]
        rfl
  exact hall ids ∅

theorem mem_withAncestors_iff : id ∈ c.withAncestors ids ↔
    ∃ start ∈ ids, ∃ group, c.Above start group ∧ group.id = id := by
  simp only [withAncestors_eq_walk, Links.mem_walk_empty_iff, reaches_iff_above]

theorem find?_of_above (h : c.Above id group) : c.find? group.id = some group := by
  induction h with
  | self hgroup => rw [id_of_find? hgroup, hgroup]
  | parent _ _ _ ih => exact ih

theorem mem_foldl_union {l : List Group} {found : StringSet} {roleId : String} :
    roleId ∈ l.foldl (fun found g => found.union g.roleIds) found ↔
      roleId ∈ found ∨ ∃ g ∈ l, roleId ∈ g.roleIds := by
  induction l generalizing found with
  | nil => simp
  | cons g l ih =>
    rw [List.foldl_cons, ih, StringSet.mem_union]
    simp only [List.mem_cons, exists_eq_or_imp, or_assoc]

theorem mem_inheritedRoleIds_iff {roleId : String} : roleId ∈ c.inheritedRoleIds ids ↔
    ∃ start ∈ ids, ∃ group, c.Above start group ∧ roleId ∈ group.roleIds := by
  rw [inheritedRoleIds, mem_foldl_union]
  simp only [resolve, List.mem_filterMap, StringSet.mem_toList, mem_withAncestors_iff]
  constructor
  · rintro (hempty | ⟨g, ⟨id, ⟨start, hstart, group, habove, rfl⟩, hfind⟩, hrole⟩)
    · cases hempty
    · rw [find?_of_above habove] at hfind
      obtain rfl := Option.some.inj hfind
      exact ⟨start, hstart, group, habove, hrole⟩
  · rintro ⟨start, hstart, group, habove, hrole⟩
    exact .inr ⟨group, ⟨group.id, ⟨start, hstart, group, habove, rfl⟩, find?_of_above habove⟩, hrole⟩

end RealmGroups

namespace User

variable (user : User) (roles : RealmRoles) (groups : RealmGroups)

def Granted (id : String) : Prop :=
  id ∈ user.roleIds ∨ ∃ start ∈ user.groupIds, ∃ group, groups.Above start group ∧
    id ∈ group.roleIds

def Authorized (roleId : String) : Prop :=
  ∃ id, user.Granted groups id ∧ roles.Contains id roleId

variable {user roles groups}

theorem authorized_iff {roleId : String} : user.Authorized roles groups roleId ↔
    roles.hasRole (user.roleIds.union
      (groups.inheritedRoleIds user.groupIds.toList)).toList roleId = true := by
  simp only [Authorized, Granted, RealmRoles.hasRole_iff, StringSet.mem_toList, StringSet.mem_union,
    RealmGroups.mem_inheritedRoleIds_iff]

end User

namespace Coordinator

variable {k : ContainerKind} {β : Type}

def current (c : Coordinator (Container k)) (s : RowStore) (tenant : String) :
    Except StoreError (Container k) :=
  match c.loaded.get? tenant with
  | some x => .ok x.value
  | none => (stored tenant s).map (·.value)

theorem read_current (d : Desk (Coordinator (Container k))) (tenant : String)
    (f : Container k → β) : (read tenant f d).1 = (current d.held d.rows tenant).map f ∧
      (read tenant f d).2.rows = d.rows := by
  rw [current]
  cases hheld : d.held.loaded.get? tenant with
  | some x =>
    rw [read, Work.bind_of_ok (load_of_held hheld)]
    exact ⟨rfl, rfl⟩
  | none =>
    cases hstored : (stored tenant : Query (Loaded (Container k))) d.rows with
    | ok x =>
      rw [read, Work.bind_of_ok (load_of_stored hheld hstored)]
      exact ⟨rfl, rfl⟩
    | error e =>
      rw [read, Work.bind_of_error (load_of_error hheld hstored)]
      exact ⟨rfl, rfl⟩

end Coordinator

namespace UnitOfWork

/-- Whether a user has a role is answered for any two containers, and rightly. -/
theorem userHasRole_iff_authorized (d : Desk UnitOfWork) (realmId : String) (user : User)
    (roleId : String) {roles : RealmRoles} {groups : RealmGroups}
    (hroles : (d.held.coordinator .roles).current d.rows realmId = .ok roles)
    (hgroups : (d.held.coordinator .groups).current d.rows realmId = .ok groups) :
    ∃ answer, (userHasRole realmId user roleId d).1 = .ok answer ∧
      (answer = true ↔ user.Authorized roles groups roleId) := by
  let inherited := groups.inheritedRoleIds user.groupIds.toList
  let granted := (user.roleIds.union inherited).toList
  -- The groups are read first, which leaves the rows and the other coordinators as they are.
  obtain ⟨d₁, hfirst, hroles⟩ : ∃ d₁ : Desk UnitOfWork,
      Work.on groupsPart (Groups.inheritedRoleIds realmId user.groupIds) d = (.ok inherited, d₁) ∧
        (d₁.held.coordinator .roles).current d₁.rows realmId = .ok roles := by
    obtain ⟨hresult, hrows⟩ := Coordinator.read_current (k := .groups)
      { d with held := d.held.groups } realmId (·.inheritedRoleIds user.groupIds.toList)
    rw [show Coordinator.current (k := .groups) d.held.groups d.rows realmId = .ok groups
      from hgroups] at hresult
    refine ⟨_, Prod.ext hresult rfl, ?_⟩
    rw [← hroles]
    exact congrArg (fun rows => Coordinator.current (d.held.coordinator .roles) rows realmId) hrows
  obtain ⟨hresult, -⟩ := Coordinator.read_current (k := .roles)
    { d₁ with held := d₁.held.roles } realmId (·.hasRole granted roleId)
  rw [show Coordinator.current (k := .roles) d₁.held.roles d₁.rows realmId = .ok roles
    from hroles] at hresult
  refine ⟨roles.hasRole granted roleId, ?_, User.authorized_iff.symm⟩
  rw [userHasRole, Work.bind_of_ok hfirst]
  exact hresult

theorem userHasRole_iff_authorized_in_circles :
    let groups : RealmGroups := { groups := [{ id := "g", parentId := some "h" },
      { id := "h", parentId := some "g", roleIds := (∅ : StringSet).insert "top" }] }
    let roles : RealmRoles := { roles := [
      { id := "top", compositeRoleIds := ((∅ : StringSet).insert "gone").insert "part" },
      { id := "part", compositeRoleIds := (∅ : StringSet).insert "top" }] }
    let user : User := { id := "u", groupIds := (∅ : StringSet).insert "g" }
    let u := start "a" false true
    let d : Desk UnitOfWork := ⟨.empty 0, { value := fun n => n }, { u with
      roles := { u.roles with loaded := u.roles.loaded.insert "r" ⟨roles, none⟩ }
      groups := { u.groups with loaded := u.groups.loaded.insert "r" ⟨groups, none⟩ } }⟩
    (d.held.coordinator .roles).current d.rows "r" = .ok roles ∧
      (d.held.coordinator .groups).current d.rows "r" = .ok groups ∧
      (userHasRole "r" user "part" d).1 = .ok true ∧
      (userHasRole "r" user "gone" d).1 = .ok false := by
  intro groups roles user u d
  have hroles : (d.held.coordinator .roles).current d.rows "r" = .ok roles := rfl
  have hgroups : (d.held.coordinator .groups).current d.rows "r" = .ok groups := rfl
  refine ⟨hroles, hgroups, ?_, ?_⟩
  · obtain ⟨answer, hrun, hiff⟩ := userHasRole_iff_authorized d "r" user "part" hroles hgroups
    have hgranted : user.Granted groups "top" :=
      .inr ⟨"g", by decide, _, .parent rfl rfl (.self rfl), by decide⟩
    have hcontains : roles.Contains "top" "part" := .part rfl (by decide) (.self rfl)
    have hauthorized : user.Authorized roles groups "part" := ⟨"top", hgranted, hcontains⟩
    rw [hrun, hiff.mpr hauthorized]
  · obtain ⟨answer, hrun, hiff⟩ := userHasRole_iff_authorized d "r" user "gone" hroles hgroups
    have hnot : ¬ user.Authorized roles groups "gone" := by
      rintro ⟨id, -, hcontains⟩
      obtain ⟨role, hrole⟩ := hcontains.exists_role
      cases hrole
    rw [hrun, Bool.eq_false_iff.mpr (mt hiff.mp hnot)]

end UnitOfWork

end IdentityDirectory
