import IdentityDirectory.Proofs.Container.Drafts
import IdentityDirectory.Proofs.FirstMatch
import IdentityDirectory.Proofs.Group.Removal

/-!
The order among the groups of a realm: ids are told apart, no parent is missing, and siblings have
names of their own. Each edit keeps all three, although groups can be moved into circles. The names
are looked after by what the other two say, and a removal leaves no orphan because it takes along all
that is reached from a group. Main statements: `Orderly.modify`, `Orderly.remove` and, for any sequence
of edits, `orderly_from_empty`.
-/

namespace IdentityDirectory

def Group.place (g : Group) : Option String × String := (g.parentId, g.name)

namespace RealmGroups

variable {c c' : RealmGroups} {group : Group} {id name : String} {parentId : Option String}

structure Orderly (c : RealmGroups) : Prop where
  ids : (c.groups.map Group.id).Nodup
  parents : ∀ g ∈ c.groups, ∀ parent, g.parentId = some parent → parent ∈ c.groups.map Group.id
  places : (c.groups.map Group.place).Nodup

theorem orderly_empty (realmId : String) : Orderly { realmId } where
  ids := List.nodup_nil
  parents _ hg := nomatch hg
  places := List.nodup_nil

theorem find?_isSome_iff : (c.find? id).isSome ↔ id ∈ c.groups.map Group.id := by
  simp [find?, List.find?_isSome]

theorem sibling?_eq_none_iff :
    c.sibling? parentId name = none ↔ ∀ g ∈ c.groups, g.place ≠ (parentId, name) := by
  simp [sibling?, List.find?_eq_none, Group.place]

theorem requireParent_eq_ok_iff : c.requireParent parentId = .ok () ↔
    ∀ parent, parentId = some parent → parent ∈ c.groups.map Group.id := by
  cases parentId with
  | none => exact iff_of_true rfl nofun
  | some parent =>
    rw [requireParent]
    split
    · next hsome =>
      refine iff_of_true rfl fun other heq => ?_
      obtain rfl := Option.some.inj heq
      exact find?_isSome_iff.mp hsome
    · next hnone => exact iff_of_false nofun fun h => hnone (find?_isSome_iff.mpr (h parent rfl))

theorem Orderly.place_free (h : c.Orderly) (hfree : ¬ c.isTaken id name parentId = true) :
    ∀ other ∈ c.groups, other.id ≠ id → other.place ≠ (parentId, name) := by
  -- The test looks at the first sibling of the name, which is the only one.
  intro other hother hne hplace
  apply hfree
  rw [isTaken]
  cases hfind : c.sibling? parentId name with
  | none => exact absurd hplace (sibling?_eq_none_iff.mp hfind other hother)
  | some first =>
    have hmem := List.mem_of_find?_eq_some hfind
    have hfirst : first.place = (parentId, name) := by
      simpa [Group.place] using List.find?_some hfind
    have hsame := List.inj_on_of_nodup_map h.places hmem hother (hfirst.trans hplace.symm)
    simpa [hsame] using hne

theorem Orderly.modify {f : Group → Group} (h : c.Orderly) (hgroup : group ∈ c.groups)
    (hid : ∀ g, (f g).id = g.id)
    (hfree : ∀ other ∈ c.groups, other.id ≠ group.id → other.place ≠ (f group).place)
    (hparent : ∀ parent, (f group).parentId = some parent → parent ∈ c.groups.map Group.id) :
    (c.modify group.id f).Orderly := by
  have hids : (c.modify group.id f).groups.map Group.id = c.groups.map Group.id :=
    map_modifyFirst hid _ _
  refine ⟨hids ▸ h.ids, fun g hg parent hsome => ?_,
    (nodup_map_modifyFirst_iff h.ids h.places hgroup).mpr hfree⟩
  rw [hids]
  rw [RealmGroups.modify, modifyFirst_eq_map h.ids, List.mem_map] at hg
  obtain ⟨g', hg', rfl⟩ := hg
  by_cases hsame : g'.id = group.id
  · obtain rfl := List.inj_on_of_nodup_map h.ids hg' hgroup hsame
    rw [if_pos rfl] at hsome
    exact hparent parent hsome
  · rw [if_neg hsame] at hsome
    exact h.parents g' hg' parent hsome

theorem Orderly.modify_in_place {f : Group → Group} (h : c.Orderly) (hgroup : group ∈ c.groups)
    (hid : ∀ g, (f g).id = g.id) (hplace : (f group).place = group.place) :
    (c.modify group.id f).Orderly := by
  refine h.modify hgroup hid (fun other hother hne heq => hne ?_) fun parent hsome => ?_
  · exact congrArg Group.id
      (List.inj_on_of_nodup_map h.places hother hgroup (heq.trans hplace))
  · exact h.parents group hgroup parent ((congrArg Prod.fst hplace).symm.trans hsome)

theorem Orderly.create (h : c.Orderly) (hnew : id ∉ c.groups.map Group.id)
    (hcreate : c.create id name parentId = .ok (group, c')) : c'.Orderly := by
  rw [RealmGroups.create] at hcreate
  cases hrequire : c.requireParent parentId with
  | error e =>
    rw [hrequire] at hcreate
    cases hcreate
  | ok u =>
    have hparent := requireParent_eq_ok_iff.mp hrequire
    rw [hrequire] at hcreate
    cases hsibling : c.sibling? parentId name with
    | some sibling =>
      rw [hsibling] at hcreate
      cases hcreate
    | none =>
      rw [hsibling] at hcreate
      obtain ⟨rfl, rfl⟩ := Prod.mk.inj (Except.ok.inj hcreate)
      refine ⟨nodup_map_concat h.ids fun g hg heq => hnew (List.mem_map.mpr ⟨g, hg, heq⟩),
        fun g hg parent hsome => ?_,
        nodup_map_concat h.places (sibling?_eq_none_iff.mp hsibling)⟩
      rw [List.map_append, List.mem_append]
      rcases List.mem_append.mp hg with hg | hg
      · exact .inl (h.parents g hg parent hsome)
      · obtain rfl := List.mem_singleton.mp hg
        exact .inl (hparent parent hsome)

theorem Orderly.move {moved : Bool} (h : c.Orderly)
    (hmove : c.move id parentId = .ok (moved, c')) : c'.Orderly := by
  rw [RealmGroups.move] at hmove
  cases hfind : c.find? id with
  | none =>
    rw [hfind] at hmove
    obtain ⟨-, rfl⟩ := Prod.mk.inj (Except.ok.inj hmove)
    exact h
  | some group =>
    obtain ⟨hgroup, rfl⟩ := mem_of_find?_key_eq_some Group.id hfind
    rw [hfind] at hmove
    cases hrequire : c.requireParent parentId with
    | error e =>
      rw [hrequire] at hmove
      cases hmove
    | ok u =>
      rw [hrequire] at hmove
      by_cases htaken : c.isTaken group.id group.name parentId = true
      · simp only [htaken] at hmove
        cases hmove
      · simp only [Bool.eq_false_iff.mpr htaken] at hmove
        obtain ⟨-, rfl⟩ := Prod.mk.inj (Except.ok.inj hmove)
        exact h.modify hgroup (fun _ => rfl) (h.place_free htaken)
          (requireParent_eq_ok_iff.mp hrequire)

theorem Orderly.rename {renamed : Bool} (h : c.Orderly)
    (hrename : c.rename id name = .ok (renamed, c')) : c'.Orderly := by
  rw [RealmGroups.rename] at hrename
  cases hfind : c.find? id with
  | none =>
    rw [hfind] at hrename
    obtain ⟨-, rfl⟩ := Prod.mk.inj (Except.ok.inj hrename)
    exact h
  | some group =>
    obtain ⟨hgroup, rfl⟩ := mem_of_find?_key_eq_some Group.id hfind
    rw [hfind] at hrename
    by_cases htaken : c.isTaken group.id name group.parentId = true
    · simp only [htaken] at hrename
      cases hrename
    · simp only [Bool.eq_false_iff.mpr htaken] at hrename
      obtain ⟨-, rfl⟩ := Prod.mk.inj (Except.ok.inj hrename)
      exact h.modify hgroup (fun _ => rfl) (h.place_free htaken) (h.parents group hgroup)

theorem Orderly.remove (h : c.Orderly) (id : String) : (c.remove id).2.Orderly := by
  have hgroups := groups_remove c id
  have hsub : (c.remove id).2.groups.Sublist c.groups := hgroups ▸ List.filter_sublist
  refine ⟨h.ids.sublist (hsub.map _), fun g hg parent hsome => ?_, h.places.sublist (hsub.map _)⟩
  rw [hgroups] at hg ⊢
  obtain ⟨hmem, hkept⟩ := List.mem_filter.mp hg
  obtain ⟨p, hp, rfl⟩ := List.mem_map.mp (h.parents g hmem parent hsome)
  refine List.mem_map.mpr ⟨p, List.mem_filter.mpr ⟨hp, decide_eq_true fun hremoved => ?_⟩, rfl⟩
  exact of_decide_eq_true hkept (closedBelow_remove c id g hmem p.id hsome hremoved)

theorem Orderly.setAttribute (h : c.Orderly) (id name : String) (values : List String) :
    (c.setAttribute id name values).2.Orderly := by
  rw [RealmGroups.setAttribute]
  cases hfind : c.find? id with
  | none => exact h
  | some group =>
    obtain ⟨hgroup, rfl⟩ := mem_of_find?_key_eq_some Group.id hfind
    dsimp only
    split <;> exact h.modify_in_place hgroup (fun _ => rfl) rfl

theorem Orderly.grantRole (h : c.Orderly) (id roleId : String) : (c.grantRole id roleId).2.Orderly := by
  rw [RealmGroups.grantRole]
  cases hfind : c.find? id with
  | none => exact h
  | some group =>
    obtain ⟨hgroup, rfl⟩ := mem_of_find?_key_eq_some Group.id hfind
    exact h.modify_in_place hgroup (fun _ => rfl) rfl

theorem Orderly.revokeRole (h : c.Orderly) (id roleId : String) :
    (c.revokeRole id roleId).2.Orderly := by
  rw [RealmGroups.revokeRole]
  cases hfind : c.find? id with
  | none => exact h
  | some group =>
    obtain ⟨hgroup, rfl⟩ := mem_of_find?_key_eq_some Group.id hfind
    exact h.modify_in_place hgroup (fun _ => rfl) rfl

end RealmGroups

namespace Groups

inductive Edit where
  | createGroup (name : String) (parentId : Option String)
  | moveGroup (id : String) (parentId : Option String)
  | renameGroup (id name : String)
  | removeGroup (id : String)
  | grantGroupRole (id roleId : String)
  | revokeGroupRole (id roleId : String)
  | setGroupAttribute (id name : String) (values : List String)

namespace Edit

def perform (r : String) : Edit → Work Unit
  | createGroup name parentId => discard (Groups.createGroup r name parentId)
  | moveGroup id parentId => discard (Groups.moveGroup r id parentId)
  | renameGroup id name => discard (Groups.renameGroup r id name)
  | removeGroup id => discard (Groups.removeGroup r id)
  | grantGroupRole id roleId => discard (Groups.grantGroupRole r id roleId)
  | revokeGroupRole id roleId => discard (Groups.revokeGroupRole r id roleId)
  | setGroupAttribute id name values => discard (Groups.setGroupAttribute r id name values)

def on (drawn : String) (c : RealmGroups) : Edit → Except StoreError RealmGroups
  | createGroup name parentId => (c.create drawn name parentId).map Prod.snd
  | moveGroup id parentId => (c.move id parentId).map Prod.snd
  | renameGroup id name => (c.rename id name).map Prod.snd
  | removeGroup id => .ok (c.remove id).2
  | grantGroupRole id roleId => .ok (c.grantRole id roleId).2
  | revokeGroupRole id roleId => .ok (c.revokeRole id roleId).2
  | setGroupAttribute id name values => .ok (c.setAttribute id name values).2

/-- An identifier that is drawn for a group is not that of a group that is there. None is drawn for a
group that is refused. -/
def DrawsNew (drawn : String) (c : RealmGroups) : Edit → Prop
  | createGroup name parentId =>
    (c.create drawn name parentId).isOk = true → drawn ∉ c.groups.map Group.id
  | _ => True

instance (drawn : String) (c : RealmGroups) : (e : Edit) → Decidable (e.DrawsNew drawn c)
  | createGroup _ _ => inferInstanceAs (Decidable (_ = true → _ ∉ _))
  | moveGroup .. | renameGroup .. | removeGroup _ | grantGroupRole .. | revokeGroupRole ..
  | setGroupAttribute .. => inferInstanceAs (Decidable True)

theorem orderly_on {c c' : RealmGroups} {drawn : String} {e : Edit} (h : c.Orderly)
    (hnew : e.DrawsNew drawn c) (he : e.on drawn c = .ok c') : c'.Orderly := by
  have hsnd : ∀ {β : Type} {result : Except StoreError (β × RealmGroups)},
      result.map Prod.snd = .ok c' → ∃ b, result = .ok (b, c') := by
    intro β result hresult
    cases result with
    | error _ => cases hresult
    | ok pair => exact ⟨pair.1, congrArg Except.ok (Prod.ext rfl (Except.ok.inj hresult))⟩
  cases e with
  | createGroup name parentId =>
    obtain ⟨group, hcreate⟩ := hsnd he
    exact h.create (hnew (congrArg Except.isOk hcreate)) hcreate
  | moveGroup id parentId =>
    obtain ⟨moved, hmove⟩ := hsnd he
    exact h.move hmove
  | renameGroup id name =>
    obtain ⟨renamed, hrename⟩ := hsnd he
    exact h.rename hrename
  | removeGroup id =>
    obtain rfl := Except.ok.inj he
    exact h.remove id
  | grantGroupRole id roleId =>
    obtain rfl := Except.ok.inj he
    exact h.grantRole id roleId
  | revokeGroupRole id roleId =>
    obtain rfl := Except.ok.inj he
    exact h.revokeRole id roleId
  | setGroupAttribute id name values =>
    obtain rfl := Except.ok.inj he
    exact h.setAttribute id name values

end Edit

variable {r : String} {d : Desk (Coordinator RealmGroups)}

def seen (r : String) (d : Desk (Coordinator RealmGroups)) : RealmGroups :=
  Coordinator.seen (k := .groups) d r

def drawn (d : Desk (Coordinator RealmGroups)) : String :=
  Identifier.hyphenated (d.draws.value d.draws.next)

theorem seen_tryUpdate {β : Type} (h : d.rows.Stocked)
    (f : RealmGroups → Except StoreError (β × RealmGroups)) :
    ((discard (Coordinator.tryUpdate r f) : Work Unit) d).2.rows = d.rows ∧
      seen r ((discard (Coordinator.tryUpdate r f) : Work Unit) d).2 =
        (((f (seen r d)).map Prod.snd).toOption.getD (seen r d)) := by
  rw [Work.discard_desk]
  exact Coordinator.seen_tryUpdate (k := .groups) h r f

theorem Edit.seen_perform (h : d.rows.Stocked) (e : Edit) : (e.perform r d).2.rows = d.rows ∧
    seen r (e.perform r d).2 = (e.on (drawn d) (seen r d)).toOption.getD (seen r d) := by
  cases e with
  | createGroup name parentId =>
    obtain ⟨draws, heq⟩ := Work.exists_withNewId
      (fun id => (Coordinator.tryUpdate r (·.create id name parentId) : Work Group)) d
    rw [perform, Work.discard_desk, Groups.createGroup, heq]
    exact Coordinator.seen_tryUpdate (k := .groups) h r (·.create (drawn d) name parentId)
  | moveGroup id parentId => exact seen_tryUpdate h (·.move id parentId)
  | renameGroup id name => exact seen_tryUpdate h (·.rename id name)
  | removeGroup id => exact seen_tryUpdate h fun c => return c.remove id
  | grantGroupRole id roleId => exact seen_tryUpdate h fun c => return c.grantRole id roleId
  | revokeGroupRole id roleId => exact seen_tryUpdate h fun c => return c.revokeRole id roleId
  | setGroupAttribute id name values =>
    exact seen_tryUpdate h fun c => return c.setAttribute id name values

def run (r : String) (d : Desk (Coordinator RealmGroups)) (edits : List Edit) :
    Desk (Coordinator RealmGroups) :=
  edits.foldl (fun d e => (e.perform r d).2) d

def Proper (r : String) (d : Desk (Coordinator RealmGroups)) : List Edit → Prop
  | [] => True
  | e :: edits => e.DrawsNew (drawn d) (seen r d) ∧ Proper r (e.perform r d).2 edits

instance decidableProper (r : String) (d : Desk (Coordinator RealmGroups)) :
    (edits : List Edit) → Decidable (Proper r d edits)
  | [] => inferInstanceAs (Decidable True)
  | e :: edits =>
    have : Decidable (Proper r (e.perform r d).2 edits) := decidableProper r _ edits
    inferInstanceAs (Decidable (_ ∧ _))

theorem orderly_run (h : d.rows.Stocked) (horderly : (seen r d).Orderly) {edits : List Edit}
    (hproper : Proper r d edits) :
    (run r d edits).rows = d.rows ∧ (seen r (run r d edits)).Orderly := by
  induction edits generalizing d with
  | nil => exact ⟨rfl, horderly⟩
  | cons e edits ih =>
    obtain ⟨hnew, hrest⟩ := hproper
    obtain ⟨hrows, hseen⟩ := e.seen_perform (r := r) h
    have hnext : (seen r (e.perform r d).2).Orderly := by
      rw [hseen]
      cases hon : e.on (drawn d) (seen r d) with
      | error _ => exact horderly
      | ok c => exact Edit.orderly_on horderly hnew hon
    obtain ⟨hrows', horderly'⟩ := ih (hrows ▸ h) hnext hrest
    exact ⟨hrows'.trans hrows, horderly'⟩

/-- From an empty realm, whatever is done, ids are told apart, the parent of a group is a group that is
there, and no two groups under one parent, or at the top, have one name. -/
theorem orderly_from_empty (h : d.rows.Stocked) (hempty : seen r d = { realmId := r })
    (edits : List Edit) (hproper : Proper r d edits) :
    ∃ c : RealmGroups, (Coordinator.read r (fun c => c) (run r d edits)).1 = .ok c ∧
      (c.groups.Pairwise fun g g' => g.id ≠ g'.id) ∧
      (∀ g ∈ c.groups, ∀ parent, g.parentId = some parent → ∃ p ∈ c.groups, p.id = parent) ∧
      c.groups.Pairwise fun g g' => g.parentId = g'.parentId → g.name ≠ g'.name := by
  obtain ⟨hrows, horderly⟩ := orderly_run h (hempty ▸ RealmGroups.orderly_empty r) hproper
  obtain ⟨d', hread, -⟩ := Coordinator.read_spec (k := .groups) (d := run r d edits) (hrows ▸ h) r
    fun c => c
  refine ⟨_, congrArg Prod.fst hread, List.pairwise_map.mp horderly.ids,
    fun g hg parent hsome => List.mem_map.mp (horderly.parents g hg parent hsome), ?_⟩
  refine (List.pairwise_map.mp horderly.places).imp fun hne hparent hname => hne ?_
  exact Prod.ext hparent hname

/-- Two groups are moved below each other, and a third takes the name that becomes free at the top. -/
theorem orderly_from_empty_in_circle : ∃ (d : Desk (Coordinator RealmGroups)) (edits : List Edit)
    (c : RealmGroups), d.rows.Stocked ∧ seen "r" d = { realmId := "r" } ∧ Proper "r" d edits ∧
      (Coordinator.read "r" (fun c => c) (run "r" d edits)).1 = .ok c ∧
      c.groups.map Group.place = [(some (Identifier.hyphenated 1), "a"),
        (some (Identifier.hyphenated 0), "b"), (none, "a")] ∧
      (c.groups.Pairwise fun g g' => g.id ≠ g'.id) ∧
      (∀ g ∈ c.groups, ∀ parent, g.parentId = some parent → ∃ p ∈ c.groups, p.id = parent) ∧
      c.groups.Pairwise fun g g' => g.parentId = g'.parentId → g.name ≠ g'.name := by
  let d : Desk (Coordinator RealmGroups) :=
    ⟨.empty 0, { value := fun n => n }, { linearizable := false }⟩
  let first := Identifier.hyphenated 0
  let second := Identifier.hyphenated 1
  let edits : List Edit := [.createGroup "a" none, .createGroup "b" (some first),
    .createGroup "c" none, .renameGroup (Identifier.hyphenated 2) "a", .moveGroup first (some second),
    .renameGroup (Identifier.hyphenated 2) "a"]
  have hstocked : d.rows.Stocked := RowStore.stocked_empty 0
  have hempty : seen "r" d = { realmId := "r" } := by decide +kernel
  have hproper : Proper "r" d edits := by decide +kernel
  obtain ⟨c, hread, hfits⟩ := orderly_from_empty hstocked hempty edits hproper
  refine ⟨d, edits, c, hstocked, hempty, hproper, hread, ?_, hfits⟩
  have hplaces : ((Coordinator.read "r" (fun c => c) (run "r" d edits)).1.toOption.map
      fun c : RealmGroups => c.groups.map Group.place) = some [(some second, "a"), (some first, "b"),
        (none, "a")] := by decide +kernel
  rw [hread] at hplaces
  exact Option.some.inj hplaces

end Groups

end IdentityDirectory
