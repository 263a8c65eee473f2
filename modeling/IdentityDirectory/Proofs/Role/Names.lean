import IdentityDirectory.Proofs.Container.Drafts
import IdentityDirectory.Proofs.FirstMatch
import Mathlib.Data.List.Induction

/-!
Ids and names of the roles of a realm. No edit gives two roles one id. Two roles of one owner get one
name only from an update that is looked up under the owner that the caller names and not under the
one that the role has. Main statements: `Outcome.ids` and `Outcome.names_iff` for one edit,
`names_apart_unless_misnamed` for any sequence of them.
-/

namespace IdentityDirectory

def Role.ownedName (r : Role) : Option String × String := (r.clientId, r.name)

namespace RealmRoles

variable {c : RealmRoles} {role : Role} {id : String}

def IdsApart (c : RealmRoles) : Prop := (c.roles.map Role.id).Nodup

def NamesApart (c : RealmRoles) : Prop := (c.roles.map Role.ownedName).Nodup

instance (c : RealmRoles) : Decidable c.IdsApart := inferInstanceAs (Decidable (List.Nodup _))

instance (c : RealmRoles) : Decidable c.NamesApart := inferInstanceAs (Decidable (List.Nodup _))

theorem find?_eq_none_iff : c.find? id = none ↔ ∀ r ∈ c.roles, r.id ≠ id := by
  simp [find?, List.find?_eq_none]

theorem findNamed?_eq_none_iff {clientId : Option String} {name : String} :
    c.findNamed? clientId name = none ↔ ∀ r ∈ c.roles, r.ownedName ≠ (clientId, name) := by
  simp [findNamed?, List.find?_eq_none, Role.ownedName]

theorem ids_modify {f : Role → Role} (hf : ∀ r, (f r).id = r.id) (h : c.IdsApart) (id : String) :
    (c.modify id f).IdsApart := by
  rw [IdsApart, modify, map_modifyFirst hf]
  exact h

theorem names_modify {f : Role → Role} (hf : ∀ r, (f r).ownedName = r.ownedName) (id : String) :
    (c.modify id f).NamesApart ↔ c.NamesApart := by
  rw [NamesApart, modify, map_modifyFirst hf, NamesApart]

theorem apart_of_sublist {c' : RealmRoles} (h : c'.roles.Sublist c.roles) :
    (c.IdsApart → c'.IdsApart) ∧ (c.NamesApart → c'.NamesApart) :=
  ⟨fun hc => hc.sublist (h.map _), fun hc => hc.sublist (h.map _)⟩

theorem add_eq_ok_iff {c' : RealmRoles} : c.add role = .ok c' ↔
    c' = { c with roles := c.roles ++ [role] } ∧ (∀ r ∈ c.roles, r.id ≠ role.id) ∧
      ∀ r ∈ c.roles, r.ownedName ≠ role.ownedName := by
  rw [← find?_eq_none_iff, Role.ownedName, ← findNamed?_eq_none_iff, add]
  cases c.find? role.id <;> cases c.findNamed? role.clientId role.name <;>
    simp [throw, throwThe, MonadExceptOf.throw, pure, Except.pure, eq_comm]

theorem addComposite_cases {childId : String} {result : Bool × RealmRoles}
    (h : c.addComposite id childId = .ok result) : result.2 = c ∨
      ∃ parts : StringSet → StringSet, result.2 =
        c.modify id fun r => { r with compositeRoleIds := parts r.compositeRoleIds } := by
  rw [addComposite] at h
  split at h
  · cases h
  · split at h
    · obtain rfl := Except.ok.inj h
      exact .inl rfl
    · obtain rfl := Except.ok.inj h
      exact .inr ⟨(·.insert childId), rfl⟩

theorem removeComposite_cases (c : RealmRoles) (id childId : String) :
    (c.removeComposite id childId).2 = c ∨
      ∃ parts : StringSet → StringSet, (c.removeComposite id childId).2 =
        c.modify id fun r => { r with compositeRoleIds := parts r.compositeRoleIds } := by
  rw [removeComposite]
  split
  · exact .inl rfl
  · exact .inr ⟨(·.erase childId), rfl⟩

def Refuses (c : RealmRoles) (updated : Role) : Prop :=
  (c.findNamed? updated.clientId updated.name).any (·.id ≠ updated.id) = true

instance (c : RealmRoles) (updated : Role) : Decidable (c.Refuses updated) :=
  inferInstanceAs (Decidable (_ = _))

def renamed (updated r : Role) : Role :=
  { r with
    name := updated.name
    description := updated.description
    attributes := updated.attributes }

theorem update_cases (c : RealmRoles) (updated : Role) :
    c.Refuses updated ∧ c.update updated = .error (.duplicateKey .role updated.name) ∨
      ¬ c.Refuses updated ∧ ∃ found, c.update updated =
        .ok (found, c.modify updated.id (renamed updated)) := by
  rw [update, Refuses]
  split
  · next h => exact .inl ⟨h, rfl⟩
  · next h =>
    refine .inr ⟨h, ?_⟩
    split
    · exact ⟨true, rfl⟩
    · next hnone =>
      have hmiss : ∀ r ∈ c.roles, r.id ≠ updated.id := by
        rwa [Option.not_isSome_iff_eq_none, find?_eq_none_iff] at hnone
      refine ⟨false, ?_⟩
      rw [modify, modifyFirst_of_forall_ne hmiss]
      rfl

end RealmRoles

namespace Roles

inductive Edit where
  | addRealmRole (name : String)
  | addClientRole (clientId name : String)
  | addRole (role : Role)
  | updateRole (updated : Role)
  | removeRole (id : String)
  | removeClientRoles (clientId : String)
  | addComposite (id childId : String)
  | removeComposite (id childId : String)

namespace Edit

def perform (r : String) : Edit → Work Unit
  | addRealmRole name => discard (Roles.addRealmRole r name)
  | addClientRole clientId name => discard (Roles.addClientRole r clientId name)
  | addRole role => discard (Roles.addRole r role)
  | updateRole updated => discard (Roles.updateRole r updated)
  | removeRole id => discard (Roles.removeRole r id)
  | removeClientRoles clientId => discard (Roles.removeClientRoles r clientId)
  | addComposite id childId => discard (Roles.addComposite r id childId)
  | removeComposite id childId => discard (Roles.removeComposite r id childId)

def on (drawn : String) (c : RealmRoles) : Edit → Except StoreError RealmRoles
  | addRealmRole name => c.add { id := drawn, name }
  | addClientRole clientId name => c.add { id := drawn, name, clientId := some clientId }
  | addRole role => c.add role
  | updateRole updated => (c.update updated).map Prod.snd
  | removeRole id => .ok (c.remove id)
  | removeClientRoles clientId => .ok (c.removeOfClient clientId)
  | addComposite id childId => (c.addComposite id childId).map Prod.snd
  | removeComposite id childId => .ok (c.removeComposite id childId).2

/-- An update that is not refused, although another role with the owner that the stored one has goes
by the new name. -/
def Misnames (c : RealmRoles) : Edit → Prop
  | updateRole updated => ¬ c.Refuses updated ∧ ∃ stored ∈ c.roles, stored.id = updated.id ∧
    ∃ other ∈ c.roles, other.id ≠ updated.id ∧ other.ownedName = (stored.clientId, updated.name)
  | _ => False

instance (c : RealmRoles) : (e : Edit) → Decidable (e.Misnames c)
  | updateRole _ => inferInstanceAs (Decidable (_ ∧ _))
  | addRealmRole _ | addClientRole .. | addRole _ | removeRole _ | removeClientRoles _
  | addComposite .. | removeComposite .. => inferInstanceAs (Decidable False)

/-- The caller of an update gives the role the owner that it has. -/
def NamesOwner (c : RealmRoles) : Edit → Prop
  | updateRole updated =>
    ∀ stored ∈ c.roles, stored.id = updated.id → stored.clientId = updated.clientId
  | _ => True

variable {c c' : RealmRoles} {drawn : String}

theorem not_misnames_of_namesOwner (h : c.NamesApart) {e : Edit} (he : e.NamesOwner c) :
    ¬ e.Misnames c := by
  cases e with
  | updateRole updated =>
    rintro ⟨hpass, stored, hstored, hid, other, hother, hne, hname⟩
    rw [he stored hstored hid] at hname
    -- The role with the name is the one that the update is checked against.
    apply hpass
    rw [RealmRoles.Refuses]
    cases hfind : c.findNamed? updated.clientId updated.name with
    | none => exact absurd hname (RealmRoles.findNamed?_eq_none_iff.mp hfind other hother)
    | some found =>
      have hmem := List.mem_of_find?_eq_some hfind
      have hfound : found.ownedName = (updated.clientId, updated.name) := by
        simpa [Role.ownedName] using List.find?_some hfind
      have hsame := List.inj_on_of_nodup_map h hmem hother (hfound.trans hname.symm)
      simpa [hsame] using hne
  | _ => exact id

inductive Outcome (c : RealmRoles) : Edit → RealmRoles → Prop
  | added {e : Edit} (role : Role) : (∀ r ∈ c.roles, r.id ≠ role.id) →
    (∀ r ∈ c.roles, r.ownedName ≠ role.ownedName) → ¬ e.Misnames c →
    Outcome c e { c with roles := c.roles ++ [role] }
  | removed {e : Edit} {c' : RealmRoles} : c'.roles.Sublist c.roles → ¬ e.Misnames c →
    Outcome c e c'
  | recomposed {e : Edit} (id : String) (parts : StringSet → StringSet) : ¬ e.Misnames c →
    Outcome c e (c.modify id fun r => { r with compositeRoleIds := parts r.compositeRoleIds })
  | renamed (updated : Role) : ¬ c.Refuses updated →
    Outcome c (updateRole updated) (c.modify updated.id (RealmRoles.renamed updated))

theorem outcome_of_add {e : Edit} {role : Role} (he : ¬ e.Misnames c)
    (h : c.add role = .ok c') : Outcome c e c' := by
  obtain ⟨rfl, hids, hnames⟩ := RealmRoles.add_eq_ok_iff.mp h
  exact .added role hids hnames he

theorem outcome_of_recomposed {e : Edit} {id : String} (he : ¬ e.Misnames c)
    (h : c' = c ∨ ∃ parts : StringSet → StringSet, c' =
      c.modify id fun r => { r with compositeRoleIds := parts r.compositeRoleIds }) :
    Outcome c e c' := by
  rcases h with rfl | ⟨parts, rfl⟩
  · exact .removed (List.Sublist.refl _) he
  · exact .recomposed id parts he

theorem outcome_on {e : Edit} (he : e.on drawn c = .ok c') : Outcome c e c' := by
  cases e with
  | addRealmRole name => exact outcome_of_add (fun hm => hm) he
  | addClientRole clientId name => exact outcome_of_add (fun hm => hm) he
  | addRole role => exact outcome_of_add (fun hm => hm) he
  | updateRole updated =>
    rcases c.update_cases updated with ⟨-, hupdate⟩ | ⟨hpass, found, hupdate⟩
    · rw [on, hupdate] at he
      cases he
    · rw [on, hupdate] at he
      obtain rfl := Except.ok.inj he
      exact .renamed updated hpass
  | removeRole id =>
    obtain rfl := Except.ok.inj he
    exact .removed List.eraseP_sublist fun hm => hm
  | removeClientRoles clientId =>
    obtain rfl := Except.ok.inj he
    exact .removed List.filter_sublist fun hm => hm
  | addComposite id childId =>
    cases hadd : c.addComposite id childId with
    | error e =>
      rw [on, hadd] at he
      cases he
    | ok result =>
      rw [on, hadd] at he
      obtain rfl := Except.ok.inj he
      exact outcome_of_recomposed (fun hm => hm) (RealmRoles.addComposite_cases hadd)
  | removeComposite id childId =>
    obtain rfl := Except.ok.inj he
    exact outcome_of_recomposed (fun hm => hm) (c.removeComposite_cases id childId)

theorem Outcome.ids {e : Edit} (ho : Outcome c e c') (h : c.IdsApart) : c'.IdsApart := by
  cases ho with
  | added role hids _ _ => exact nodup_map_concat h hids
  | removed hsub _ => exact (RealmRoles.apart_of_sublist hsub).1 h
  | recomposed id parts _ => exact RealmRoles.ids_modify (by intro; rfl) h id
  | renamed updated _ => exact RealmRoles.ids_modify (by intro; rfl) h updated.id

theorem not_misnames_of_refused {e : Edit} {error : StoreError} (h : e.on drawn c = .error error) :
    ¬ e.Misnames c := by
  cases e with
  | updateRole updated =>
    rcases c.update_cases updated with ⟨hrefuses, -⟩ | ⟨-, found, hupdate⟩
    · exact fun hm => hm.1 hrefuses
    · rw [on, hupdate] at h
      cases h
  | _ => exact fun hm => hm

theorem Outcome.names_iff {e : Edit} (ho : Outcome c e c') (hids : c.IdsApart)
    (h : c.NamesApart) : c'.NamesApart ↔ ¬ e.Misnames c := by
  cases ho with
  | added role _ hnames he => exact iff_of_true (nodup_map_concat h hnames) he
  | removed hsub he => exact iff_of_true ((RealmRoles.apart_of_sublist hsub).2 h) he
  | recomposed id parts he =>
    exact iff_of_true ((RealmRoles.names_modify (by intro; rfl) id).mpr h) he
  | renamed updated hpass =>
    cases hfind : c.find? updated.id with
    | none =>
      have hmiss := RealmRoles.find?_eq_none_iff.mp hfind
      rw [RealmRoles.modify, modifyFirst_of_forall_ne hmiss]
      apply iff_of_true h
      rintro ⟨-, stored, hstored, hid, -⟩
      exact hmiss stored hstored hid
    | some stored =>
      obtain ⟨hstored, hid⟩ := mem_of_find?_key_eq_some Role.id hfind
      have hnodup := nodup_map_modifyFirst_iff (f := RealmRoles.renamed updated) hids h hstored
      have hiff : (c.modify updated.id (RealmRoles.renamed updated)).NamesApart ↔
          ∀ other ∈ c.roles, other.id ≠ updated.id →
            other.ownedName ≠ (stored.clientId, updated.name) := by
        rw [RealmRoles.NamesApart, RealmRoles.modify, ← hid]
        exact hnodup
      rw [hiff]
      constructor
      · rintro hfree ⟨-, stored', hstored', hid', other, hother, hne, hname⟩
        rw [List.inj_on_of_nodup_map hids hstored' hstored (hid'.trans hid.symm)] at hname
        exact hfree other hother hne hname
      · intro hfit other hother hne hname
        exact hfit ⟨hpass, stored, hstored, hid, other, hother, hne, hname⟩

end Edit

variable {r : String} {d : Desk (Coordinator RealmRoles)}

def seen (r : String) (d : Desk (Coordinator RealmRoles)) : RealmRoles :=
  Coordinator.seen (k := .roles) d r

def Leaves (r : String) (d : Desk (Coordinator RealmRoles)) (work : Work Unit) (c : RealmRoles) :
    Prop :=
  (work d).2.rows = d.rows ∧ seen r (work d).2 = c

theorem leaves_tryUpdate {β : Type} (h : d.rows.Stocked)
    (f : RealmRoles → Except StoreError (β × RealmRoles)) :
    Leaves r d (discard (Coordinator.tryUpdate r f))
      (((f (seen r d)).map Prod.snd).toOption.getD (seen r d)) := by
  rw [Leaves, Work.discard_desk]
  exact Coordinator.seen_tryUpdate (k := .roles) h r f

theorem leaves_update {β : Type} (h : d.rows.Stocked) (f : RealmRoles → β × RealmRoles) :
    Leaves r d (discard (Coordinator.update r f)) (f (seen r d)).2 :=
  leaves_tryUpdate h fun c => return f c

theorem leaves_addRole (h : d.rows.Stocked) (role : Role) :
    Leaves r d (discard (Roles.addRole r role))
      (((seen r d).add role).toOption.getD (seen r d)) := by
  have hsnd : (do return (role, ← (seen r d).add role) :
      Except StoreError (Role × RealmRoles)).map Prod.snd = (seen r d).add role := by
    cases (seen r d).add role <;> rfl
  rw [← hsnd]
  exact leaves_tryUpdate h _

theorem leaves_addDrawn (h : d.rows.Stocked) (role : String → Role) :
    Leaves r d (discard (Work.newId >>= fun id => Roles.addRole r (role id)))
      (((seen r d).add (role (Identifier.hyphenated (d.draws.value d.draws.next)))).toOption.getD
        (seen r d)) := by
  let e := { d with draws := { d.draws with next := d.draws.next + 1 } }
  have hdraw : (discard (Work.newId >>= fun id => Roles.addRole r (role id)) : Work Unit) d =
      (discard (Roles.addRole r (role (Identifier.hyphenated (d.draws.value d.draws.next)))) :
        Work Unit) e := by
    rw [discard_bind]
    rfl
  rw [Leaves, hdraw]
  exact leaves_addRole (d := e) h _

namespace Edit

theorem seen_perform (h : d.rows.Stocked) (e : Edit) :
    Leaves r d (e.perform r)
      ((e.on (Identifier.hyphenated (d.draws.value d.draws.next)) (seen r d)).toOption.getD
        (seen r d)) := by
  cases e with
  | addRealmRole name =>
    rw [perform, Roles.addRealmRole]
    exact leaves_addDrawn h fun id => { id, name }
  | addClientRole clientId name =>
    rw [perform, Roles.addClientRole]
    exact leaves_addDrawn h fun id => { id, name, clientId := some clientId }
  | addRole role => exact leaves_addRole h role
  | updateRole updated => exact leaves_tryUpdate h (·.update updated)
  | removeRole id =>
    rw [perform, Roles.removeRole]
    exact leaves_update h _
  | removeClientRoles clientId =>
    rw [perform, Roles.removeClientRoles]
    exact leaves_update h _
  | addComposite id childId => exact leaves_tryUpdate h (·.addComposite id childId)
  | removeComposite id childId =>
    rw [perform, Roles.removeComposite]
    exact leaves_update h _

end Edit

def run (r : String) (d : Desk (Coordinator RealmRoles)) (edits : List Edit) :
    Desk (Coordinator RealmRoles) :=
  edits.foldl (fun d e => (e.perform r d).2) d

theorem run_concat (edits : List Edit) (e : Edit) :
    run r d (edits ++ [e]) = (e.perform r (run r d edits)).2 := by
  rw [run, List.foldl_append]
  rfl

theorem rows_run (h : d.rows.Stocked) (edits : List Edit) : (run r d edits).rows = d.rows := by
  induction edits using List.reverseRecOn with
  | nil => rfl
  | append_singleton edits e ih =>
    rw [run_concat, (e.seen_perform (ih ▸ h)).1, ih]

theorem seen_run_concat (h : d.rows.Stocked) (edits : List Edit) (e : Edit) :
    ∃ drawn, seen r (run r d (edits ++ [e])) =
      (e.on drawn (seen r (run r d edits))).toOption.getD (seen r (run r d edits)) := by
  rw [run_concat]
  exact ⟨_, (e.seen_perform (rows_run h edits ▸ h)).2⟩

theorem ids_run (h : d.rows.Stocked) (hids : (seen r d).IdsApart) (edits : List Edit) :
    (seen r (run r d edits)).IdsApart := by
  induction edits using List.reverseRecOn with
  | nil => exact hids
  | append_singleton edits e ih =>
    obtain ⟨drawn, hseen⟩ := seen_run_concat h edits e
    rw [hseen]
    cases hon : e.on drawn (seen r (run r d edits)) with
    | error _ => exact ih
    | ok c => exact (Edit.outcome_on hon).ids ih

theorem names_run_concat_iff (h : d.rows.Stocked) (hids : (seen r d).IdsApart) (edits : List Edit)
    (hnames : (seen r (run r d edits)).NamesApart) (e : Edit) :
    (seen r (run r d (edits ++ [e]))).NamesApart ↔ ¬ e.Misnames (seen r (run r d edits)) := by
  obtain ⟨drawn, hseen⟩ := seen_run_concat h edits e
  rw [hseen]
  cases hon : e.on drawn (seen r (run r d edits)) with
  | error _ => exact iff_of_true hnames (Edit.not_misnames_of_refused hon)
  | ok c => exact (Edit.outcome_on hon).names_iff (ids_run h hids edits) hnames

/-- From an empty realm, ids stay apart whatever is done, and names do as long as no update misnames;
one that does leaves two roles of one owner with one name. An update in which the caller gives the
role the owner that it has never does. -/
theorem names_apart_unless_misnamed (h : d.rows.Stocked) (hempty : seen r d = { realmId := r })
    (edits : List Edit) :
    let c := seen r (run r d edits)
    (Coordinator.read r (fun c => c) (run r d edits)).1 = .ok c ∧
      c.IdsApart ∧
      ((∀ before e after, edits = before ++ e :: after →
        ¬ e.Misnames (seen r (run r d before))) → c.NamesApart) ∧
      (c.NamesApart → ∀ e, (e.NamesOwner c → ¬ e.Misnames c) ∧
        ((seen r (run r d (edits ++ [e]))).NamesApart ↔ ¬ e.Misnames c)) := by
  intro c
  have hids : (seen r d).IdsApart := by
    rw [hempty]
    exact List.nodup_nil
  refine ⟨?_, ids_run h hids edits, ?_, fun hnames e => ⟨fun howner => ?_, ?_⟩⟩
  · obtain ⟨d', hread, -⟩ := Coordinator.read_spec (k := .roles) (d := run r d edits)
      (rows_run h edits ▸ h) r fun c => c
    exact congrArg Prod.fst hread
  · intro hfit
    induction edits using List.reverseRecOn with
    | nil =>
      change (seen r d).NamesApart
      rw [hempty]
      exact List.nodup_nil
    | append_singleton edits e ih =>
      have hbefore := ih fun before f after heq => hfit before f (after ++ [e]) (by simp [heq])
      exact (names_run_concat_iff h hids edits hbefore e).mpr (hfit edits e [] rfl)
  · exact Edit.not_misnames_of_namesOwner hnames howner
  · exact names_run_concat_iff h hids edits hnames e

/-- The second role of the realm is renamed as if it belonged to a client. -/
theorem name_shared_by_misnamed : ∃ (d : Desk (Coordinator RealmRoles)) (edits : List Edit),
    d.rows = .empty 0 ∧ seen "r" d = { realmId := "r" } ∧
      (seen "r" (run "r" d edits)).roles.map Role.ownedName = [(none, "a"), (none, "a")] :=
  ⟨⟨.empty 0, { value := fun n => n }, { linearizable := false }⟩,
    [.addRealmRole "a", .addRole { id := "2", name := "b" },
      .updateRole { id := "2", name := "a", clientId := some "c" }], rfl, by decide +kernel,
    by decide +kernel⟩

theorem names_clash_after_misnaming_update : ∃ (d : Desk (Coordinator RealmRoles))
    (edits : List Edit) (e : Edit), d.rows.Stocked ∧ seen "r" d = { realmId := "r" } ∧
      (seen "r" (run "r" d edits)).roles.length = 2 ∧ (seen "r" (run "r" d edits)).NamesApart ∧
      e.Misnames (seen "r" (run "r" d edits)) ∧
      ¬ (seen "r" (run "r" d (edits ++ [e]))).NamesApart := by
  let d : Desk (Coordinator RealmRoles) :=
    ⟨.empty 0, { value := fun n => n }, { linearizable := false }⟩
  let edits : List Edit := [.addRealmRole "a", .addRole { id := "2", name := "b" }]
  let e : Edit := .updateRole { id := "2", name := "a", clientId := some "c" }
  have hstocked : d.rows.Stocked := RowStore.stocked_empty 0
  have hempty : seen "r" d = { realmId := "r" } := by decide +kernel
  have hnames : (seen "r" (run "r" d edits)).NamesApart := by decide +kernel
  have hmisnames : e.Misnames (seen "r" (run "r" d edits)) := by decide +kernel
  obtain ⟨-, -, -, hnext⟩ := names_apart_unless_misnamed hstocked hempty edits
  have hclash : ¬ (seen "r" (run "r" d (edits ++ [e]))).NamesApart := fun hapart =>
    (hnext hnames e).2.mp hapart hmisnames
  exact ⟨d, edits, e, hstocked, hempty, by decide +kernel, hnames, hmisnames, hclash⟩

end Roles

end IdentityDirectory
