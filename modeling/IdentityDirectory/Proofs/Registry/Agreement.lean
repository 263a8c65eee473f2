import IdentityDirectory.Proofs.Registry.Staleness

/-!
Lookups of users after any run in which units of work change them and remember what they have asked.
Main statement: `lookups_agree_with_scan`.
-/

namespace IdentityDirectory

namespace Registries

open UnitOfWork (usersPart)

variable {strict : String → Prop}

/-- The lookups of a realm agree with a scan of its users. -/
structure Agree (w : World) (r : String) (users : List User) : Prop where
  stored : Query.records User .users r w.rows = .ok users
  ascending : users.Pairwise fun a b => a.id < b.id
  byUsername : ∀ unit username, NulFree username →
    ¬ Stale w unit (.byUsername r (Text.lowercase username))
      (Users.loadByUsername r (Text.lowercase username)) →
    ∃ found, w.resultOf unit (Work.on usersPart (Users.findByUsername r username)) = .ok found ∧
      ∀ u, found = some u ↔ u ∈ users ∧ u.username = Text.lowercase username
  byServiceAccount : ∀ clientId, NulFree clientId →
    ∃ found, Users.findByServiceAccountClient r clientId w.rows = .ok found ∧
      ∀ u, found = some u ↔ u ∈ users ∧ u.serviceAccountClientLink = some clientId
  byFederationLink : ∀ link, NulFree link → Users.findByFederationLink r link w.rows =
    .ok (users.filter (·.federationLink = some link))
  byEmail : ∀ unit (realm : Realm) email, realm.id = r → NulFree email →
    ¬ Stale w unit (.byEmail r (Text.lowercase email))
      (Users.loadByEmail realm (Text.lowercase email)) →
    w.resultOf unit (Work.on usersPart (Users.findByEmail realm email)) =
      Users.emailAnswer realm (Text.lowercase email)
        (users.filter (·.email = some (Text.lowercase email)))

theorem Upheld.agree {w : World} (h : Upheld strict w.rows) {r : String} (hr : Plain r) :
    Agree w r ((contentsOf w.rows).users r) where
  stored := h.stored.users r hr
  ascending := Registry.recordsIn_ascending (R := Users.registry) (fun _ _ _ => rfl) h.users hr
  byUsername unit username hv hstale := by
    rw [Users.findByUsername, resultOf_of_not_stale hstale]
    exact Users.loadByUsername_spec h.users hr (Text.nulFree_lowercase hv)
  byServiceAccount clientId hv := Users.findByServiceAccountClient_spec h.users hr hv
  byFederationLink link hv := by
    rw [Users.findByFederationLink,
      Users.loadByAttribute_eq h.users hr (Users.mem_fields_iff.mpr (.inr rfl)) hv]
    rfl
  byEmail unit realm email hrealm hv hstale := by
    subst hrealm
    rw [Users.findByEmail, resultOf_of_not_stale hstale]
    exact Users.loadByEmail_eq h.users hr (Text.nulFree_lowercase hv) rfl

/-- After any run, a lookup whose remembered answer is not stale gives what a scan of the stored users
gives, and what a unit remembers goes stale only by changes of other units. -/
theorem lookups_agree_with_scan (linearizable caching : Bool) (start : Int) (draws : Draws)
    (events : List (World.Event Call))
    (hproper : ProperCalls (World.opened linearizable caching start draws) events) (w : World)
    (hrun : w = (World.opened linearizable caching start draws).run Call.perform events) :
    (∀ r, Plain r → ∃ users, Agree w r users) ∧
      ∀ unit, Undisturbed unit True events → Fresh w unit := by
  have hopened : Upheld (fun _ => False) (World.opened linearizable caching start draws).rows :=
    upheld_empty _ start
  constructor
  · have h := hopened.runCalls (fun _ hf => hf) hproper
    rw [← hrun] at h
    exact fun r hr => ⟨_, h.agree hr⟩
  · intro unit hcalm
    have hnew : Current (World.opened linearizable caching start draws) unit :=
      current_of_forgotten fun key => QueryCache.find?_forget { enabled := caching } key
    rw [hrun]
    exact (current_run (fun _ => hnew) hopened (fun _ hf => hf) hproper hcalm).fresh

theorem lookups_agree_with_scan_shared_email : ∃ (events : List (World.Event Call)) (w : World)
    (users : List User), w = (World.opened true true 0 { value := id }).run Call.perform events ∧
      Agree w "r" users ∧
      users.map (fun u => (u.username, u.email)) = [("c", some "x@y"), ("b", some "x@y")] ∧
      Undisturbed 0 True events ∧ Fresh w 0 ∧
      w.resultOf 0 (Work.on usersPart (Users.findByUsername "r" "A")) = .ok none ∧
      (∀ load, ¬ Stale w 0 (.byEmail "r" "x@y") load) ∧
      w.resultOf 0 (Work.on usersPart (Users.findByEmail { id := "r" } "X@Y")) =
        .error (.indexInconsistency UniqueField.email.attributeName "x@y" (users.map (·.id))) := by
  let realm : Realm := { id := "r" }
  let sharing : Realm := { id := "r", duplicateEmailsAllowed := true }
  let first := Identifier.hyphenated 0
  let second := Identifier.hyphenated 1
  let events : List (World.Event Call) :=
    [.call 0 (.change (.createUser realm "A")), .call 1 (.change (.createUser realm "b")),
      .call 0 (.change (.updateUser realm { id := first, username := "a", email := some "X@y" })),
      .call 0 (.ask (.byUsername "r" "a")), .advance 60000, .sweep,
      .call 1 (.change (.updateUser sharing { id := second, username := "b", email := some "x@Y" })),
      .call 0 (.change (.updateUser sharing { id := first, username := "c", email := some "X@y" }))]
  obtain ⟨w, hw⟩ : ∃ w, w = (World.opened true true 0 { value := id }).run Call.perform events :=
    ⟨_, rfl⟩
  obtain ⟨hagrees, hfresh⟩ := lookups_agree_with_scan true true 0 { value := id } events
    (by decide +kernel) w hw
  obtain ⟨users, hagree⟩ := hagrees "r" (by decide)
  have hcalm : Undisturbed 0 True events := .inl ⟨rfl, trivial, id⟩
  have hrun : (Query.records User .users "r" w.rows).toOption.map (·.map fun u =>
        (u.id, u.username, u.email)) =
        some [(first, "c", some "x@y"), (second, "b", some "x@y")] ∧
      w.resultOf 0 (Work.on usersPart (Users.findByUsername "r" "A")) = .ok none ∧
      (memory w 0).find? (.byEmail "r" "x@y") = none ∧
      w.resultOf 0 (Work.on usersPart (Users.findByEmail { id := "r" } "X@Y")) =
        .error (.indexInconsistency UniqueField.email.attributeName "x@y" [first, second]) := by
    rw [hw]
    decide +kernel
  obtain ⟨hlisted, hnobody, hemail, hshared⟩ := hrun
  rw [hagree.stored] at hlisted
  have hmaps := Option.some.inj hlisted
  have hids : users.map (·.id) = [first, second] := by
    have hfst := congrArg (List.map Prod.fst) hmaps
    rwa [List.map_map] at hfst
  have hfields := congrArg (List.map Prod.snd) hmaps
  rw [List.map_map] at hfields
  have hunasked : ∀ load, ¬ Stale w 0 (.byEmail "r" "x@y") load := by
    rintro load ⟨remembered, hfound, -⟩
    rw [hemail] at hfound
    cases hfound
  exact ⟨events, w, users, hw, hagree, hfields, hcalm, hfresh 0 hcalm, hnobody, hunasked,
    by rw [hids]; exact hshared⟩

end Registries

end IdentityDirectory
