import IdentityDirectory.Proofs.Directory.Standalone
import IdentityDirectory.Proofs.Index.Retraction
import IdentityDirectory.Proofs.Registry.Footprint
import IdentityDirectory.Proofs.Registry.Upkeep

/-!
Calls that are refused. They leave the store as it was, with every row, version and deadline, also
where several values were asked for and the first of them had been granted already. Main statements:
`Users.claimFrom_refused`, `Sheltered.refused` and `refusals_leave_rows`.
-/

namespace IdentityDirectory

open Registry (Always)
open RowStore (LastingIn durably within)

variable {s s₀ s' : RowStore} {e : StoreError}

namespace Realms

variable {realm : Realm} (h : registry.Kept Always s) (hid : NulFree realm.id)
  (hname : NulFree realm.name)
include h hid hname

theorem insert_refused (he : (insert realm s).1 = .error e) : (insert realm s).2 = s := by
  have hanswers := (insert_spec h hid hname).2
  rw [he] at hanswers
  obtain ⟨kind, value, -, hcontested⟩ := hanswers
  have hrow := isSome_row_iff h realm.id
  rw [insert, Update.bind_liftM_of_ok (row_eq h realm.id), hrow]
  rcases hcontested with ⟨-, -, hsome⟩ | ⟨-, -, htaken⟩
  · rw [hsome]
    rfl
  · split
    · rfl
    · dsimp only
      rw [Update.bind_of_error (claimName_refused h hid hname htaken)]

theorem replace_refused (he : (replace realm s).1 = .error e) : (replace realm s).2 = s := by
  have hanswers := (replace_spec h hid hname).2
  rw [he] at hanswers
  obtain ⟨kind, value, -, -, -, hsome, htaken⟩ := hanswers
  obtain ⟨previous, hrecord⟩ := Option.isSome_iff_exists.mp hsome
  -- A name that is kept is its own, so nobody else can have it.
  have hne : previous.name ≠ realm.name := fun hsame =>
    h.unique scope realm.id nameAttribute previous _ rfl trivial (by decide) hrecord
      (congrArg some hsame) htaken
  rw [replace, Update.bind_liftM_of_ok (load_eq h realm.id), hrecord]
  dsimp only
  rw [if_neg hne, Update.bind_of_error (claimName_refused h hid hname htaken)]

end Realms

namespace Clients

variable {client : Client} (h : registry.Kept Always s) (hr : Plain client.realmId)
  (hname : NulFree client.clientId)
include h hr hname

theorem insert_refused (hid : NulFree client.id) (he : (insert client s).1 = .error e) :
    (insert client s).2 = s := by
  have hanswers := (insert_spec h hr hid hname).2
  rw [he] at hanswers
  obtain ⟨kind, value, -, -, -, htaken⟩ := hanswers
  rw [insert, Update.bind_of_error (claimClientId_refused h hr hid hname htaken)]

theorem replace_refused (he : (replace client s).1 = .error e) : (replace client s).2 = s := by
  have hanswers := (replace_spec h hr hname).2
  rw [he] at hanswers
  obtain ⟨kind, value, -, -, -, hsome, htaken⟩ := hanswers
  obtain ⟨previous, hrecord⟩ := Option.isSome_iff_exists.mp hsome
  have hid := (h.placed client.realmId client.id previous hr hrecord).2
  have hne : previous.clientId ≠ client.clientId := fun hsame =>
    h.unique client.realmId client.id clientIdAttribute previous _ hr trivial (by decide) hrecord
      (congrArg some hsame) htaken
  rw [replace, Update.bind_liftM_of_ok (load_eq h client.realmId client.id), hrecord]
  dsimp only
  rw [if_neg hne, Update.bind_of_error (claimClientId_refused h hr hid hname htaken)]

end Clients

namespace Users

variable {r id : String} {U : String → String → Prop} {claims taken rest : List Claim}

def claimKey (r id : String) (c : Claim) : String :=
  (AttributeIndex.reverseKey r id c.1.attributeName c.2).encode

theorem release_extended (hsound : AttributeIndex.users.Sound s)
    (h : AttributeIndex.users.Extended s₀ s (claims.map (claimKey r id))) :
    release r id claims s = (.ok (), s₀) := by
  induction claims generalizing s with
  | nil =>
    obtain rfl := h.eq
    rfl
  | cons c claims ih =>
    have hone := AttributeIndex.releaseClaim_eq hsound r id c.1.attributeName c.2
    rw [show release r id (c :: claims) = (discard (AttributeIndex.users.releaseClaim r id
      c.1.attributeName c.2) >>= fun _ => release r id claims) from rfl, Update.bind_of_ok hone]
    exact ih (hsound.remove _ _) h.release

section Claims

variable (hr : Plain r) (hid : NulFree id)
include hr hid

theorem claimFrom_refused (h : registry.Pending U s₀ s r id (Held taken))
    (hfresh : Fresh s₀ r id (taken ++ rest))
    (hextended : AttributeIndex.users.Extended s₀ s (taken.map (claimKey r id)))
    (hvacant : ∀ c ∈ rest,
      (s₀.table AttributeIndex.users.reverse).get? (claimKey r id c) = none)
    (he : claimFrom r id taken rest s = (.error e, s')) : s' = s₀ := by
  induction rest generalizing s taken with
  | nil => cases he
  | cons c rest ih =>
    obtain ⟨f, value⟩ := c
    have hmem : (f, value) ∈ taken ++ (f, value) :: rest :=
      List.mem_append_right _ List.mem_cons_self
    have hv : NulFree value := (hfresh _ hmem).1
    obtain ⟨hrefused, hgranted⟩ := h.claimUnique_eq hr (attributeName_mem f) hv f.kind
      (holds_eq h.holds r f value)
    by_cases htaken : registry.Taken s₀ r id f.attributeName value
    · have hrefused : AttributeIndex.users.claimUnique r id f.attributeName f.kind value none
        (holds r f value) s = _ := hrefused htaken
      have hrelease := release_extended h.claiming.sound hextended
      have hall : claimFrom r id taken ((f, value) :: rest) s =
          (.error (.duplicateKey f.kind value), s₀) := by
        rw [claimFrom]
        apply Update.bind_of_error
        rw [Update.tryCatch_of_error hrefused, Update.bind_of_ok hrelease]
        rfl
      rw [hall] at he
      exact (Prod.mk.inj he).2.symm
    · have hgranted : AttributeIndex.users.claimUnique r id f.attributeName f.kind value none
        (holds r f value) s = _ := hgranted htaken
      rw [claimFrom, Update.bind_of_ok (Update.tryCatch_of_ok hgranted _)] at he
      have hlist : taken ++ (f, value) :: rest = taken ++ [(f, value)] ++ rest := by simp
      rw [hlist] at hfresh
      have hnext : registry.Pending U s₀ (AttributeIndex.users.claim s r id f.attributeName value) r id
          (Held (taken ++ [(f, value)])) :=
        (h.claim hr hid (attributeName_mem f) hv).claims_congr held_append
      have hlonger : AttributeIndex.users.Extended s₀
          (AttributeIndex.users.claim s r id f.attributeName value)
          ((taken ++ [(f, value)]).map (claimKey r id)) := by
        have hone : (s₀.table AttributeIndex.users.reverse).get? (AttributeIndex.reverseKey r id
          f.attributeName value).encode = none := hvacant (f, value) List.mem_cons_self
        rw [List.map_append]
        exact hextended.claim hone
      exact ih hnext hfresh hlonger (fun c hc => hvacant c (List.mem_cons_of_mem _ hc)) he

theorem claimAll_refused (h : registry.Kept U s) (hlasting : LastingIn registry.tables s)
    (hfresh : Fresh s r id claims) (he : claimAll r id claims s = (.error e, s')) : s' = s := by
  refine claimFrom_refused hr hid (pending_held_nil h r id) hfresh (.refl _ s) (fun c hc => ?_) he
  obtain ⟨hv, hnew⟩ := hfresh c hc
  apply AttributeIndex.absent_of_not_lists h.regular.sound
  · intro t ht
    obtain rfl := List.mem_singleton.mp ht
    exact hlasting _ (by decide)
  · rw [(h.regular.mirrors r _ hr (attributeName_mem c.1)).lists_iff id c.2 s.now hv (Int.le_refl _)]
    rintro ⟨-, hmem | hclaimed⟩
    · exact hnew hmem
    · exact hclaimed

end Claims

theorem insert_refused {user : User} (h : registry.Kept U s) (hr : Plain user.realmId)
    (hid : NulFree user.id) (hname : NulFree user.username)
    (hnew : registry.record s user.realmId user.id s.now = none)
    (hbare : ∀ n ∈ fields, n ≠ UniqueField.username.attributeName → field n user = none)
    (he : (insert user s).1 = .error e) : (insert user s).2 = s := by
  have hanswers := (insert_spec h hr hid hname hnew hbare).2
  rw [he] at hanswers
  obtain ⟨kind, value, -, -, -, htaken⟩ := hanswers
  have hrefused := claimAll_single (h.pending user.realmId user.id) hr hid hname htaken
  rw [insert, Update.bind_of_error hrefused]

theorem replace_refused {realm : Realm} {user : User} (h : registry.Kept (Sole fun _ => False) s)
    (hlasting : LastingIn registry.tables s) (hr : Plain realm.id)
    (hvalues : Indexable (normalize realm user)) (he : (replace realm user s).1 = .error e) :
    (replace realm user s).2 = s := by
  have hanswers := (replace_spec h hr hvalues (fun hf => hf.elim)).2
  rw [he] at hanswers
  obtain ⟨kind, value, -, previous, f, hrecord, -, hmem, htaken⟩ := hanswers
  have hid := (h.placed realm.id user.id previous hr hrecord).2
  have hfresh := fresh_newClaims h hr hvalues hrecord realm
  rcases claimAll_eq hr hid h hfresh with ⟨-, -, -, hfree⟩ | ⟨s₁, c, -, -, hrefused, -⟩
  · exact absurd htaken (hfree (f, value) hmem)
  · obtain rfl := claimAll_refused hr hid h hlasting hfresh hrefused
    have hrefused : claimAll realm.id (normalize realm user).id
      (newClaims realm previous (normalize realm user)) s₁ = _ := hrefused
    rw [replace, Update.bind_liftM_of_ok (load_eq h realm.id user.id), hrecord]
    dsimp only
    rw [Update.bind_of_error hrefused]

end Users

namespace Registries

structure Sheltered (s : RowStore) : Prop where
  upheld : Upheld (fun _ => False) s
  lasting : LastingIn registryTables s

theorem sheltered_empty (now : Int) : Sheltered (.empty now) :=
  ⟨upheld_empty _ now, RowStore.lastingIn_empty _ now⟩

theorem Sheltered.sweep (h : Sheltered s) : Sheltered s.sweep.2 :=
  ⟨h.upheld.sweep, h.lasting.reclaimed s.reclaimed_sweep⟩

theorem Sheltered.later (h : Sheltered s) {now : Int} (hle : s.now ≤ now) :
    Sheltered { s with now } :=
  ⟨h.upheld.later hle, h.lasting⟩

theorem Sheltered.elsewhere {others : List Table} (h : Sheltered s)
    (hw : RowStore.Wrote (within others) s s') (hne : ∀ t ∈ registryTables, t ∉ others) :
    Sheltered s' :=
  ⟨h.upheld.elsewhere hw.onlyIn_within hne, h.lasting.wrote (hw.durably_of_within hne)⟩

def Traceless {α : Type} (s : RowStore) (outcome : Except StoreError α × RowStore) : Prop :=
  ∀ e, outcome.1 = .error e → outcome.2 = s

theorem traceless_discard {α : Type} {u : Update α} (h : Traceless s (u s)) :
    Traceless s ((discard u : Update Unit) s) := by
  intro e he
  rw [Update.discard_rows]
  cases hu : u s with
  | mk result s' =>
    cases result with
    | ok a =>
      rw [Update.discard_of_ok hu] at he
      cases he
    | error e' => exact hu ▸ h e' (by rw [hu])

theorem traceless_unlessInternal {name : String} {u : Update Bool}
    (hu : Users.isInternal name = false → ∃ done s', u s = (.ok done, s')) :
    Traceless s ((discard (Operation.unlessInternal name u) : Update Unit) s) := by
  apply traceless_discard
  rw [Operation.unlessInternal]
  cases hname : Users.isInternal name with
  | true => exact fun _ _ => rfl
  | false =>
    obtain ⟨done, s', heq⟩ := hu hname
    intro e he
    rw [if_neg (by simp), heq] at he
    cases he

section Effects

variable (h : Sheltered s) {drawn : String} (hdrawn : NulFree drawn)
include h hdrawn

theorem Sheltered.effect {op : Operation} (hv : op.Valid s drawn) :
    Sheltered (op.effect drawn s).2 where
  upheld := (handled_effect h.upheld hdrawn hv fun _ hf => hf.elim).upheld
  lasting := h.lasting.wrote
    ((op.writes (Registry.writable_durably _ _) (Registry.writable_durably _ _)
      (Registry.writable_durably _ _) drawn).wrote s)

theorem Sheltered.refused {op : Operation} (hv : op.Valid s drawn) :
    Traceless s (op.effect drawn s) := by
  have hupheld := h.upheld
  cases op with
  | createRealm id name =>
    obtain ⟨hname, hid, -⟩ := hv
    have hfree : NulFree (id.getD drawn) := by
      cases id with
      | none => exact hdrawn
      | some i => exact (hid i rfl).1
    exact traceless_discard fun _ he => Realms.insert_refused hupheld.realms hfree hname he
  | updateRealm realm =>
    exact traceless_discard fun _ he => Realms.replace_refused hupheld.realms hv.1.1 hv.2 he
  | createClient realmId clientId =>
    exact traceless_discard fun _ he => Clients.insert_refused hupheld.clients hv.1 hv.2.1 hdrawn he
  | updateClient client =>
    exact traceless_discard fun _ he => Clients.replace_refused hupheld.clients hv.1 hv.2 he
  | createUser realm username =>
    obtain ⟨hr, hname, hfresh⟩ := hv
    rw [Users.load_eq hupheld.users] at hfresh
    let user : User :=
      { realmId := realm.id
        id := drawn
        username := Text.lowercase username
        createdTimestamp := s.now }
    have hrefused : Traceless s (Users.insert user s) := fun _ he =>
      Users.insert_refused hupheld.users hr hdrawn hname (Except.ok.inj hfresh)
        (Users.field_of_created _ _ _ _) he
    exact traceless_discard (u := Operation.insertUser realm username drawn) hrefused
  | updateUser realm user =>
    have hlasting : LastingIn Users.registry.tables s := fun t ht =>
      h.lasting t (List.mem_append_right _ ht)
    refine traceless_discard fun _ he => ?_
    exact Users.replace_refused hupheld.users hlasting hv.1 hv.2 he
  | setAttribute realmId id name values =>
    refine traceless_unlessInternal fun hname => ?_
    obtain ⟨done, s', heq, -⟩ := Users.putAttribute_spec hupheld.users hv hname values
    exact ⟨done, s', heq⟩
  | removeAttribute realmId id name =>
    refine traceless_unlessInternal fun hname => ?_
    obtain ⟨removed, s', heq, -⟩ := Registry.clearOther_eq (of_decide_eq_false hname)
      hupheld.users hv id
    exact ⟨removed, s', heq⟩
  | _ =>
    -- None of the others claims a value.
    intro e he
    have hanswers := (handled_effect hupheld hdrawn hv fun _ hf => hf.elim).answers fun hf => hf
    rw [he] at hanswers
    obtain ⟨_, _, -, hcontested⟩ := hanswers
    exact hcontested.elim

end Effects

/-- A call to one of the three repositories, or work that keeps to other tables. -/
inductive Step where
  | operation (op : Operation)
  | elsewhere (others : List Table) (work : Work UnitOfWork Unit)
      (disjoint : ∀ t ∈ registryTables, t ∉ others) (writes : Work.Writes (within others) work)

namespace Step

def perform : Step → Work UnitOfWork Unit
  | operation op => op.perform
  | elsewhere _ work _ _ => work

def login {α : Type} (realm : Realm) (request : LoginAttempts.Request α) : Step :=
  .elsewhere Directory.standaloneTables (discard (Work.on UnitOfWork.nothing (request.perform realm)))
    (by decide)
    (.discard (((request.standalone realm).mono fun _ _ _ _ hnew => hnew.1).on UnitOfWork.nothing))

def Valid (s : RowStore) (drawn : String) : Step → Prop
  | operation op => op.Valid s drawn
  | elsewhere .. => True

instance (s : RowStore) (drawn : String) : (step : Step) → Decidable (step.Valid s drawn)
  | operation op => inferInstanceAs (Decidable (op.Valid s drawn))
  | elsewhere .. => inferInstanceAs (Decidable True)

def Proper (w : World) : List (World.Event Step) → Prop
  | [] => True
  | e :: events => e.Forall (·.Valid w.rows (drawn w)) ∧ Proper (w.step Step.perform e) events

instance decidableProper (w : World) :
    (events : List (World.Event Step)) → Decidable (Proper w events)
  | [] => inferInstanceAs (Decidable True)
  | e :: events =>
    have : Decidable (Proper (w.step Step.perform e) events) := decidableProper _ events
    inferInstanceAs (Decidable (_ ∧ _))

end Step

theorem call_eq (w : World) (unit : Nat) (op : Operation) :
    (w.resultOf unit op.perform, (w.call unit op.perform).rows) = op.effect (drawn w) w.rows :=
  op.acts_effect (w.desk unit)

theorem nulFree_drawn (w : World) : NulFree (drawn w) := (Identifier.hyphenated_plain _).1

theorem Sheltered.step {w : World} (h : Sheltered w.rows) {e : World.Event Step}
    (hv : e.Forall (·.Valid w.rows (drawn w))) : Sheltered (w.step Step.perform e).rows := by
  cases e with
  | start unit => exact h
  | call unit step =>
    cases step with
    | operation op =>
      have heq := congrArg Prod.snd (call_eq w unit op)
      exact (show (w.call unit op.perform).rows = _ from heq) ▸ h.effect (nulFree_drawn w) hv
    | elsewhere others work hne hwrites => exact h.elsewhere (hwrites.wrote (w.desk unit)) hne
  | sweep => exact h.sweep
  | advance millis => exact h.later (by omega)

theorem Sheltered.run {w : World} (h : Sheltered w.rows) {events : List (World.Event Step)}
    (hv : Step.Proper w events) : Sheltered (w.run Step.perform events).rows := by
  induction events generalizing w with
  | nil => exact h
  | cons e events ih => exact ih (h.step hv.1) hv.2

/-- After any run, a call on realms, clients or users that is refused leaves every table, every
version and every deadline as it was. -/
theorem refusals_leave_rows (linearizable caching : Bool) (start : Int) (draws : Draws)
    (events : List (World.Event Step))
    (hproper : Step.Proper (World.opened linearizable caching start draws) events) (w : World)
    (hrun : w = (World.opened linearizable caching start draws).run Step.perform events)
    (unit : Nat) (op : Operation) (hv : op.Valid w.rows (drawn w)) (e : StoreError)
    (he : w.resultOf unit op.perform = .error e) : (w.call unit op.perform).rows = w.rows := by
  have h : Sheltered w.rows := by
    rw [hrun]
    exact (sheltered_empty start).run hproper
  have heq := call_eq w unit op
  rw [he] at heq
  have htraceless := h.refused (nulFree_drawn w) hv e
  rw [← heq] at htraceless
  exact htraceless rfl

theorem refusals_leave_rows_of_third_value : ∃ (events : List (World.Event Step)) (w : World)
    (op : Operation), w = (World.opened true true 0 { value := id }).run Step.perform events ∧
      Step.Proper (World.opened true true 0 { value := id }) events ∧
      op.Valid w.rows (drawn w) ∧ w.rows.deadlines.toList.length = 1 ∧
      w.resultOf 0 op.perform = .error (.duplicateKey .serviceAccount "app") ∧
      (w.call 0 op.perform).rows = w.rows := by
  let realm : Realm := { id := "r" }
  let first := Identifier.hyphenated 0
  let second := Identifier.hyphenated 1
  let op : Operation := .updateUser realm
    { id := second, username := "c", email := some "c@x", serviceAccountClientLink := some "app" }
  let events : List (World.Event Step) :=
    [.call 0 (.operation (.createUser realm "a")), .call 1 (.operation (.createUser realm "b")),
      .call 0 (.login realm (.createRoot (some "a"))),
      .call 1 (.operation (.updateUser realm
        { id := first, username := "a", serviceAccountClientLink := some "app" })),
      .advance 60000, .sweep]
  obtain ⟨w, hw⟩ : ∃ w, w = (World.opened true true 0 { value := id }).run Step.perform events :=
    ⟨_, rfl⟩
  have hproper : Step.Proper (World.opened true true 0 { value := id }) events := by decide +kernel
  have hstate : op.Valid w.rows (drawn w) ∧ w.rows.deadlines.toList.length = 1 ∧
      w.resultOf 0 op.perform = .error (.duplicateKey .serviceAccount "app") := by
    rw [hw]
    decide +kernel
  obtain ⟨hvalid, hdeadlines, hrefused⟩ := hstate
  refine ⟨events, w, op, hw, hproper, hvalid, hdeadlines, hrefused, ?_⟩
  exact refusals_leave_rows true true 0 { value := id } events hproper w hw 0 op hvalid _ hrefused

end Registries

end IdentityDirectory
