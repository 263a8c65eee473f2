import IdentityDirectory.Proofs.Registry.Named
import IdentityDirectory.Proofs.Registry.Operations

/-!
Unique values over any run of operations on realms, clients and users. Main statements:
`handled_effect`, one step of any operation, and `values_unique_and_refusals_exact`.
-/

namespace IdentityDirectory.Registries

open Registry (Always)

structure Upheld (strict : String → Prop) (s : RowStore) : Prop where
  realms : Realms.registry.Kept Always s
  clients : Clients.registry.Kept Always s
  users : Users.registry.Kept (Users.Sole strict) s

variable {strict : String → Prop} {s s' : RowStore}

theorem Upheld.of_realms (h : Upheld strict s) (hm : Realms.registry.Moved Always s s') :
    Upheld strict s' where
  realms := hm.kept
  clients := h.clients.of_confined hm.confined (by decide)
  users := h.users.of_confined hm.confined (by decide)

theorem Upheld.of_clients (h : Upheld strict s) (hm : Clients.registry.Moved Always s s') :
    Upheld strict s' where
  realms := h.realms.of_confined hm.confined (by decide)
  clients := hm.kept
  users := h.users.of_confined hm.confined (by decide)

theorem Upheld.of_users (h : Upheld strict s)
    (hm : Users.registry.Moved (Users.Sole strict) s s') : Upheld strict s' where
  realms := h.realms.of_confined hm.confined (by decide)
  clients := h.clients.of_confined hm.confined (by decide)
  users := hm.kept

theorem Upheld.mono {strict' : String → Prop} (h : Upheld strict s)
    (hle : ∀ r, strict' r → strict r) : Upheld strict' s where
  realms := h.realms
  clients := h.clients
  users := by
    apply h.users.mono
    rintro r name ⟨f, hname, hemail⟩
    exact ⟨f, hname, fun hf => hle r (hemail hf)⟩

def contentsOf (s : RowStore) : Contents where
  realms := s.recordsOf Realm .realms
  clients := s.recordsIn Client .clients
  users := s.recordsIn User .users

theorem Upheld.stored (h : Upheld strict s) : Stored s (contentsOf s) where
  realms := Query.allRecords_eq h.realms.holds
  clients r _ := Query.records_eq h.clients.holds r
  users r _ := Query.records_eq h.users.holds r

section Listings

variable (h : Upheld strict s) {r : String} (hr : Plain r)
include h hr

theorem Upheld.listing_clients : Clients.registry.Listing s r ((contentsOf s).clients r) :=
  Registry.listing_recordsIn (fun _ _ _ => rfl) h.clients hr

theorem Upheld.listing_users : Users.registry.Listing s r ((contentsOf s).users r) :=
  Registry.listing_recordsIn (fun _ _ _ => rfl) h.users hr

theorem Upheld.unique_users (f : UniqueField) (hf : f = .email → strict r) :
    ((contentsOf s).users r).Pairwise fun a b => ∀ v, f.value? a = some v → f.value? b ≠ some v := by
  have hpairwise := (h.listing_users hr).unique h.users hr ⟨f, rfl, hf⟩ (Users.attributeName_mem f)
  refine hpairwise.imp fun {a b} hab v hv => ?_
  rw [← Users.field_attributeName] at hv ⊢
  exact hab v hv

end Listings

theorem Upheld.unique (h : Upheld strict s) : (contentsOf s).Unique strict where
  realms := by
    have hpairwise := (Realms.listing h.realms).unique h.realms rfl trivial
      (List.mem_singleton_self Realms.nameAttribute)
    exact hpairwise.imp fun hab heq => hab _ rfl (congrArg some heq.symm)
  clients r hr := by
    have hpairwise := (h.listing_clients hr).unique h.clients hr trivial
      (List.mem_singleton_self Clients.clientIdAttribute)
    exact hpairwise.imp fun hab heq => hab _ rfl (congrArg some heq.symm)
  usernames r hr := by
    refine (h.unique_users hr .username nofun).imp fun hab heq => ?_
    exact hab _ rfl (congrArg some heq.symm)
  serviceAccounts r hr := h.unique_users hr .serviceAccount nofun
  emails r hr hstrict := h.unique_users hr .email fun _ => hstrict

section Outcomes

variable {α : Type} {u : Update α} {contested : UniqueKind → String → Prop}
  {P : RowStore → Prop}

theorem outcome_discard (h : P (u s).2 ∧ Answers contested (u s).1) :
    P ((discard u : Update Unit) s).2 ∧ Answers contested ((discard u : Update Unit) s).1 := by
  cases hu : u s with
  | mk result s' =>
    rw [hu] at h
    cases result with
    | ok a =>
      rw [Update.discard_of_ok hu]
      exact h
    | error e =>
      rw [show (discard u : Update Unit) s = (.error e, s') from
        Update.bind_of_error hu fun _ => pure ()]
      exact h

end Outcomes

structure Handled (strict : String → Prop) (s : RowStore) (op : Operation)
    (outcome : Except StoreError Unit × RowStore) : Prop where
  upheld : Upheld strict outcome.2
  answers : ¬ op.Reserved → Answers (op.Contests (contentsOf s)) outcome.1

theorem handled_of_ok {α : Type} {u : Update α} {op : Operation}
    (hfree : op.Contests (contentsOf s) = fun _ _ => False)
    (h : ∃ a s', u s = (.ok a, s') ∧ Upheld strict s') :
    Handled strict s op ((discard u : Update Unit) s) := by
  obtain ⟨a, s', hu, hupheld⟩ := h
  rw [Update.discard_of_ok hu]
  refine ⟨hupheld, fun _ => ?_⟩
  rw [hfree]
  exact fun _ _ hf => hf

section Effects

variable (h : Upheld strict s) {drawn : String} (hdrawn : NulFree drawn)
include h

include hdrawn in
theorem handled_createRealm {id : Option String} {name : String}
    (hv : (Operation.createRealm id name).Valid s drawn) :
    Handled strict s (.createRealm id name) ((Operation.createRealm id name).effect drawn s) := by
  obtain ⟨hname, hid, hfresh⟩ := hv
  let realm : Realm := { id := id.getD drawn, name, enabled := true }
  have hl := Realms.listing h.realms
  have hplain : NulFree realm.id := by
    cases id with
    | none => exact hdrawn
    | some i => exact (hid i rfl).1
  have hspec : Realms.registry.Moved Always s (Realms.insert realm s).2 ∧ _ :=
    Realms.insert_spec h.realms hplain hname
  have hdone := outcome_discard hspec
  refine ⟨h.of_realms hdone.1, fun _ => hdone.2.mono ?_ ?_⟩
  · rintro k v (⟨rfl, rfl, hsome⟩ | ⟨rfl, rfl, htaken⟩)
    · refine .inl ⟨rfl, ?_, (hl.isSome_iff h.realms rfl).mp hsome⟩
      cases id with
      | none =>
        have hload := hfresh rfl
        rw [Realms.load_eq h.realms] at hload
        rw [show realm.id = drawn from rfl, Except.ok.inj hload] at hsome
        cases hsome
      | some i => rfl
    · obtain ⟨other, hmem, -, hfield⟩ := (hl.taken_iff h.realms rfl).mp htaken
      exact .inr ⟨rfl, rfl, other, hmem, Option.some.inj hfield⟩
  · rintro k v (⟨rfl, rfl, hexists⟩ | ⟨rfl, rfl, other, hmem, hother⟩)
    · exact ⟨_, _, .inl ⟨rfl, rfl, (hl.isSome_iff h.realms rfl).mpr hexists⟩⟩
    · by_cases hsame : other.id = realm.id
      · exact ⟨_, _, .inl ⟨rfl, rfl, (hl.isSome_iff h.realms rfl).mpr ⟨other, hmem, hsame⟩⟩⟩
      · refine ⟨_, _, .inr ⟨rfl, rfl, (hl.taken_iff h.realms rfl).mpr ?_⟩⟩
        exact ⟨other, hmem, hsame, congrArg some hother⟩

theorem handled_updateRealm {realm : Realm} (hv : (Operation.updateRealm realm).Valid s drawn) :
    Handled strict s (.updateRealm realm) ((Operation.updateRealm realm).effect drawn s) := by
  have hl := Realms.listing h.realms
  have hdone := outcome_discard (Realms.replace_spec h.realms hv.1.1 hv.2)
  refine ⟨h.of_realms hdone.1, fun _ => hdone.2.mono ?_ ?_⟩
  · rintro k v ⟨rfl, rfl, hsome, htaken⟩
    obtain ⟨other, hmem, hne, hfield⟩ := (hl.taken_iff h.realms rfl).mp htaken
    exact ⟨rfl, rfl, (hl.isSome_iff h.realms rfl).mp hsome, other, hmem, hne,
      Option.some.inj hfield⟩
  · rintro k v ⟨rfl, rfl, hexists, other, hmem, hne, hother⟩
    refine ⟨_, _, rfl, rfl, (hl.isSome_iff h.realms rfl).mpr hexists, ?_⟩
    exact (hl.taken_iff h.realms rfl).mpr ⟨other, hmem, hne, congrArg some hother⟩

include hdrawn in
theorem handled_createClient {realmId clientId : String}
    (hv : (Operation.createClient realmId clientId).Valid s drawn) :
    Handled strict s (.createClient realmId clientId)
      ((Operation.createClient realmId clientId).effect drawn s) := by
  obtain ⟨hr, hname, hfresh⟩ := hv
  let client : Client := { realmId, id := drawn, clientId, enabled := true }
  have hl := h.listing_clients hr
  have hspec : Clients.registry.Moved Always s (Clients.insert client s).2 ∧ _ :=
    Clients.insert_spec h.clients hr hdrawn hname
  have hdone := outcome_discard hspec
  refine ⟨h.of_clients hdone.1, fun _ => hdone.2.mono ?_ ?_⟩
  · rintro k v ⟨rfl, rfl, htaken⟩
    obtain ⟨other, hmem, -, hfield⟩ := (hl.taken_iff h.clients hr).mp htaken
    exact ⟨rfl, rfl, other, hmem, Option.some.inj hfield⟩
  · rintro k v ⟨rfl, rfl, other, hmem, hother⟩
    refine ⟨_, _, rfl, rfl, (hl.taken_iff h.clients hr).mpr ⟨other, hmem, ?_, congrArg some hother⟩⟩
    intro hsame
    have hrecord := (hl.record_iff h.clients hr).mpr ⟨hmem, hsame⟩
    rw [Clients.load_eq h.clients, hrecord] at hfresh
    cases hfresh

theorem handled_updateClient {client : Client}
    (hv : (Operation.updateClient client).Valid s drawn) :
    Handled strict s (.updateClient client) ((Operation.updateClient client).effect drawn s) := by
  obtain ⟨hr, hname⟩ := hv
  have hl := h.listing_clients hr
  have hdone := outcome_discard (Clients.replace_spec h.clients hr hname)
  refine ⟨h.of_clients hdone.1, fun _ => hdone.2.mono ?_ ?_⟩
  · rintro k v ⟨rfl, rfl, hsome, htaken⟩
    obtain ⟨other, hmem, hne, hfield⟩ := (hl.taken_iff h.clients hr).mp htaken
    exact ⟨rfl, rfl, (hl.isSome_iff h.clients hr).mp hsome, other, hmem, hne,
      Option.some.inj hfield⟩
  · rintro k v ⟨rfl, rfl, hexists, other, hmem, hne, hother⟩
    refine ⟨_, _, rfl, rfl, (hl.isSome_iff h.clients hr).mpr hexists, ?_⟩
    exact (hl.taken_iff h.clients hr).mpr ⟨other, hmem, hne, congrArg some hother⟩

include hdrawn in
theorem handled_createUser {realm : Realm} {username : String}
    (hv : (Operation.createUser realm username).Valid s drawn) :
    Handled strict s (.createUser realm username)
      ((Operation.createUser realm username).effect drawn s) := by
  obtain ⟨hr, hname, hfresh⟩ := hv
  let user : User :=
    { realmId := realm.id
      id := drawn
      username := Text.lowercase username
      createdTimestamp := s.now }
  have hl := h.listing_users hr
  rw [Users.load_eq h.users] at hfresh
  have hspec : Users.registry.Moved (Users.Sole strict) s (Users.insert user s).2 ∧ _ :=
    Users.insert_spec h.users hr hdrawn hname (Except.ok.inj hfresh) (Users.field_of_created _ _ _ _)
  have hdone := outcome_discard (u := Operation.insertUser realm username drawn) (s := s) hspec
  refine ⟨h.of_users hdone.1, fun _ => hdone.2.mono ?_ ?_⟩
  · rintro k v ⟨rfl, rfl, htaken⟩
    obtain ⟨other, hmem, -, hfield⟩ := (hl.taken_iff h.users hr).mp htaken
    exact ⟨rfl, rfl, other, hmem, Option.some.inj hfield⟩
  · rintro k v ⟨rfl, rfl, other, hmem, hother⟩
    refine ⟨_, _, rfl, rfl, (hl.taken_iff h.users hr).mpr ⟨other, hmem, ?_, congrArg some hother⟩⟩
    intro hsame
    have hrecord := (hl.record_iff h.users hr).mpr ⟨hmem, hsame⟩
    rw [show Users.registry.record s realm.id drawn s.now = some other from hrecord] at hfresh
    cases hfresh

theorem handled_updateUser {realm : Realm} {user : User}
    (hv : (Operation.updateUser realm user).Valid s drawn)
    (hstrict : strict realm.id → realm.duplicateEmailsAllowed = false) :
    Handled strict s (.updateUser realm user) ((Operation.updateUser realm user).effect drawn s) := by
  obtain ⟨hr, hvalues⟩ := hv
  have hl := h.listing_users hr
  have hrequests : ∀ previous (f : UniqueField) v,
      (f, v) ∈ Users.newClaims realm previous (Users.normalize realm user) ↔
        Requests realm previous user f v := by
    intro previous f v
    rw [Users.mem_newClaims_iff, Requests]
    constructor
    · rintro ⟨hne, hvalue, hemail⟩
      exact ⟨hvalue ▸ hne, hvalue, hemail⟩
    · rintro ⟨hne, hvalue, hemail⟩
      exact ⟨hvalue ▸ hne, hvalue, hemail⟩
  have htakenIff : ∀ (f : UniqueField) v,
      Users.registry.Taken s realm.id user.id f.attributeName v ↔
        ∃ other ∈ (contentsOf s).users realm.id, other.id ≠ user.id ∧ f.value? other = some v := by
    intro f v
    rw [hl.taken_iff h.users hr]
    refine exists_congr fun other => and_congr_right fun _ => and_congr_right fun _ => ?_
    rw [← Users.field_attributeName]
    rfl
  have hdone := outcome_discard (Users.replace_spec h.users hr hvalues hstrict)
  refine ⟨h.of_users hdone.1, fun _ => hdone.2.mono ?_ ?_⟩
  · rintro k v ⟨previous, f, hrecord, rfl, hmem, htaken⟩
    obtain ⟨hprevious, hid⟩ := (hl.record_iff h.users hr).mp hrecord
    exact ⟨previous, hprevious, hid, f, rfl, (hrequests previous f v).mp hmem,
      (htakenIff f v).mp htaken⟩
  · rintro k v ⟨previous, hprevious, hid, f, rfl, hrequest, htaken⟩
    exact ⟨_, v, previous, f, (hl.record_iff h.users hr).mpr ⟨hprevious, hid⟩, rfl,
      (hrequests previous f v).mpr hrequest, (htakenIff f v).mpr htaken⟩

theorem handled_alter {realmId : String} (hr : Plain realmId) (id : String)
    {change : User → Option User} (hchange : Users.KeepsFields change) {op : Operation}
    (hfree : op.Contests (contentsOf s) = fun _ _ => False) :
    Handled strict s op ((discard (Users.alter realmId id change) : Update Unit) s) := by
  obtain ⟨done, s', heq, hmoved⟩ := Users.alter_spec h.users hr hchange
  exact handled_of_ok hfree ⟨done, s', heq, h.of_users hmoved⟩

theorem handled_unlessInternal {name : String} {u : Update Bool}
    (hu : Users.isInternal name = false →
      ∃ done s', u s = (.ok done, s') ∧ Users.registry.Moved (Users.Sole strict) s s')
    {op : Operation} (hfree : op.Contests (contentsOf s) = fun _ _ => False)
    (hreserved : op.Reserved = Users.isInternal name) :
    Handled strict s op ((discard (Operation.unlessInternal name u) : Update Unit) s) := by
  rw [Operation.unlessInternal]
  cases hname : Users.isInternal name with
  | true =>
    refine ⟨h, fun hnot => ?_⟩
    rw [hreserved, hname] at hnot
    exact absurd rfl hnot
  | false =>
    obtain ⟨done, s', heq, hmoved⟩ := hu hname
    exact handled_of_ok hfree ⟨done, s', heq, h.of_users hmoved⟩

include hdrawn in
theorem handled_effect {op : Operation} (hv : op.Valid s drawn)
    (hstrict : ∀ r, strict r → op.Strict r) : Handled strict s op (op.effect drawn s) := by
  cases op with
  | createRealm id name => exact handled_createRealm h hdrawn hv
  | updateRealm realm => exact handled_updateRealm h hv
  | removeRealm id =>
    obtain ⟨removed, s', heq, hmoved⟩ := Realms.delete_spec h.realms id
    exact handled_of_ok rfl ⟨removed, s', heq, h.of_realms hmoved⟩
  | createClient realmId clientId => exact handled_createClient h hdrawn hv
  | updateClient client => exact handled_updateClient h hv
  | removeClient realmId id =>
    obtain ⟨removed, s', heq, hmoved⟩ := Clients.delete_spec h.clients hv id
    exact handled_of_ok rfl ⟨removed, s', heq, h.of_clients hmoved⟩
  | removeClients realmId =>
    obtain ⟨n, s', heq, hmoved⟩ := Clients.deleteAll_spec h.clients hv
    exact handled_of_ok rfl ⟨n, s', heq, h.of_clients hmoved⟩
  | createUser realm username => exact handled_createUser h hdrawn hv
  | updateUser realm user => exact handled_updateUser h hv fun hr => hstrict realm.id hr rfl
  | removeUser realmId id =>
    obtain ⟨removed, s', heq, hmoved⟩ := Users.delete_spec h.users hv id
    exact handled_of_ok rfl ⟨removed, s', heq, h.of_users hmoved⟩
  | removeUsers realmId =>
    obtain ⟨n, s', heq, hmoved⟩ := Users.deleteAll_spec h.users hv
    exact handled_of_ok rfl ⟨n, s', heq, h.of_users hmoved⟩
  | joinGroup realmId id group | leaveGroup realmId id group =>
    exact handled_alter h hv id (Users.keepsFields_withGroups _) rfl
  | grantRole realmId id role | revokeRole realmId id role =>
    exact handled_alter h hv id (Users.keepsFields_withRoles _) rfl
  | addRequiredAction realmId id action | removeRequiredAction realmId id action =>
    exact handled_alter h hv id (Users.keepsFields_withActions _) rfl
  | setAttribute realmId id name values =>
    exact handled_unlessInternal h
      (fun hname => Users.putAttribute_spec h.users hv hname values) rfl rfl
  | removeAttribute realmId id name =>
    exact handled_unlessInternal h
      (fun hname => Registry.clearOther_eq (of_decide_eq_false hname) h.users hv id) rfl rfl

end Effects

def drawn (w : World) : String := Identifier.hyphenated (w.draws.value w.draws.next)

def Proper (w : World) : List (World.Event Operation) → Prop
  | [] => True
  | e :: events => e.Forall (·.Valid w.rows (drawn w)) ∧ Proper (w.step Operation.perform e) events

instance decidableProper (w : World) :
    (events : List (World.Event Operation)) → Decidable (Proper w events)
  | [] => inferInstanceAs (Decidable True)
  | e :: events =>
    have : Decidable (Proper (w.step Operation.perform e) events) := decidableProper _ events
    inferInstanceAs (Decidable (_ ∧ _))

theorem Upheld.call {w : World} (h : Upheld strict w.rows) {op : Operation}
    (hv : op.Valid w.rows (drawn w)) (hstrict : ∀ r, strict r → op.Strict r) (unit : Nat) :
    Handled strict w.rows op (w.resultOf unit op.perform, (w.call unit op.perform).rows) := by
  have hacts := op.acts_effect (w.desk unit)
  have heffect := handled_effect h (Identifier.hyphenated_plain _).1 hv hstrict
  rw [show (w.resultOf unit op.perform, (w.call unit op.perform).rows) =
    op.effect (drawn w) w.rows from hacts]
  exact heffect

theorem Upheld.sweep (h : Upheld strict s) : Upheld strict s.sweep.2 :=
  ⟨h.realms.sweep, h.clients.sweep, h.users.sweep⟩

theorem Upheld.later (h : Upheld strict s) {now : Int} (hle : s.now ≤ now) :
    Upheld strict { s with now } :=
  ⟨h.realms.later hle, h.clients.later hle, h.users.later hle⟩

theorem upheld_empty (strict : String → Prop) (now : Int) : Upheld strict (.empty now) :=
  ⟨Registry.kept_empty _ _ now, Registry.kept_empty _ _ now, Registry.kept_empty _ _ now⟩

theorem Upheld.run {w : World} (h : Upheld strict w.rows) {events : List (World.Event Operation)}
    (hv : Proper w events) (hstrict : ∀ r, strict r → ∀ e ∈ events, e.Forall (·.Strict r)) :
    Upheld strict (w.run Operation.perform events).rows := by
  induction events generalizing w with
  | nil => exact h
  | cons e events ih =>
    obtain ⟨hvalid, hrest⟩ := hv
    have hnext : Upheld strict (w.step Operation.perform e).rows := by
      cases e with
      | start unit => exact h
      | call unit op =>
        have hop : ∀ r, strict r → op.Strict r :=
          fun r hr => hstrict r hr (.call unit op) List.mem_cons_self
        exact (h.call hvalid hop unit).upheld
      | sweep => exact h.sweep
      | advance millis => exact h.later (by omega)
    exact ih hnext hrest fun r hr f hf => hstrict r hr f (List.mem_cons_of_mem _ hf)

/-- After any run, no unique value has two holders, and a call is refused exactly if it asks for a
value that a live record has. -/
theorem values_unique_and_refusals_exact (linearizable caching : Bool) (start : Int) (draws : Draws)
    (events : List (World.Event Operation))
    (hproper : Proper (World.opened linearizable caching start draws) events) (w : World)
    (hrun : w = (World.opened linearizable caching start draws).run Operation.perform events) :
    ∃ c : Contents, Stored w.rows c ∧
      c.Unique (fun r => ∀ e ∈ events, e.Forall (·.Strict r)) ∧
      ∀ unit (op : Operation), op.Valid w.rows (drawn w) → ¬ op.Reserved →
        Answers (op.Contests c) (w.resultOf unit op.perform) := by
  have hopened : Upheld (fun r => ∀ e ∈ events, e.Forall (·.Strict r))
      (World.opened linearizable caching start draws).rows := upheld_empty _ start
  have h := hopened.run hproper fun _ hr => hr
  rw [← hrun] at h
  refine ⟨contentsOf w.rows, h.stored, h.unique, fun unit op hv hfree => ?_⟩
  -- The call itself may be an update that allows duplicates.
  have hweak : Upheld (fun _ => False) w.rows := h.mono fun _ hf => hf.elim
  exact (hweak.call hv (fun _ hf => hf.elim) unit).answers hfree

theorem values_unique_and_refusals_exact_passed_on : ∃ (events : List (World.Event Operation))
    (w : World) (c : Contents), w = (World.opened true true 0 { value := id }).run
      Operation.perform events ∧ Stored w.rows c ∧
      c.Unique (fun r => ∀ e ∈ events, e.Forall (·.Strict r)) ∧
      (∀ e ∈ events, e.Forall (·.Strict "r")) ∧ ((c.users "r").map (·.username)) = ["b"] ∧
      Answers ((Operation.createUser { id := "r" } "B").Contests c)
        (w.resultOf 0 (Operation.createUser { id := "r" } "B").perform) ∧
      w.resultOf 0 (Operation.createUser { id := "r" } "B").perform =
        .error (.duplicateKey .user "b") := by
  let realm : Realm := { id := "r" }
  let first := Identifier.hyphenated 0
  let second := Identifier.hyphenated 1
  let events : List (World.Event Operation) :=
    [.call 0 (.createUser realm "B"), .call 1 (.createUser realm "c"), .advance 60000, .sweep,
      .call 1 (.updateUser realm { id := second, username := "B" }),
      .call 0 (.removeUser "r" first),
      .call 1 (.updateUser realm { id := second, username := "B" })]
  obtain ⟨w, hw⟩ : ∃ w, w = (World.opened true true 0 { value := id }).run Operation.perform events :=
    ⟨_, rfl⟩
  obtain ⟨c, hstored, hunique, hanswers⟩ := values_unique_and_refusals_exact true true 0
    { value := id } events (by decide +kernel) w hw
  have hrun : (Query.records User .users "r" w.rows).toOption.map (·.map (·.username)) =
        some ["b"] ∧
      (Operation.createUser realm "B").Valid w.rows (drawn w) ∧
      w.resultOf 0 (Operation.createUser realm "B").perform = .error (.duplicateKey .user "b") := by
    rw [hw]
    decide +kernel
  obtain ⟨hlisted, hvalid, hrefused⟩ := hrun
  rw [hstored.users "r" (by decide)] at hlisted
  exact ⟨events, w, c, hw, hstored, hunique, by decide +kernel, Option.some.inj hlisted,
    hanswers 0 _ hvalid nofun, hrefused⟩

end IdentityDirectory.Registries
