import IdentityDirectory.Proofs.Registry.Identity
import IdentityDirectory.Proofs.Registry.Orderly
import IdentityDirectory.Proofs.Registry.Staleness

/-!
Two courses of the directory, one with a call more that sets or removes an attribute of a caller's
own. They never come to differ in what identifies users, so that all lookups by a username, an email,
a link or a service account and all claims on unique values have the same answers. Main statements:
`agreeOn_effect` for one operation, `SameIdentities.run`, and `attributes_never_identify`.
-/

namespace IdentityDirectory

variable {s s' s₁ s₁' : RowStore} {r id : String} {C : Table → String → Prop} {tables : List Table}

namespace RowStore

theorem LastingIn.get?_reclaimed (h : LastingIn tables s) (hs : Reclaimed s s') {t : Table}
    (ht : t ∈ tables) (key : String) : (s'.table t).get? key = (s.table t).get? key := by
  refine (hs.cells t key).resolve_right ?_
  rintro ⟨-, row, hrow, hdead⟩
  obtain ⟨cell, hcell, hread⟩ := Option.bind_eq_some_iff.mp hrow
  cases cell with
  | unreadable => cases hread
  | row row' =>
    obtain rfl := Option.some.inj hread
    rw [isLive_of_lasting (h t ht key _ hcell)] at hdead
    cases hdead

theorem OnlyIn.agreeOn (h : OnlyIn tables s s') (hC : ∀ t key, C t key → t ∉ tables) :
    AgreeOn C s s' where
  now := h.now.symm
  cells t key hc := congrArg (·.get? key) (h.table t (hC t key hc)).symm

theorem AgreeOn.square (h : AgreeOn C s s') (h₁ : AgreeOn C s s₁) (h₁' : AgreeOn C s' s₁') :
    AgreeOn C s₁ s₁' :=
  h₁.symm.trans (h.trans h₁')

end RowStore

namespace Users

open AttributeIndex (forwardKey reverseKey valuePartition)
open Registries (Operation)
open RowStore (AgreeOn LastingIn)

theorem Identifying.mem_tables {t : Table} {key : String} (h : Identifying t key) :
    t ∈ registry.tables := by
  cases h <;> decide

section Agree

variable (h : Orderly s) (h' : Orderly s') (hagree : AgreeOn Identifying s s')
include h h' hagree

theorem mem_listedKeys_of_identifying (hr : Plain r) {key : String}
    (hkey : Identifying .attributeUsers key)
    (hmem : key ∈ AttributeIndex.users.listedKeys s r id) :
    key ∈ AttributeIndex.users.listedKeys s' r id := by
  -- Whoever is listed under a field is so for a value of the field, which both stores have.
  obtain ⟨⟨name, values⟩, hentry, hvalue⟩ := List.mem_flatMap.mp hmem
  obtain ⟨v, hv, rfl⟩ := List.mem_map.mp hvalue
  have hname : name ∈ fields := by
    refine ((h.named r hr).mem_attributesAt h.sound hr hentry).resolve_right fun hvisible => ?_
    exact reverse_foreign hr hvisible (RowKey.lead_prefix_iff.mpr ⟨id, rfl⟩) hkey
  obtain ⟨-, -, hfree, -⟩ := AttributeIndex.exists_of_mem_attributesAt h.sound hr hentry
  have hid := hfree (registry.fields_plain name hname).1
  have hsame : AttributeIndex.users.valuesAt s' r id name s'.now = values := by
    have hforward : Identifying AttributeIndex.users.forward (forwardKey r id name).encode :=
      .values hr hid hname
    rw [AttributeIndex.valuesAt_of_agreeOn hagree hforward, ← hagree.now]
    exact AttributeIndex.valuesAt_of_mem_attributesAt h.sound hr hid hentry
  have hentry' := AttributeIndex.mem_attributesAt_of_mem_valuesAt h'.sound hr hid (hsame ▸ hv)
  rw [hsame] at hentry'
  exact List.mem_flatMap.mpr ⟨_, hentry', List.mem_map.mpr ⟨v, hv, rfl⟩⟩

end Agree

section Agree

variable (h : Orderly s) (h' : Orderly s') (hagree : AgreeOn Identifying s s') (hr : Plain r)
include h h' hagree hr

theorem agreeOn_clearAll (id : String) : AgreeOn Identifying
    (AttributeIndex.users.clearAll s r id) (AttributeIndex.users.clearAll s' r id) :=
  AttributeIndex.agreeOn_clearAll h.sound h'.sound hagree fun _ hkey =>
    ⟨mem_listedKeys_of_identifying h h' hagree hr hkey,
      mem_listedKeys_of_identifying h' h hagree.symm hr hkey⟩

theorem agreeOn_clearEach (ids : List String) : AgreeOn Identifying
    (AttributeIndex.users.clearEach s r ids) (AttributeIndex.users.clearEach s' r ids) := by
  induction ids generalizing s s' with
  | nil => exact hagree
  | cons id ids ih =>
    exact ih (h.clearAll r id) (h'.clearAll r id) (agreeOn_clearAll h h' hagree hr id)

theorem agreeOn_erase (id : String) :
    AgreeOn Identifying (registry.erase s r id) (registry.erase s' r id) :=
  agreeOn_clearAll (h.remove _) (h'.remove _) (hagree.remove .users (key r id).encode) hr id

theorem agreeOn_eraseAll :
    AgreeOn Identifying (registry.eraseAll s r) (registry.eraseAll s' r) := by
  have hrecords : s.recordsIn User .users r = s'.recordsIn User .users r := by
    have hdepends : Query.Depends Identifying (Query.records User .users r) :=
      .records fun key _ => .record key
    have heq := hdepends s s' hagree
    rw [Query.records_eq h.holds, Query.records_eq h'.holds] at heq
    exact Except.ok.inj heq
  have herased (s : RowStore) : registry.eraseAll s r = (AttributeIndex.users.clearEach s r
    ((s.recordsIn User .users r).map User.id)).removePartition .users r := rfl
  rw [herased, herased, hrecords]
  exact (agreeOn_clearEach h h' hagree hr _).removePartition .users r

end Agree

theorem agreeOn_foreign {α : Type} {u : Update α} (hu : Update.Writes foreign u)
    (h : AgreeOn Identifying s s') : AgreeOn Identifying (u s).2 (u s').2 := by
  have hsame (s : RowStore) : AgreeOn Identifying s (u s).2 :=
    (hu.wrote s).agreeOn fun _ _ _ _ hforeign => hforeign
  exact h.square (hsame s) (hsame s')

theorem agreeOn_effect (h : Orderly s) (h' : Orderly s') (hagree : AgreeOn Identifying s s')
    {op : Operation} (hop : op.InPlainRealm) {drawn : String} (hdrawn : NulFree drawn) :
    AgreeOn Identifying (op.effect drawn s).2 (op.effect drawn s').2 := by
  have halter (r id : String) (change : User → Option User) : AgreeOn Identifying
      ((discard (alter r id change) : Update Unit) s).2
      ((discard (alter r id change) : Update Unit) s').2 := by
    have hrepeats : Update.Repeats Identifying (discard (alter r id change)) :=
      (repeats_alter r id change).discard
    exact (hrepeats s s' hagree).2.1
  have hbeside (hnone : op.userRealm? = none) :
      AgreeOn Identifying (op.effect drawn s).2 (op.effect drawn s').2 := by
    have hsame (s : RowStore) : AgreeOn Identifying s (op.effect drawn s).2 :=
      (Operation.onlyIn_effect hnone drawn s).agreeOn fun t _ hkey => (by decide :
        ∀ t ∈ registry.tables, t ∉ Realms.registry.tables ++ Clients.registry.tables) t hkey.mem_tables
    exact hagree.square (hsame s) (hsame s')
  cases op with
  | createUser realm username =>
    have hrepeats : Update.Repeats Identifying (discard (Operation.insertUser realm username drawn)) :=
      .discard (.bind Query.Depends.now.update fun _ => repeats_insert (hop _ rfl) hdrawn)
    exact (hrepeats s s' hagree).2.1
  | updateUser realm user =>
    rw [Operation.effect, Update.discard_rows, Update.discard_rows]
    by_cases hid : NulFree user.id
    · exact (repeats_replace (hop _ rfl) hid s s' hagree).2.1
    · rw [h.replace_of_not_nulFree (hop _ rfl) hid, h'.replace_of_not_nulFree (hop _ rfl) hid]
      exact hagree
  | removeUser r id =>
    obtain ⟨_, heq⟩ := h.delete_eq r id
    obtain ⟨_, heq'⟩ := h'.delete_eq r id
    rw [Operation.effect, Update.discard_rows, Update.discard_rows, heq, heq']
    dsimp only
    exact agreeOn_erase h h' hagree (hop _ rfl) id
  | removeUsers r =>
    obtain ⟨_, heq⟩ := h.deleteAll_eq r
    obtain ⟨_, heq'⟩ := h'.deleteAll_eq r
    rw [Operation.effect, Update.discard_rows, Update.discard_rows, heq, heq']
    dsimp only
    exact agreeOn_eraseAll h h' hagree (hop _ rfl)
  | joinGroup r id _ | leaveGroup r id _ | grantRole r id _ | revokeRole r id _
  | addRequiredAction r id _ | removeRequiredAction r id _ => exact halter r id _
  | setAttribute r id name values =>
    exact agreeOn_foreign (.discard (writes_foreign_of_visible fun hname =>
      writes_putAttribute (owns_foreign (hop _ rfl) hname id) values)) hagree
  | removeAttribute r id name =>
    exact agreeOn_foreign (.discard (writes_foreign_of_visible fun hname =>
      (owns_foreign (hop _ rfl) hname id).writes_removeAttribute)) hagree
  | createRealm | updateRealm | removeRealm | createClient | updateClient | removeClient
  | removeClients => exact hbeside rfl

end Users

namespace Registries

open UnitOfWork (usersPart)

abbrev Memory := QueryCache UserLookup (Option User)

def Question.realmId : Question → String
  | byId r _ | byUsername r _ | byAttribute r _ _ | all r => r
  | byEmail realm _ => realm.id

def Call.InPlainRealm : Call → Prop
  | change op => op.InPlainRealm
  | ask question => Plain question.realmId

instance : (call : Call) → Decidable call.InPlainRealm
  | .change op => inferInstanceAs (Decidable op.InPlainRealm)
  | .ask question => inferInstanceAs (Decidable (Plain question.realmId))

def Operation.remembered : Operation → Memory → Memory
  | createRealm .. | updateRealm _ | removeRealm _ | createClient .. | updateClient _
  | removeClient .. | removeClients _ => fun memory => memory
  | setAttribute _ _ name _ | removeAttribute _ _ name =>
    if Users.isInternal name then fun memory => memory else QueryCache.forget
  | createUser .. | updateUser .. | removeUser .. | removeUsers _ | joinGroup .. | leaveGroup ..
  | grantRole .. | revokeRole .. | addRequiredAction .. | removeRequiredAction .. => QueryCache.forget

def Operation.draws : Operation → Nat
  | createRealm none _ | createClient .. | createUser .. => 1
  | _ => 0

def Leaves {α : Type} (draws : Nat) (change : Memory → Memory) (work : Work UnitOfWork α) : Prop :=
  ∀ d, (work d).2.draws = { d.draws with next := d.draws.next + draws } ∧
    (work d).2.held.users.lookups = change d.held.users.lookups

theorem leaves_users {α : Type} {n : Nat} {change : Memory → Memory} {work : Work UserCache α}
    (h : ∀ d, (work d).2.draws = { d.draws with next := d.draws.next + n } ∧
      (work d).2.held.lookups = change d.held.lookups) :
    Leaves n change (Work.on usersPart (discard work)) := by
  intro d
  have hdesk := Work.discard_desk work { d with held := d.held.users }
  obtain ⟨hdraws, hlookups⟩ := h { d with held := d.held.users }
  exact ⟨(congrArg (·.draws) hdesk).trans hdraws, (congrArg (·.held.lookups) hdesk).trans hlookups⟩

theorem leaves_others {σ α : Type} {n : Nat} {part : Part UnitOfWork σ} {work : Work σ α}
    (hpart : ∀ t u, (part.set t u).users = u.users)
    (h : ∀ d, (work d).2.draws = { d.draws with next := d.draws.next + n }) :
    Leaves n (fun memory => memory) (Work.on part (discard work)) := by
  intro d
  have hdesk := Work.discard_desk work { d with held := part.get d.held }
  refine ⟨(congrArg (·.draws) hdesk).trans (h _), ?_⟩
  exact congrArg (·.lookups) (hpart _ d.held)

theorem Operation.leaves (op : Operation) : Leaves op.draws op.remembered op.perform := by
  have hothers : ∀ {σ α : Type} {part : Part UnitOfWork σ} {work : Work σ α} {n : Nat},
      (∀ t u, (part.set t u).users = u.users) →
      (∀ d, (work d).2.draws = { d.draws with next := d.draws.next + n }) →
      Leaves n (fun memory => memory) (Work.on part (discard work)) :=
    fun hpart h => leaves_others hpart h
  have hforget : ∀ {α : Type} (u : Update α), Leaves 0 QueryCache.forget
      (Work.on usersPart (discard (Users.invalidate >>= fun _ => liftM u))) :=
    fun u => leaves_users fun _ => ⟨rfl, rfl⟩
  have hrefuse : ∀ {α : Type} (name : String) (u : Update α), Leaves 0
      (if Users.isInternal name then fun memory => memory else QueryCache.forget)
      (Work.on usersPart (discard (do
        Users.refuseInternal name
        Users.invalidate
        liftM u))) := by
    intro α name u
    refine leaves_users fun d => ?_
    rw [Users.refuseInternal]
    split <;> exact ⟨rfl, rfl⟩
  cases op with
  | createRealm id name => cases id <;> exact hothers (fun _ _ => rfl) fun _ => rfl
  | createClient | updateRealm | removeRealm | updateClient | removeClient | removeClients =>
    exact hothers (fun _ _ => rfl) fun _ => rfl
  | createUser realm username => exact leaves_users fun _ => ⟨rfl, rfl⟩
  | setAttribute realmId id name values => exact hrefuse name _
  | removeAttribute realmId id name => exact hrefuse name _
  | _ => exact hforget _

def Asks (work : Work UnitOfWork Unit) : Prop :=
  ∃ change : RowStore → Memory → Memory,
    (∀ d, (work d).2.draws = d.draws ∧
      (work d).2.held.users.lookups = change d.rows d.held.users.lookups) ∧
    ∀ s s', RowStore.AgreeOn Users.Identifying s s' → change s = change s'

theorem asks_users {α : Type} {work : Work UserCache α} (change : RowStore → Memory → Memory)
    (h : ∀ d, (work d).2.draws = d.draws ∧ (work d).2.held.lookups = change d.rows d.held.lookups)
    (hsame : ∀ s s', RowStore.AgreeOn Users.Identifying s s' → change s = change s') :
    Asks (Work.on usersPart (discard work)) := by
  refine ⟨change, fun d => ?_, hsame⟩
  have hdesk := Work.discard_desk work { d with held := d.held.users }
  obtain ⟨hdraws, hlookups⟩ := h { d with held := d.held.users }
  exact ⟨(congrArg (·.draws) hdesk).trans hdraws, (congrArg (·.held.lookups) hdesk).trans hlookups⟩

theorem asks_lookup (key : UserLookup) {load : Query (Option User)}
    (hload : Query.Depends Users.Identifying load) :
    Asks (Work.on usersPart (discard (Work.cached Users.lookups key load))) := by
  refine asks_users (fun s memory => (memory.getOrLoad key fun _ => load s).2)
    (fun _ => ⟨rfl, rfl⟩) fun s s' hs => ?_
  simp only [hload s s' hs]

theorem asks_listing (key : UserListing) (load : Query (List User)) :
    Asks (Work.on usersPart (discard (Work.cached Users.lists key load))) :=
  asks_users (fun _ memory => memory) (fun _ => ⟨rfl, rfl⟩) fun _ _ _ => rfl

theorem Question.asks (question : Question) (hr : Plain question.realmId) :
    Asks question.perform := by
  cases question with
  | byId r id => exact asks_lookup _ (Users.depends_load r id)
  | byUsername r username => exact asks_lookup _ (Users.depends_loadByUsername hr _)
  | byEmail realm email => exact asks_lookup _ (Users.depends_loadByEmail hr _)
  | byAttribute r name value => exact asks_listing _ _
  | all r => exact asks_listing _ _

open RowStore (AgreeOn)
open Users (Durable Identifying)

section Steps

variable {w w' : World} {unit : Nat} {call : Call}

theorem rows_change (w : World) (unit : Nat) (op : Operation) :
    (w.call unit op.perform).rows = (op.effect (drawn w) w.rows).2 :=
  congrArg Prod.snd (op.acts_effect (w.desk unit))

theorem keeps_durable (hcall : call.InPlainRealm) :
    Work.Keeps Durable call.perform fun _ => True := by
  intro d hd
  refine ⟨?_, fun _ _ => trivial⟩
  cases call with
  | change op =>
    have hrows : (op.perform d).2.rows = _ := congrArg Prod.snd (op.acts_effect d)
    exact hrows ▸ hd.effect hcall (Identifier.hyphenated_plain _).1
  | ask question =>
    have hrows : (question.perform d).2.rows = d.rows := rows_ask question d
    exact hrows ▸ hd

theorem durable_run {events : List (World.Event Call)}
    (hevents : ∀ e ∈ events, e.Forall Call.InPlainRealm) (h : Durable w.rows) :
    Durable (w.run Call.perform events).rows :=
  World.keeps_run Call.perform (fun _ hcall => keeps_durable hcall)
    (fun s hs => hs.reclaimed s.reclaimed_sweep) (fun _ _ hs => hs.later (by omega)) hevents h

/-- Two courses that do not differ in what identifies users, nor in what some units remember. -/
structure SameIdentities (kept : Nat → Prop) (w w' : World) : Prop where
  left : Durable w.rows
  right : Durable w'.rows
  agree : AgreeOn Identifying w.rows w'.rows
  draws : w'.draws = w.draws
  linearizable : w'.linearizable = w.linearizable
  caching : w'.caching = w.caching
  memory : ∀ unit, kept unit → memory w' unit = memory w unit

variable {kept : Nat → Prop}

theorem SameIdentities.drawn_eq (h : SameIdentities kept w w') : drawn w' = drawn w := by
  rw [drawn, drawn, h.draws]

theorem SameIdentities.start (h : SameIdentities kept w w') (unit : Nat) : SameIdentities kept
    (w.setUnit unit (.start "" w.linearizable w.caching))
    (w'.setUnit unit (.start "" w'.linearizable w'.caching)) where
  left := h.left
  right := h.right
  agree := h.agree
  draws := h.draws
  linearizable := h.linearizable
  caching := h.caching
  memory other hother := by
    have hmemory := h.memory other hother
    rw [Registries.memory, Registries.memory] at hmemory ⊢
    simp only [World.setUnit, h.linearizable, h.caching]
    split
    · rfl
    · exact hmemory

theorem memory_call_eq (w : World) (unit other : Nat) (work : Work UnitOfWork Unit) :
    memory (w.call unit work) other =
      if other = unit then (work (w.desk unit)).2.held.users.lookups else memory w other := by
  split
  · next hsame =>
    subst hsame
    exact memory_call w other work
  · next hne => exact memory_call_of_ne hne work

theorem SameIdentities.change (h : SameIdentities kept w w') (unit : Nat) {op : Operation}
    (hop : op.InPlainRealm) :
    SameIdentities kept (w.call unit op.perform) (w'.call unit op.perform) := by
  have hplain : NulFree (drawn w) := (Identifier.hyphenated_plain _).1
  obtain ⟨hdraws, hmemory⟩ := op.leaves (w.desk unit)
  obtain ⟨hdraws', hmemory'⟩ := op.leaves (w'.desk unit)
  constructor
  · rw [rows_change]
    exact h.left.effect hop hplain
  · rw [rows_change, h.drawn_eq]
    exact h.right.effect hop hplain
  · rw [rows_change, rows_change, h.drawn_eq]
    exact Users.agreeOn_effect h.left.toOrderly h.right.toOrderly h.agree hop hplain
  · have hsame : (w'.desk unit).draws = (w.desk unit).draws := h.draws
    exact hdraws'.trans (hsame ▸ hdraws.symm)
  · exact h.linearizable
  · exact h.caching
  · intro other hother
    rw [memory_call_eq, memory_call_eq, hmemory, hmemory']
    split
    · next hsame => exact congrArg op.remembered (h.memory unit (hsame ▸ hother))
    · exact h.memory other hother

theorem SameIdentities.ask (h : SameIdentities kept w w') (unit : Nat) (question : Question)
    (hr : Plain question.realmId) :
    SameIdentities kept (w.call unit question.perform) (w'.call unit question.perform) := by
  have hrows (w : World) : (w.call unit question.perform).rows = w.rows :=
    rows_ask question (w.desk unit)
  obtain ⟨change, hchange, hsame⟩ := question.asks hr
  obtain ⟨hdraws, hmemory⟩ := hchange (w.desk unit)
  obtain ⟨hdraws', hmemory'⟩ := hchange (w'.desk unit)
  constructor
  · exact hrows w ▸ h.left
  · exact hrows w' ▸ h.right
  · rw [hrows, hrows]
    exact h.agree
  · exact hdraws'.trans (h.draws.trans hdraws.symm)
  · exact h.linearizable
  · exact h.caching
  · intro other hother
    rw [memory_call_eq, memory_call_eq, hmemory, hmemory']
    split
    · next heq =>
      have hbefore : (w'.desk unit).held.users.lookups = (w.desk unit).held.users.lookups :=
        h.memory unit (heq ▸ hother)
      rw [hbefore]
      exact congrFun (hsame _ _ h.agree).symm _
    · exact h.memory other hother

theorem SameIdentities.at_rows (h : SameIdentities kept w w') {s s' : RowStore} (hs : Durable s)
    (hs' : Durable s') (hagree : AgreeOn Identifying s s') :
    SameIdentities kept { w with rows := s } { w' with rows := s' } where
  left := hs
  right := hs'
  agree := hagree
  draws := h.draws
  linearizable := h.linearizable
  caching := h.caching
  memory := h.memory

theorem SameIdentities.sweep (h : SameIdentities kept w w') :
    SameIdentities kept { w with rows := w.rows.sweep.2 }
      { w' with rows := w'.rows.sweep.2 } := by
  have hs := w.rows.reclaimed_sweep
  have hs' := w'.rows.reclaimed_sweep
  refine h.at_rows (h.left.reclaimed hs) (h.right.reclaimed hs') ⟨?_, fun t key hkey => ?_⟩
  · rw [hs.now, hs'.now]
    exact h.agree.now
  · rw [h.left.lasting.get?_reclaimed hs hkey.mem_tables,
      h.right.lasting.get?_reclaimed hs' hkey.mem_tables]
    exact h.agree.cells t key hkey

theorem SameIdentities.step (h : SameIdentities kept w w') {e : World.Event Call}
    (he : e.Forall Call.InPlainRealm) :
    SameIdentities kept (w.step Call.perform e) (w'.step Call.perform e) := by
  cases e with
  | start unit => exact h.start unit
  | call unit call =>
    cases call with
    | change op => exact h.change unit he
    | ask question => exact h.ask unit question he
  | sweep => exact h.sweep
  | advance millis =>
    have hnow := h.agree.now
    exact h.at_rows (h.left.later (by omega)) (h.right.later (by omega))
      ⟨congrArg (· + (millis : Int)) hnow, h.agree.cells⟩

theorem SameIdentities.run (h : SameIdentities kept w w') {events : List (World.Event Call)}
    (hevents : ∀ e ∈ events, e.Forall Call.InPlainRealm) :
    SameIdentities kept (w.run Call.perform events) (w'.run Call.perform events) := by
  induction events generalizing w w' with
  | nil => exact h
  | cons e events ih =>
    exact ih (h.step (hevents e List.mem_cons_self)) fun f hf => hevents f (List.mem_cons_of_mem _ hf)

/-- All that is asked for an identity and all that claims one has the same answer, the lookups of
what a unit may remember for some of the units. -/
structure SameAnswers (kept : Nat → Prop) (w w' : World) : Prop where
  byUsername : ∀ unit r username, kept unit → Plain r →
    w'.resultOf unit (Work.on usersPart (Users.findByUsername r username)) =
      w.resultOf unit (Work.on usersPart (Users.findByUsername r username))
  byEmail : ∀ unit (realm : Realm) email, kept unit → Plain realm.id →
    w'.resultOf unit (Work.on usersPart (Users.findByEmail realm email)) =
      w.resultOf unit (Work.on usersPart (Users.findByEmail realm email))
  byFederationLink : ∀ r link, Plain r →
    Users.findByFederationLink r link w'.rows = Users.findByFederationLink r link w.rows
  byServiceAccountClient : ∀ r clientId, Plain r →
    Users.findByServiceAccountClient r clientId w'.rows =
      Users.findByServiceAccountClient r clientId w.rows
  create : ∀ unit (realm : Realm) username, Plain realm.id →
    w'.resultOf unit (Work.on usersPart (Users.create realm username)) =
      w.resultOf unit (Work.on usersPart (Users.create realm username))
  update : ∀ unit (realm : Realm) user, Plain realm.id →
    w'.resultOf unit (Work.on usersPart (Users.update realm user)) =
      w.resultOf unit (Work.on usersPart (Users.update realm user))

theorem SameIdentities.cached_eq (h : SameIdentities kept w w') {unit : Nat} (hunit : kept unit)
    (key : UserLookup) {load : Query (Option User)} (hload : Query.Depends Identifying load) :
    w'.resultOf unit (Work.on usersPart (Work.cached Users.lookups key load)) =
      w.resultOf unit (Work.on usersPart (Work.cached Users.lookups key load)) := by
  have hresult (w : World) : w.resultOf unit (Work.on usersPart (Work.cached Users.lookups key load)) =
    ((Registries.memory w unit).getOrLoad key fun _ => load w.rows).1 := rfl
  rw [hresult, hresult, h.memory unit hunit, hload _ _ h.agree]

theorem SameIdentities.sameAnswers (h : SameIdentities kept w w') : SameAnswers kept w w' where
  byUsername unit r username hunit hr := h.cached_eq hunit _ (Users.depends_loadByUsername hr _)
  byEmail unit realm email hunit hr := h.cached_eq hunit _ (Users.depends_loadByEmail hr _)
  byFederationLink r link hr := (Users.depends_findByFederationLink hr link _ _ h.agree).symm
  byServiceAccountClient r clientId hr :=
    (Users.depends_findByServiceAccountClient hr clientId _ _ h.agree).symm
  create unit realm username hr := by
    have hresult (w : World) : w.resultOf unit (Work.on usersPart (Users.create realm username)) =
      (Operation.insertUser realm username (drawn w) w.rows).1 := rfl
    have hrepeats : Update.Repeats Identifying (Operation.insertUser realm username (drawn w)) :=
      .bind Query.Depends.now.update fun _ =>
        Users.repeats_insert hr (Identifier.hyphenated_plain _).1
    rw [hresult, hresult, h.drawn_eq]
    exact (hrepeats _ _ h.agree).1.symm
  update unit realm user hr := by
    have hresult (w : World) : w.resultOf unit (Work.on usersPart (Users.update realm user)) =
      (Users.replace realm user w.rows).1 := rfl
    rw [hresult, hresult]
    by_cases hid : NulFree user.id
    · exact (Users.repeats_replace hr hid _ _ h.agree).1.symm
    · rw [h.left.replace_of_not_nulFree hr hid, h.right.replace_of_not_nulFree hr hid]

end Steps

def forgetful (unit : Nat) (w : World) : World :=
  w.call unit (Work.on usersPart Users.invalidate)

theorem memory_forgetful (w : World) (unit other : Nat) : memory (forgetful unit w) other =
    if other = unit then (memory w unit).forget else memory w other :=
  memory_call_eq w unit other (Work.on usersPart Users.invalidate)

theorem SameIdentities.everywhere (h : SameIdentities (· ≠ unit) w w')
    (hunit : Registries.memory w' unit = Registries.memory w unit) :
    SameIdentities (fun _ => True) w w' := by
  refine { h with memory := fun other _ => ?_ }
  by_cases hother : other = unit
  · rw [hother, hunit]
  · exact h.memory other hother

theorem SameIdentities.of_forgetful (h : SameIdentities (· ≠ unit) w w')
    (hunit : Registries.memory w' unit = (Registries.memory w unit).forget) :
    SameIdentities (fun _ => True) (forgetful unit w) w' := by
  refine { h with memory := fun other _ => ?_ }
  by_cases hother : other = unit
  · rw [memory_forgetful, if_pos hother, hother, hunit]
  · rw [memory_forgetful, if_neg hother, h.memory other hother]

end Registries

namespace Users

open Registries
open RowStore (AgreeOn)
open UnitOfWork (usersPart)

/-- Where a caller sets or removes an attribute, whatever its name, its values and the user it is given
to, nothing that identifies users changes. Whatever is called afterwards, the lookups and the claims
have the answers that they have without the call. Only the unit itself may remember less: it answers
like one that has just forgotten what it knew of users, unless the name was refused. -/
theorem attributes_never_identify (linearizable caching : Bool) (start : Int) (draws : Draws)
    (before : List (World.Event Call)) (hbefore : ∀ e ∈ before, e.Forall Call.InPlainRealm)
    (w : World) (hw : w = (World.opened linearizable caching start draws).run Call.perform before)
    (unit : Nat) (r id name : String) (values : List String) (hr : Plain r) (op : Operation)
    (hop : op = .setAttribute r id name values ∨ op = .removeAttribute r id name) :
    (∀ t key, Identifying t key →
      ((w.call unit op.perform).rows.table t).get? key = (w.rows.table t).get? key) ∧
    ∀ after : List (World.Event Call), (∀ e ∈ after, e.Forall Call.InPlainRealm) →
      SameAnswers (· ≠ unit) (w.run Call.perform after)
        ((w.call unit op.perform).run Call.perform after) ∧
      SameAnswers (fun _ => True)
        ((if isInternal name then w else forgetful unit w).run Call.perform after)
        ((w.call unit op.perform).run Call.perform after) := by
  have hplain : op.InPlainRealm := by
    rcases hop with rfl | rfl <;> exact fun _ hrealm => Option.some.inj hrealm ▸ hr
  have hwrites : Update.Writes foreign (op.effect (drawn w)) := by
    rcases hop with rfl | rfl
    · exact .discard (writes_foreign_of_visible fun hname =>
        writes_putAttribute (owns_foreign hr hname id) values)
    · exact .discard (writes_foreign_of_visible fun hname =>
        (owns_foreign hr hname id).writes_removeAttribute)
  have hremembered : op.remembered =
      if isInternal name then fun memory => memory else QueryCache.forget := by
    rcases hop with rfl | rfl <;> rfl
  have hdraws : op.draws = 0 := by
    rcases hop with rfl | rfl <;> rfl
  obtain ⟨hdraws', hmemory⟩ := op.leaves (w.desk unit)
  have hdurable : Durable w.rows := by
    subst hw
    exact durable_run hbefore (durable_empty start)
  have hdurable' : Durable (w.call unit op.perform).rows := by
    rw [rows_change]
    exact hdurable.effect hplain (Identifier.hyphenated_plain _).1
  have hagree : AgreeOn Identifying w.rows (w.call unit op.perform).rows := by
    rw [rows_change]
    exact (hwrites.wrote w.rows).agreeOn fun _ _ _ _ hforeign => hforeign
  have hidentities : SameIdentities (· ≠ unit) w (w.call unit op.perform) :=
    { left := hdurable
      right := hdurable'
      agree := hagree
      draws := by rw [hdraws] at hdraws'; exact hdraws'
      linearizable := rfl
      caching := rfl
      memory := fun other hother => memory_call_of_ne hother op.perform }
  have hidentities' : SameIdentities (fun _ => True) (if isInternal name then w else forgetful unit w)
      (w.call unit op.perform) := by
    have hunit : memory (w.call unit op.perform) unit = op.remembered (memory w unit) :=
      (memory_call w unit op.perform).trans hmemory
    rw [hremembered] at hunit
    cases hname : isInternal name with
    | true =>
      rw [hname] at hunit
      exact hidentities.everywhere hunit
    | false =>
      rw [hname] at hunit
      exact hidentities.of_forgetful hunit
  refine ⟨fun t key hkey => (hagree.cells t key hkey).symm, fun after hafter => ?_⟩
  exact ⟨(hidentities.run hafter).sameAnswers, (hidentities'.run hafter).sameAnswers⟩

theorem attributes_never_identify_in_disguise :
    let user := Identifier.hyphenated 0
    let before : List (World.Event Call) := [.call 0 (.change (.createUser { id := "r" } "ann")),
      .call 0 (.ask (.byUsername "q" "bob"))]
    let op : Operation := .setAttribute "r" user "q\x1f$username\x1fbob\x00" ["\x1f$username\x1fbob\x00"]
    let after : List (World.Event Call) := [.call 1 (.change (.createUser { id := "q" } "bob")),
      .call 1 (.change (.removeUser "r" user))]
    let w := (World.opened true true 0 { value := fun n => n }).run Call.perform before
    ((w.call 0 op.perform).rows.table .userAttributes).entries ≠ (w.rows.table .userAttributes).entries ∧
      (∀ t key, Identifying t key →
        ((w.call 0 op.perform).rows.table t).get? key = (w.rows.table t).get? key) ∧
      SameAnswers (· ≠ 0) (w.run Call.perform after)
        ((w.call 0 op.perform).run Call.perform after) := by
  intro user before op after w
  have hbefore : ∀ e ∈ before, e.Forall Call.InPlainRealm := by decide +kernel
  have hafter : ∀ e ∈ after, e.Forall Call.InPlainRealm := by decide +kernel
  obtain ⟨hcells, hanswers⟩ := attributes_never_identify true true 0 { value := fun n => n } before
    hbefore w rfl 0 "r" user _ _ (by decide) op (.inl rfl)
  exact ⟨by decide +kernel, hcells, (hanswers after hafter).1⟩

theorem asked_again_after_attribute :
    let find := Work.on usersPart (findByUsername "r" "bob")
    let w := (World.opened true true 0 { value := fun n => n }).run Call.perform
      [.call 0 (.ask (.byUsername "r" "bob")), .call 1 (.change (.createUser { id := "r" } "bob"))]
    w.resultOf 0 find = .ok none ∧
      (w.call 0 (Operation.setAttribute "r" "nobody" "x" ["y"]).perform).resultOf 0 find =
        .ok (some { realmId := "r", id := Identifier.hyphenated 0, username := "bob" }) := by
  decide +kernel

end Users

end IdentityDirectory
