import Mathlib.Data.List.Induction
import IdentityDirectory.Login.Tokens
import IdentityDirectory.Proofs.Session.Lifetime
import IdentityDirectory.Proofs.Work.World

/-!
Tokens over any run of calls by any number of units of work, with sweeps and moves of the clock in
between. Of each key the ledger of a run tells which token waits to be redeemed, and since when.
Main statements: `Kept.run`, that the rows show no other token and show that one until a second
before its end, and `redeemed_once_within_lifespan`.
-/

namespace IdentityDirectory

theorem Update.putIfAbsent_of_present {α : Type} [Storable α] {s : RowStore} {t : Table}
    (key : RowKey) (h : s.Readable t) (a : α) (lifetime : Option Int)
    (hpresent : ((s.rowAt t key.encode).filter (·.isLive s.now)).isSome) :
    Update.putIfAbsent t key a lifetime s = (.ok false, s) := by
  obtain ⟨row, hrow⟩ := Option.isSome_iff_exists.mp hpresent
  apply Update.ofRows_of_ok
  rw [RowStore.putIfAbsent, RowStore.putIfVersion_eq key _ lifetime h, hrow]
  rfl

namespace Tokens

inductive Operation where
  | put (key : String) (lifespan : Int) (notes : Notes)
  | putIfAbsent (key : String) (lifespan : Int)
  | replace (key : String) (notes : Notes)
  | get (key : String)
  | contains (key : String)
  | redeem (key : String)
  deriving DecidableEq

inductive Answer where
  | done
  | flag (flag : Bool)
  | notes (notes : Option Notes)
  deriving DecidableEq

namespace Operation

def key : Operation → String
  | put key .. | putIfAbsent key _ | replace key _ | get key | contains key | redeem key => key

def perform : Operation → Update Answer
  | put key lifespan notes => do
    Tokens.put key lifespan notes
    return .done
  | putIfAbsent key lifespan => return .flag (← Tokens.putIfAbsent key lifespan)
  | replace key notes => return .flag (← Tokens.replace key notes)
  | get key => return .notes (← Tokens.get key)
  | contains key => return .flag (← Tokens.contains key)
  | redeem key => return .notes (← Tokens.redeem key)

def performed (op : Operation) : Work UnitOfWork Unit := discard (liftM op.perform)

end Operation

structure Entry where
  instant : Int
  operation : Operation
  answer : Except StoreError Answer
  deriving DecidableEq

inductive Effect where
  | inserted (lifespan : Int) (notes : Notes)
  | rewritten (notes : Notes)
  | redeemed (notes : Notes)
  deriving DecidableEq

/-- What a call did, as its answer tells. -/
def Entry.effect (e : Entry) : Option Effect :=
  match e.operation, e.answer with
  | .put _ lifespan notes, .ok .done => some (.inserted lifespan notes)
  | .putIfAbsent _ lifespan, .ok (.flag true) => some (.inserted lifespan ∅)
  | .replace _ notes, .ok (.flag true) => some (.rewritten notes)
  | .redeem _, .ok (.notes (some notes)) => some (.redeemed notes)
  | _, _ => none

def Entry.effectOn (e : Entry) (key : String) : Option Effect :=
  if e.operation.key = key then e.effect else none

def entry (w : World) (unit : Nat) (op : Operation) : Entry :=
  ⟨w.rows.now, op, w.resultOf unit (liftM op.perform)⟩

def entriesOf (w : World) : World.Event Operation → List Entry
  | .call unit op => [entry w unit op]
  | .start _ | .sweep | .advance _ => []

def ledger (w : World) : List (World.Event Operation) → List Entry
  | [] => []
  | e :: events => entriesOf w e ++ ledger (w.step Operation.performed e) events

/-- A token from when it was put to when it ends; a replacement changes its notes only. -/
structure Token where
  notes : Notes
  since : Int
  ends : Int

namespace Token

def issued (now lifespan : Int) (notes : Notes) : Token :=
  ⟨notes, now, Time.add now (Time.ofSeconds lifespan)⟩

def object (key : String) (t : Token) : SingleUseObject where
  key := key
  notes := t.notes
  expiration := some t.ends

end Token

def Token.next (now : Int) (waiting : Option Token) : Option Effect → Option Token
  | none => waiting
  | some (.inserted lifespan notes) => some (.issued now lifespan notes)
  | some (.rewritten notes) => waiting.map fun t => { t with notes }
  | some (.redeemed _) => none

/-- The token that waits to be redeemed after the calls of a ledger, whatever the clock says. -/
def waiting (key : String) (before : Option Token) (entries : List Entry) : Option Token :=
  entries.foldl (fun t e => Token.next e.instant t (e.effectOn key)) before

abbrev Stocked (s : RowStore) : Prop := s.Holds SingleUseObject .singleUseObjects

def tokenAt (s : RowStore) (key : String) (time : Int) : Option SingleUseObject :=
  s.recordAt SingleUseObject .singleUseObjects (rowKey key) time

def store (s : RowStore) (key : String) (object : SingleUseObject) : RowStore :=
  s.write .singleUseObjects (rowKey key).encode (Storable.payload object)
    (Lifetime.of object s.now)

def discarded (s : RowStore) (key : String) : RowStore :=
  s.remove .singleUseObjects (rowKey key).encode

variable {s s' : RowStore} {key key' : String} {time : Int}

theorem encode_rowKey_inj : (rowKey key').encode = (rowKey key).encode ↔ key' = key := by
  constructor
  · intro h
    simpa [rowKey, RowKey.encode, RowKey.single, RowKey.lead] using h
  · rintro rfl
    rfl

theorem tokenAt_store (object : SingleUseObject) :
    tokenAt (store s key object) key' time =
      if key' = key then
        if Lifetime.lasts (Lifetime.of object s.now) s.now time then some object else none
      else tokenAt s key' time := by
  simp only [tokenAt, store, RowStore.recordAt_write, encode_rowKey_inj, true_and]

theorem tokenAt_discarded :
    tokenAt (discarded s key) key' time = if key' = key then none else tokenAt s key' time := by
  simp only [tokenAt, discarded, RowStore.recordAt_remove, encode_rowKey_inj, true_and]

theorem Stocked.store (h : Stocked s) (key : String) (object : SingleUseObject) :
    Stocked (store s key object) :=
  h.write _ _ _

theorem Stocked.discarded (h : Stocked s) (key : String) : Stocked (discarded s key) :=
  h.remove _ _

theorem Stocked.row_eq (h : Stocked s) (key : String) :
    ((s.rowAt .singleUseObjects (rowKey key).encode).filter (·.isLive s.now)).map (·.payload) =
      (tokenAt s key s.now).map Storable.payload :=
  h.seen_eq (rowKey key) s.now

theorem Stocked.isSome_row (h : Stocked s) (key : String) :
    ((s.rowAt .singleUseObjects (rowKey key).encode).filter (·.isLive s.now)).isSome =
      (tokenAt s key s.now).isSome := by
  have hrow := congrArg Option.isSome (h.row_eq key)
  rwa [Option.isSome_map, Option.isSome_map] at hrow

theorem get_eq (h : Stocked s) (key : String) :
    get key s = .ok ((tokenAt s key s.now).map (·.notes)) :=
  Query.map_of_ok (Query.record_eq h (rowKey key)) _

theorem contains_eq (h : Stocked s) (key : String) :
    contains key s = .ok (tokenAt s key s.now).isSome := by
  rw [← h.isSome_row key]
  exact Query.map_of_ok (Query.row_eq h.readable (rowKey key)) _

theorem token_eq (key : String) (lifespan : Int) (notes : Notes) (s : RowStore) :
    token key lifespan notes s = .ok ((Token.issued s.now lifespan notes).object key) := rfl

theorem put_eq (h : Stocked s) (key : String) (lifespan : Int) (notes : Notes) :
    put key lifespan notes s =
      (.ok (), store s key ((Token.issued s.now lifespan notes).object key)) := by
  rw [put, Update.bind_liftM_of_ok (token_eq key lifespan notes s)]
  exact Update.discard_of_ok (Update.putExpirable_eq (rowKey key) h.readable _)

theorem putIfAbsent_eq (h : Stocked s) (key : String) (lifespan : Int) :
    putIfAbsent key lifespan s =
      if (tokenAt s key s.now).isSome then (.ok false, s)
      else (.ok true, store s key ((Token.issued s.now lifespan ∅).object key)) := by
  have hrow := h.isSome_row key
  rw [putIfAbsent, Update.bind_liftM_of_ok (token_eq key lifespan ∅ s),
    Update.bind_liftM_of_ok (Query.now_apply s)]
  split
  · next hthere =>
    exact Update.putIfAbsent_of_present (rowKey key) h.readable _ _ (hrow.trans hthere)
  · next hthere =>
    refine Update.putIfAbsent_eq (rowKey key) h.readable _ _ ?_
    rw [← Option.not_isSome_iff_eq_none, hrow]
    exact hthere

theorem replace_eq (h : Stocked s) (key : String) (notes : Notes) :
    replace key notes s =
      match tokenAt s key s.now with
      | none => (.ok false, s)
      | some object => (.ok true, store s key { object with notes }) := by
  have hload : load key s = .ok (tokenAt s key s.now) := Query.record_eq h (rowKey key)
  rw [replace, Update.bind_liftM_of_ok hload]
  cases tokenAt s key s.now with
  | none => rfl
  | some object =>
    have hput := Update.putExpirable_eq (rowKey key) h.readable { object with notes }
    exact Update.bind_of_ok hput _

theorem redeem_eq (h : Stocked s) (key : String) :
    redeem key s = (.ok ((tokenAt s key s.now).map (·.notes)), discarded s key) := by
  have hrow := h.row_eq key
  rw [redeem, Update.bind_of_ok (Update.take_eq (rowKey key) h.readable)]
  cases hat : (s.rowAt .singleUseObjects (rowKey key).encode).filter (·.isLive s.now) with
  | none =>
    rw [hat, Option.map_none, eq_comm, Option.map_eq_none_iff] at hrow
    rw [hrow]
    rfl
  | some row =>
    obtain ⟨object, hpayload⟩ := h.payloads _ row (Option.filter_eq_some_iff.mp hat).1
    have hread : (row.read : Except StorageFault SingleUseObject) = .ok object := by
      rw [Row.read, hpayload, Storable.ofPayload?_payload]
    have htoken : tokenAt s key s.now = some object := by
      rw [tokenAt, RowStore.recordAt, RowStore.seen, hat, Option.map_some, Option.bind_some,
        hpayload, Storable.ofPayload?_payload]
    have hquery : (Query.ofRows fun _ => row.read : Query SingleUseObject) (discarded s key) =
        .ok object := Query.ofRows_of_ok hread
    rw [htoken]
    exact Update.bind_liftM_of_ok hquery _

inductive Changed (s : RowStore) (key : String) : Option Effect → RowStore → Prop
  | kept : Changed s key none s
  | missed (h : tokenAt s key s.now = none) : Changed s key none (discarded s key)
  | inserted (lifespan : Int) (notes : Notes) :
      Changed s key (some (.inserted lifespan notes))
        (store s key ((Token.issued s.now lifespan notes).object key))
  | rewritten {object : SingleUseObject} (h : tokenAt s key s.now = some object) (notes : Notes) :
      Changed s key (some (.rewritten notes)) (store s key { object with notes })
  | redeemed {object : SingleUseObject} (h : tokenAt s key s.now = some object) :
      Changed s key (some (.redeemed object.notes)) (discarded s key)

theorem perform_changed (h : Stocked s) (op : Operation) : ∃ answer s',
    op.perform s = (.ok answer, s') ∧
      Changed s op.key (Entry.effect ⟨s.now, op, .ok answer⟩) s' := by
  cases op with
  | put key lifespan notes =>
    exact ⟨.done, _, Update.bind_of_ok (put_eq h key lifespan notes) _, .inserted lifespan notes⟩
  | putIfAbsent key lifespan =>
    have hput := putIfAbsent_eq h key lifespan
    split at hput
    · exact ⟨.flag false, _, Update.bind_of_ok hput _, .kept⟩
    · exact ⟨.flag true, _, Update.bind_of_ok hput _, .inserted lifespan ∅⟩
  | replace key notes =>
    have hreplace := replace_eq h key notes
    cases htoken : tokenAt s key s.now with
    | none =>
      rw [htoken] at hreplace
      exact ⟨.flag false, _, Update.bind_of_ok hreplace _, .kept⟩
    | some object =>
      rw [htoken] at hreplace
      exact ⟨.flag true, _, Update.bind_of_ok hreplace _, .rewritten htoken notes⟩
  | get key => exact ⟨_, _, Update.bind_liftM_of_ok (get_eq h key) _, .kept⟩
  | contains key => exact ⟨_, _, Update.bind_liftM_of_ok (contains_eq h key) _, .kept⟩
  | redeem key =>
    have hredeem := redeem_eq h key
    cases htoken : tokenAt s key s.now with
    | none =>
      rw [htoken] at hredeem
      exact ⟨_, _, Update.bind_of_ok hredeem _, .missed htoken⟩
    | some object =>
      rw [htoken] at hredeem
      exact ⟨_, _, Update.bind_of_ok hredeem _, .redeemed htoken⟩

variable {effect : Option Effect}

theorem Changed.stocked (hc : Changed s key effect s') (h : Stocked s) : Stocked s' := by
  cases hc with
  | kept => exact h
  | missed | redeemed => exact h.discarded key
  | inserted | rewritten => exact h.store key _

theorem Changed.now (hc : Changed s key effect s') : s'.now = s.now := by
  cases hc with
  | kept => rfl
  | missed | redeemed => exact RowStore.now_remove _ _ _
  | inserted | rewritten => exact RowStore.now_write _ _ _ _ _

theorem Changed.tokenAt_eq (hc : Changed s key effect s') (hne : key' ≠ key) :
    tokenAt s' key' time = tokenAt s key' time := by
  cases hc with
  | kept => rfl
  | missed | redeemed => rw [tokenAt_discarded, if_neg hne]
  | inserted | rewritten => rw [tokenAt_store, if_neg hne]

theorem Changed.of_redeemed {notes : Notes} (hc : Changed s key (some (.redeemed notes)) s') :
    ∃ object, tokenAt s key s.now = some object ∧ object.notes = notes := by
  cases hc with
  | redeemed hat => exact ⟨_, hat, rfl⟩

/-- From now on the rows show no other token than the one that waits, show it before its end only,
and do show it until a second before its end, if its row could be given so long a lifetime. -/
structure Kept (s : RowStore) (key : String) (waiting : Option Token) : Prop where
  since_le : ∀ t ∈ waiting, t.since ≤ s.now
  inRange : ∀ t ∈ waiting, Time.InRange t.ends
  only : ∀ time, s.now ≤ time → ∀ object, tokenAt s key time = some object →
    ∃ t ∈ waiting, object = t.object key ∧ time < t.ends
  there : ∀ t ∈ waiting, t.ends - t.since ≤ Lifetime.longest * 1000 →
    ∀ time, s.now ≤ time → time ≤ t.ends - 1000 → tokenAt s key time = some (t.object key)

variable {before : Option Token}

theorem kept_empty (now : Int) (key : String) : Kept (.empty now) key none where
  since_le := nofun
  inRange := nofun
  only time _ object h := by
    rw [tokenAt, RowStore.recordAt, RowStore.seen_empty] at h
    cases h
  there := nofun

theorem kept_discarded (s : RowStore) (key : String) : Kept (discarded s key) key none where
  since_le := nofun
  inRange := nofun
  only time _ object h := by
    rw [tokenAt_discarded, if_pos rfl] at h
    cases h
  there := nofun

theorem lasts_object (t : Token) (key : String) (now time : Int) :
    Lifetime.lasts (Lifetime.of (t.object key) now) now time =
      decide (time < Lifetime.deadline (Lifetime.untilExpiration t.ends now) now) := rfl

theorem kept_store (t : Token) (key : String) (hsince : t.since ≤ s.now)
    (hr : Time.InRange t.ends) : Kept (store s key (t.object key)) key (some t) where
  since_le := by
  -- However often its row is written anew, a token ends when it did, to the second.
    rintro _ ⟨⟩
    exact hsince
  inRange := by
    rintro _ ⟨⟩
    exact hr
  only time hle object h := by
    rw [tokenAt_store, if_pos rfl, lasts_object] at h
    split at h
    · next hlt =>
      have hlt := of_decide_eq_true hlt
      exact ⟨t, rfl, (Option.some.inj h).symm, Lifetime.lt_of_lt_deadline hr hle hlt⟩
    · cases h
  there := by
    rintro _ ⟨⟩ hlong time hle hsoon
    have hlong' : t.ends - s.now ≤ Lifetime.longest * 1000 := by omega
    rw [tokenAt_store, if_pos rfl, lasts_object, if_pos]
    exact decide_eq_true (Lifetime.lt_deadline_of_le hr hlong' hsoon)

theorem Kept.of_tokenAt_eq (h : Kept s key before) (hle : s.now ≤ s'.now)
    (heq : ∀ time, s'.now ≤ time → tokenAt s' key time = tokenAt s key time) :
    Kept s' key before where
  since_le t ht := Int.le_trans (h.since_le t ht) hle
  inRange := h.inRange
  only time htime object hat :=
    h.only time (Int.le_trans hle htime) object (heq time htime ▸ hat)
  there t ht hlong time htime hsoon :=
    (heq time htime).trans (h.there t ht hlong time (Int.le_trans hle htime) hsoon)

theorem Kept.changed (h : Kept s key before) (hc : Changed s key effect s') :
    Kept s' key (Token.next s.now before effect) := by
  have hnow := hc.now
  cases hc with
  | kept => exact h
  | missed hnone =>
    refine h.of_tokenAt_eq (Int.le_of_eq hnow.symm) fun time hle => ?_
    rw [tokenAt_discarded, if_pos rfl]
    cases hat : tokenAt s key time with
    | none => rfl
    | some object =>
      have hnow : tokenAt s key s.now = some object :=
        RowStore.recordAt_of_le (hnow ▸ hle) hat
      rw [hnone] at hnow
      cases hnow
  | inserted lifespan notes =>
    exact kept_store (.issued s.now lifespan notes) key (Int.le_refl _) (Time.add_inRange _ _)
  | rewritten hat notes =>
    obtain ⟨t, rfl, rfl, -⟩ := h.only s.now (Int.le_refl _) _ hat
    exact kept_store { t with notes } key (h.since_le t rfl) (h.inRange t rfl)
  | redeemed hat => exact kept_discarded s key

/-- What every unit of work is answered about a key at one moment. -/
structure Shows (w : World) (key : String) (found : Option Notes) : Prop where
  get : ∀ unit, w.resultOf unit (liftM (Tokens.get key)) = .ok found
  contains : ∀ unit, w.resultOf unit (liftM (Tokens.contains key)) = .ok found.isSome
  redeem : ∀ unit, w.resultOf unit (liftM (Tokens.redeem key)) = .ok found
  putIfAbsent : ∀ unit lifespan,
    w.resultOf unit (liftM (Tokens.putIfAbsent key lifespan)) = .ok found.isNone
  replace : ∀ unit notes, w.resultOf unit (liftM (Tokens.replace key notes)) = .ok found.isSome

variable {w : World}

theorem resultOf_perform (w : World) (unit : Nat) (op : Operation) :
    w.resultOf unit (liftM op.perform) = (op.perform w.rows).1 := rfl

theorem rows_call (w : World) (unit : Nat) (op : Operation) :
    (w.step Operation.performed (.call unit op)).rows = (op.perform w.rows).2 := by
  have hdesk := Work.discard_desk (liftM op.perform) (w.desk unit)
  exact congrArg Desk.rows hdesk

theorem shows_tokenAt (h : Stocked w.rows) (key : String) :
    Shows w key ((tokenAt w.rows key w.rows.now).map (·.notes)) where
  get _ := get_eq h key
  contains _ := by
    rw [Option.isSome_map]
    exact contains_eq h key
  redeem _ := congrArg Prod.fst (redeem_eq h key)
  putIfAbsent _ lifespan := by
    have hput := congrArg Prod.fst (putIfAbsent_eq h key lifespan)
    refine hput.trans ?_
    cases tokenAt w.rows key w.rows.now <;> rfl
  replace _ notes := by
    have hreplace := congrArg Prod.fst (replace_eq h key notes)
    refine hreplace.trans ?_
    cases tokenAt w.rows key w.rows.now <;> rfl

theorem effectOn_entry (w : World) (unit : Nat) (op : Operation) (key : String) :
    (entry w unit op).effectOn key = if op.key = key then (entry w unit op).effect else none := rfl

theorem entry_changed (h : Stocked w.rows) (unit : Nat) (op : Operation) :
    (∃ answer, (entry w unit op).answer = .ok answer) ∧
      Changed w.rows op.key (entry w unit op).effect
        (w.step Operation.performed (.call unit op)).rows := by
  obtain ⟨answer, s', hperform, hc⟩ := perform_changed h op
  rw [rows_call, entry, resultOf_perform, hperform]
  exact ⟨⟨answer, rfl⟩, hc⟩

theorem Stocked.step (h : Stocked w.rows) (e : World.Event Operation) :
    Stocked (w.step Operation.performed e).rows := by
  cases e with
  | start unit => exact h
  | call unit op => exact (entry_changed h unit op).2.stocked h
  | sweep => exact h.reclaimed w.rows.reclaimed_sweep
  | advance millis => exact ⟨h.readable, h.payloads⟩

theorem Stocked.run (h : Stocked w.rows) (events : List (World.Event Operation)) :
    Stocked (w.run Operation.performed events).rows := by
  induction events generalizing w with
  | nil => exact h
  | cons e events ih => exact ih (h.step e)

theorem Kept.step (hs : Stocked w.rows) (h : Kept w.rows key before)
    (e : World.Event Operation) :
    Kept (w.step Operation.performed e).rows key (waiting key before (entriesOf w e)) := by
  cases e with
  | start unit => exact h
  | call unit op =>
    have hc := (entry_changed hs unit op).2
    change Kept _ key (Token.next w.rows.now before ((entry w unit op).effectOn key))
    rw [effectOn_entry]
    by_cases hkey : op.key = key
    · subst hkey
      rw [if_pos rfl]
      exact h.changed hc
    · rw [if_neg hkey]
      refine h.of_tokenAt_eq (Int.le_of_eq hc.now.symm) fun time _ => hc.tokenAt_eq ?_
      exact fun heq => hkey heq.symm
  | sweep =>
    have hrec := w.rows.reclaimed_sweep
    refine h.of_tokenAt_eq (Int.le_of_eq hrec.now.symm) fun time hle => ?_
    exact hrec.recordAt_eq (hrec.now ▸ hle) (rowKey key)
  | advance millis =>
    have hle : w.rows.now ≤ w.rows.now + millis :=
      Int.le_add_of_nonneg_right (Int.natCast_nonneg _)
    exact h.of_tokenAt_eq hle fun time _ => RowStore.recordAt_congr rfl _ _

theorem waiting_append (key : String) (before : Option Token) (entries later : List Entry) :
    waiting key before (entries ++ later) = waiting key (waiting key before entries) later :=
  List.foldl_append

theorem Kept.run (hs : Stocked w.rows) (h : Kept w.rows key before)
    (events : List (World.Event Operation)) :
    Kept (w.run Operation.performed events).rows key (waiting key before (ledger w events)) := by
  induction events generalizing w before with
  | nil => exact h
  | cons e events ih =>
    rw [ledger, waiting_append]
    exact ih (hs.step e) (h.step hs e)

theorem exists_call {events : List (World.Event Operation)} {earlier later : List Entry} {e : Entry}
    (h : ledger w events = earlier ++ e :: later) : ∃ before unit op after,
      events = before ++ .call unit op :: after ∧ ledger w before = earlier ∧
        e = entry (w.run Operation.performed before) unit op := by
  induction events generalizing w earlier with
  | nil => simp [ledger] at h
  | cons event events ih =>
    have hskip (hentries : entriesOf w event = []) : ∃ before unit op after,
        event :: events = before ++ .call unit op :: after ∧ ledger w before = earlier ∧
          e = entry (w.run Operation.performed before) unit op := by
      rw [ledger, hentries, List.nil_append] at h
      obtain ⟨before, unit, op, after, rfl, hledger, he⟩ := ih h
      refine ⟨event :: before, unit, op, after, rfl, ?_, he⟩
      rw [ledger, hentries, List.nil_append, hledger]
    cases event with
    | start | sweep | advance => exact hskip rfl
    | call unit op =>
      cases earlier with
      | nil =>
        obtain ⟨rfl, -⟩ := List.cons.inj h
        exact ⟨[], unit, op, events, rfl, rfl, rfl⟩
      | cons first earlier =>
        obtain ⟨rfl, hrest⟩ := List.cons.inj h
        obtain ⟨before, unit', op', after, rfl, hledger, he⟩ := ih hrest
        refine ⟨.call unit op :: before, unit', op', after, rfl, ?_, he⟩
        exact congrArg (entry w unit op :: ·) hledger

def Entry.written (e : Entry) (key : String) : Option Notes :=
  match e.effectOn key with
  | some (.inserted _ notes) | some (.rewritten notes) => some notes
  | some (.redeemed _) | none => none

variable {entries : List Entry} {t : Token}

theorem waiting_cons (key : String) (before : Option Token) (e : Entry) (entries : List Entry) :
    waiting key before (e :: entries) =
      waiting key (Token.next e.instant before (e.effectOn key)) entries := rfl

theorem waiting_append_singleton (key : String) (before : Option Token) (entries : List Entry)
    (e : Entry) : waiting key before (entries ++ [e]) =
      Token.next e.instant (waiting key before entries) (e.effectOn key) := by
  rw [waiting_append]
  rfl

theorem exists_written (h : waiting key none entries = some t) : ∃ earlier write later,
    entries = earlier ++ write :: later ∧ write.written key = some t.notes ∧
      ∀ e ∈ later, e.written key = none := by
  induction entries using List.reverseRecOn generalizing t with
  | nil => cases h
  | append_singleton entries e ih =>
    rw [waiting_append_singleton] at h
    cases heffect : e.effectOn key with
    | none =>
      rw [heffect] at h
      obtain ⟨earlier, write, later, rfl, hwrite, hlater⟩ := ih h
      refine ⟨earlier, write, later ++ [e], by simp, hwrite, fun e' he' => ?_⟩
      rcases List.mem_append.mp he' with he' | he'
      · exact hlater e' he'
      · rw [List.mem_singleton.mp he', Entry.written, heffect]
    | some effect =>
      rw [heffect] at h
      cases effect with
      | inserted lifespan notes =>
        obtain rfl := Option.some.inj h
        exact ⟨entries, e, [], rfl, by rw [Entry.written, heffect]; rfl, nofun⟩
      | rewritten notes =>
        obtain ⟨t', -, rfl⟩ := Option.map_eq_some_iff.mp h
        exact ⟨entries, e, [], rfl, by rw [Entry.written, heffect], nofun⟩
      | redeemed notes => cases h

theorem waiting_of_not_inserted
    (hnone : ∀ e ∈ entries, ∀ lifespan notes, e.effectOn key ≠ some (.inserted lifespan notes))
    (h : waiting key before entries = some t) :
    ∃ t' ∈ before, t.since = t'.since ∧ t.ends = t'.ends := by
  induction entries generalizing before with
  | nil => exact ⟨t, h, rfl, rfl⟩
  | cons e entries ih =>
    rw [waiting_cons] at h
    have hrest := ih (fun e' he' => hnone e' (List.mem_cons_of_mem _ he')) h
    obtain ⟨t', ht', hsince, hends⟩ := hrest
    cases heffect : e.effectOn key with
    | none =>
      rw [heffect] at ht'
      exact ⟨t', ht', hsince, hends⟩
    | some effect =>
      rw [heffect] at ht'
      cases effect with
      | inserted lifespan notes =>
        exact absurd heffect (hnone e List.mem_cons_self lifespan notes)
      | rewritten notes =>
        obtain ⟨t'', ht'', rfl⟩ := Option.map_eq_some_iff.mp ht'
        exact ⟨t'', ht'', hsince, hends⟩
      | redeemed notes => cases ht'

theorem isSome_waiting (hbefore : before.isSome)
    (hnone : ∀ e ∈ entries, ∀ notes, e.effectOn key ≠ some (.redeemed notes)) :
    (waiting key before entries).isSome := by
  induction entries generalizing before with
  | nil => exact hbefore
  | cons e entries ih =>
    rw [waiting_cons]
    refine ih ?_ fun e' he' => hnone e' (List.mem_cons_of_mem _ he')
    cases heffect : e.effectOn key with
    | none => exact hbefore
    | some effect =>
      cases effect with
      | inserted lifespan notes => rfl
      | rewritten notes => exact Option.isSome_map.trans hbefore
      | redeemed notes => exact absurd heffect (hnone e List.mem_cons_self notes)

theorem Token.ends_issued {now lifespan : Int} (notes : Notes) (hpos : 0 < lifespan)
    (hle : lifespan ≤ Lifetime.longest) (hr : Time.InRange (now + 1000 * lifespan)) :
    (Token.issued now lifespan notes).ends = now + 1000 * lifespan := by
  simp only [Token.issued, Time.InRange, Time.add, Time.ofSeconds, Time.clamp, Time.earliest,
    Time.latest, Lifetime.longest] at *
  omega

theorem Kept.shows_none (hs : Stocked w.rows) (h : Kept w.rows key before)
    (hover : ∀ t ∈ before, t.ends ≤ w.rows.now) : Shows w key none := by
  have hshows := shows_tokenAt hs key
  cases hat : tokenAt w.rows key w.rows.now with
  | none => rwa [hat] at hshows
  | some object =>
    obtain ⟨t, ht, -, hlt⟩ := h.only _ (Int.le_refl _) object hat
    exact absurd hlt (Int.not_lt.mpr (hover t ht))

theorem Kept.shows_some (hs : Stocked w.rows) (h : Kept w.rows key (some t))
    (hlong : t.ends - t.since ≤ Lifetime.longest * 1000) (hsoon : w.rows.now ≤ t.ends - 1000) :
    Shows w key (some t.notes) := by
  have hat := h.there t rfl hlong _ (Int.le_refl _) hsoon
  have hshows := shows_tokenAt hs key
  rwa [hat] at hshows

theorem answered (hs : Stocked w.rows) (events : List (World.Event Operation)) :
    ∀ e ∈ ledger w events, ∃ answer, e.answer = .ok answer := by
  intro e he
  obtain ⟨earlier, later, hledger⟩ := List.append_of_mem he
  obtain ⟨before, unit, op, after, -, -, rfl⟩ := exists_call hledger
  exact (entry_changed (hs.run before) unit op).1

theorem waiting_of_redeemed (hs : Stocked w.rows) (h : Kept w.rows key before)
    {events : List (World.Event Operation)} {earlier later : List Entry} {e : Entry} {notes : Notes}
    (hledger : ledger w events = earlier ++ e :: later)
    (he : e.effectOn key = some (.redeemed notes)) :
    ∃ t, waiting key before earlier = some t ∧ t.notes = notes := by
  obtain ⟨done, unit, op, after, -, rfl, rfl⟩ := exists_call hledger
  have hkept := Kept.run hs h done
  have hc := (entry_changed (hs.run done) unit op).2
  rw [effectOn_entry] at he
  split at he
  · next hkey =>
    rw [hkey, he] at hc
    obtain ⟨object, hat, rfl⟩ := hc.of_redeemed
    obtain ⟨t, ht, rfl, -⟩ := hkept.only _ (Int.le_refl _) object hat
    exact ⟨t, ht, rfl⟩
  · cases he

theorem exists_inserted_between (hs : Stocked w.rows) (h : Kept w.rows key before)
    {events : List (World.Event Operation)} {earlier between later : List Entry}
    {first second : Entry} {notes notes' : Notes}
    (hledger : ledger w events = earlier ++ first :: between ++ second :: later)
    (hfirst : first.effectOn key = some (.redeemed notes))
    (hsecond : second.effectOn key = some (.redeemed notes')) :
    ∃ e ∈ between, ∃ lifespan notes, e.effectOn key = some (.inserted lifespan notes) := by
  obtain ⟨t, ht, -⟩ := waiting_of_redeemed hs h hledger hsecond
  rw [waiting_append, waiting_cons, hfirst] at ht
  by_contra hnone
  have hnot : ∀ e ∈ between, ∀ lifespan notes,
      e.effectOn key ≠ some (.inserted lifespan notes) :=
    fun e he lifespan notes heffect => hnone ⟨e, he, lifespan, notes, heffect⟩
  obtain ⟨t', ht', -⟩ := waiting_of_not_inserted hnot ht
  cases ht'

theorem Kept.inserted {unit : Nat} {op : Operation} {lifespan : Int} {notes : Notes}
    (hs : Stocked w.rows) (h : Kept w.rows key before)
    (heffect : (entry w unit op).effectOn key = some (.inserted lifespan notes)) :
    Kept (w.step Operation.performed (.call unit op)).rows key
      (some (.issued w.rows.now lifespan notes)) := by
  have hstep := h.step hs (.call unit op)
  change Kept _ key (Token.next w.rows.now before ((entry w unit op).effectOn key)) at hstep
  rwa [heffect] at hstep

/-- Replacing a token leaves its times as they are. -/
theorem Kept.lives_until_end (hs : Stocked w.rows) (h : Kept w.rows key (waiting key (some t) entries))
    (hlong : t.ends - t.since ≤ Lifetime.longest * 1000)
    (hnone : ∀ e ∈ entries, ∀ lifespan notes, e.effectOn key ≠ some (.inserted lifespan notes)) :
    (t.ends ≤ w.rows.now → Shows w key none) ∧
      ((∀ e ∈ entries, ∀ notes, e.effectOn key ≠ some (.redeemed notes)) →
        w.rows.now ≤ t.ends - 1000 → ∃ notes, Shows w key (some notes)) := by
  have hsame : ∀ t' ∈ waiting key (some t) entries, t'.since = t.since ∧ t'.ends = t.ends := by
    intro t' ht'
    obtain ⟨_, ⟨⟩, hsame⟩ := waiting_of_not_inserted hnone ht'
    exact hsame
  constructor
  · intro hover
    refine h.shows_none hs fun t' ht' => ?_
    rwa [(hsame t' ht').2]
  · intro hunredeemed hsoon
    have hwaits : (waiting key (some t) entries).isSome := isSome_waiting rfl hunredeemed
    obtain ⟨t', ht'⟩ := Option.isSome_iff_exists.mp hwaits
    obtain ⟨hsince, hends⟩ := hsame t' ht'
    rw [ht'] at h
    refine ⟨t'.notes, h.shows_some hs ?_ ?_⟩
    · rwa [hsince, hends]
    · rwa [hends]

/-- Over any run of calls by any number of units of work, sweeps and moves of the clock, every call
is answered. Between two redemptions of a key lies an insertion of it; a redemption gives the notes
that were written last; and a token is put where none was exactly if nobody can read one there at
that moment. However often it is replaced, a token is not shown once its lifespan is over and, unless
redeemed or inserted again, is shown at every instant up to a second before that. -/
theorem redeemed_once_within_lifespan (linearizable caching : Bool) (start : Int) (draws : Draws)
    (events : List (World.Event Operation)) (key : String) :
    let opened := World.opened linearizable caching start draws
    let w := opened.run Operation.performed events
    (∀ e ∈ ledger opened events, ∃ answer, e.answer = .ok answer) ∧
    (∀ earlier first between second later notes notes',
      ledger opened events = earlier ++ first :: between ++ second :: later →
      first.effectOn key = some (.redeemed notes) →
      second.effectOn key = some (.redeemed notes') →
        ∃ e ∈ between, ∃ lifespan notes, e.effectOn key = some (.inserted lifespan notes)) ∧
    (∀ earlier e later notes, ledger opened events = earlier ++ e :: later →
      e.effectOn key = some (.redeemed notes) →
        ∃ before write after, earlier = before ++ write :: after ∧
          write.written key = some notes ∧ ∀ e ∈ after, e.written key = none) ∧
    (∃ found, Shows w key found) ∧
    ∀ before unit op after lifespan notes, events = before ++ .call unit op :: after →
      let v := opened.run Operation.performed before
      let since := ledger (v.step Operation.performed (.call unit op)) after
      let ends := v.rows.now + 1000 * lifespan
      (entry v unit op).effectOn key = some (.inserted lifespan notes) →
      0 < lifespan → lifespan ≤ Lifetime.longest → Time.InRange ends →
      (∀ e ∈ since, ∀ lifespan notes, e.effectOn key ≠ some (.inserted lifespan notes)) →
        (ends ≤ w.rows.now → Shows w key none) ∧
        ((∀ e ∈ since, ∀ notes, e.effectOn key ≠ some (.redeemed notes)) →
          w.rows.now ≤ ends - 1000 → ∃ notes, Shows w key (some notes)) := by
  intro opened w
  have hs : Stocked opened.rows := RowStore.holds_empty start _
  have hkept : Kept opened.rows key none := kept_empty start key
  refine ⟨answered hs events, ?_, ?_, ⟨_, shows_tokenAt (hs.run events) key⟩, ?_⟩
  · intro earlier first between second later notes notes' hledger hfirst hsecond
    exact exists_inserted_between hs hkept hledger hfirst hsecond
  · intro earlier e later notes hledger he
    obtain ⟨t, ht, rfl⟩ := waiting_of_redeemed hs hkept hledger he
    exact exists_written ht
  · rintro before unit op after lifespan notes rfl v since ends heffect hpos hle hr hnone
    let t := Token.issued v.rows.now lifespan notes
    have hends : t.ends = ends := Token.ends_issued notes hpos hle hr
    have hlong : t.ends - t.since ≤ Lifetime.longest * 1000 := by
      have hsince : t.since = v.rows.now := rfl
      omega
    have hv : Stocked v.rows := hs.run before
    have hinserted : Kept (v.step Operation.performed (.call unit op)).rows key (some t) :=
      (Kept.run hs hkept before).inserted hv heffect
    have hw : Kept w.rows key (waiting key (some t) since) := by
      have hsplit : w =
          (v.step Operation.performed (.call unit op)).run Operation.performed after := by
        simp only [w, v, World.run, List.foldl_append, List.foldl_cons]
      rw [hsplit]
      exact Kept.run (hv.step _) hinserted after
    rw [← hends]
    exact hw.lives_until_end (hs.run _) hlong hnone

theorem redeemed_once_within_lifespan_of_replaced :
    let opened := World.opened false true 0 { value := fun n => n }
    let put : World.Event Operation := .call 0 (.put "k" 2 ∅)
    let after : List (World.Event Operation) :=
      [.advance 500, .call 1 (.replace "k" (.ofList [("n", "v")])), .sweep, .advance 500]
    let redemptions : List (World.Event Operation) := [.call 0 (.put "k" 60 ∅),
      .call 1 (.redeem "k"), .call 0 (.putIfAbsent "k" 60), .call 2 (.redeem "k")]
    (∃ notes, Shows (opened.run Operation.performed (put :: after)) "k" (some notes)) ∧
    Shows (opened.run Operation.performed (put :: (after ++ [.advance 1000]))) "k" none ∧
    ∃ e ∈ ((ledger opened redemptions).drop 2).take 1,
      ∃ lifespan notes, e.effectOn "k" = some (.inserted lifespan notes) := by
  intro opened put after redemptions
  let notes : Notes := .ofList [("n", "v")]
  have hafter : ∀ e ∈ ledger (opened.step Operation.performed put) (after ++ [.advance 1000]),
      e.effectOn "k" = some (.rewritten notes) := by decide +kernel
  have hsame : ledger (opened.step Operation.performed put) after =
      ledger (opened.step Operation.performed put) (after ++ [.advance 1000]) := by decide +kernel
  refine ⟨?_, ?_, ?_⟩
  · obtain ⟨-, -, -, -, hlife⟩ :=
      redeemed_once_within_lifespan false true 0 { value := fun n => n } (put :: after) "k"
    have hput := hlife [] 0 (.put "k" 2 ∅) after 2 ∅ rfl (by decide +kernel) (by decide)
      (by decide) ⟨by decide +kernel, by decide +kernel⟩ fun e he _ _ heffect => by
        cases (hafter e (hsame ▸ he)).symm.trans heffect
    refine hput.2 (fun e he notes heffect => ?_) (by decide +kernel)
    cases (hafter e (hsame ▸ he)).symm.trans heffect
  · obtain ⟨-, -, -, -, hlife⟩ := redeemed_once_within_lifespan false true 0
      { value := fun n => n } (put :: (after ++ [.advance 1000])) "k"
    have hput := hlife [] 0 (.put "k" 2 ∅) (after ++ [.advance 1000]) 2 ∅ rfl
      (by decide +kernel) (by decide) (by decide) ⟨by decide +kernel, by decide +kernel⟩
      fun e he _ _ heffect => by cases (hafter e he).symm.trans heffect
    exact hput.1 (by decide +kernel)
  · obtain ⟨-, hbetween, -⟩ := redeemed_once_within_lifespan false true 0
      { value := fun n => n } redemptions "k"
    have hentries : ledger opened redemptions =
        [⟨0, .put "k" 60 ∅, .ok .done⟩] ++ ⟨0, .redeem "k", .ok (.notes (some ∅))⟩ ::
          [⟨0, .putIfAbsent "k" 60, .ok (.flag true)⟩] ++
            ⟨0, .redeem "k", .ok (.notes (some ∅))⟩ :: [] := by decide +kernel
    rw [hentries]
    exact hbetween _ _ _ _ _ ∅ ∅ hentries (by decide +kernel) (by decide +kernel)

end Tokens

end IdentityDirectory
