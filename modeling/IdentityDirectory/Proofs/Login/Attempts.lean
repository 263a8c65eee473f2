import IdentityDirectory.Proofs.Isolation.Logins
import IdentityDirectory.Proofs.Work.World

/-!
Logins in progress over any run of calls, sweeps and moves of the clock. A ledger says of each root
when it was written last and which tabs it has; the rows show a root for the realm's lifespan from
that write on. Main statements: `Kept.call`, that every call is answered and changes the rows as the
ledger records it, and `run_follows_ledger`.
-/

namespace IdentityDirectory.LoginAttempts

variable {α : Type}

structure Attempt where
  written : Int
  tabs : StringMap AuthenticationSession

namespace Attempt

def opened (now : Int) : Attempt := ⟨now, ∅⟩

def putTab (a : Attempt) (now : Int) (tab : AuthenticationSession) : Attempt :=
  ⟨now, a.tabs.insert tab.tabId { tab with timestamp := now }⟩

def eraseTab (a : Attempt) (now : Int) (tabId : String) : Attempt := ⟨now, a.tabs.erase tabId⟩

def ends (a : Attempt) (lifespan : Int) : Int := a.written + 1000 * lifespan

def root (a : Attempt) (realmId id : String) (lifespan : Int) : RootAuthenticationSession where
  realmId := realmId
  id := id
  timestamp := a.written
  sessions := a.tabs
  expiration := some (a.ends lifespan)

end Attempt

/-- What is known of each realm's roots, whether or not their time is over. -/
abbrev Ledger := String → String → Option Attempt

namespace Ledger

def set (l : Ledger) (r id : String) (a : Option Attempt) : Ledger := fun r' id' =>
  if r' = r ∧ id' = id then a else l r' id'

def clear (l : Ledger) (r : String) : Ledger := fun r' id => if r' = r then none else l r' id

variable (l : Ledger) (lifespan : String → Int) (time : Int) (r id : String)

def find? : Option Attempt := (l r id).filter (time < ·.ends (lifespan r))

def root? : Option RootAuthenticationSession :=
  (l.find? lifespan time r id).map (·.root r id (lifespan r))

end Ledger

def newTab (now : Int) (clientId tabId : String) : AuthenticationSession where
  tabId := tabId
  clientId := clientId
  timestamp := now

section Recorded

variable (lifespan : String → Int) (now : Int) (draws : Draws) (r : String) (l : Ledger)

/-- What a call for realm `r` may answer at an instant, and what it makes of the ledger. -/
inductive Recorded : {α : Type} → Request α → Except StoreError α → Ledger → Prop
  | rootOpened (asked : Option String) (id : String) (h : ∀ i ∈ asked, i = id) :
      Recorded (.createRoot asked) (.ok ((Attempt.opened now).root r id (lifespan r)))
        (l.set r id (some (.opened now)))
  | rootShown (id : String) :
      Recorded (.findRoot id) (.ok (l.root? lifespan now r id)) l
  | tabOpened {id tabId : String} {a : Attempt} (h : l.find? lifespan now r id = some a)
      (clientId : String) (hunused : tabId ∉ a.tabs) :
      Recorded (.createChild id clientId) (.ok (some (newTab now clientId tabId)))
        (l.set r id (some (a.putTab now (newTab now clientId tabId))))
  -- Draws that give an unused id some time are refused by too little patience only.
  | tabRefused {id : String} {a : Attempt} (h : l.find? lifespan now r id = some a)
      (clientId : String)
      (hused : ∀ n < draws.patience, Identifier.short (draws.value (draws.next + n)) ∈ a.tabs) :
      Recorded (.createChild id clientId) (.error (.noUnusedId draws.patience)) l
  | tabWithoutRoot {id : String} (h : l.find? lifespan now r id = none) (clientId : String) :
      Recorded (.createChild id clientId) (.ok none) l
  | tabShown (id clientId tabId : String) :
      Recorded (.findChild id clientId tabId)
        (.ok (((l.find? lifespan now r id).bind (·.tabs.get? tabId)).filter
          (·.clientId = clientId))) l
  | tabChanged {id : String} {a : Attempt} {tab : AuthenticationSession}
      (h : l.find? lifespan now r id = some a) (hthere : tab.tabId ∈ a.tabs) :
      Recorded (.updateChild id tab) (.ok true) (l.set r id (some (a.putTab now tab)))
  | tabNotChanged {id : String} {tab : AuthenticationSession}
      (h : ∀ a ∈ l.find? lifespan now r id, tab.tabId ∉ a.tabs) :
      Recorded (.updateChild id tab) (.ok false) l
  | tabClosed {id tabId : String} {a : Attempt} (h : l.find? lifespan now r id = some a)
      (hthere : tabId ∈ a.tabs) (hother : ∃ other ∈ a.tabs, other ≠ tabId) :
      Recorded (.removeChild id tabId) (.ok true) (l.set r id (some (a.eraseTab now tabId)))
  | lastTabClosed {id tabId : String} {a : Attempt} (h : l.find? lifespan now r id = some a)
      (hthere : tabId ∈ a.tabs) (hlast : ∀ other ∈ a.tabs, other = tabId) :
      Recorded (.removeChild id tabId) (.ok true) (l.set r id none)
  | tabNotClosed {id tabId : String} (h : ∀ a ∈ l.find? lifespan now r id, tabId ∉ a.tabs) :
      Recorded (.removeChild id tabId) (.ok false) l
  | rootClosed (id : String) :
      Recorded (.removeRoot id) (.ok (l.find? lifespan now r id).isSome) (l.set r id none)
  | allClosed {ids : List String} (hnodup : ids.Nodup)
      (h : ∀ id, id ∈ ids ↔ (l.find? lifespan now r id).isSome) :
      Recorded .removeAll (.ok ids.length) (l.clear r)

end Recorded

/-- What a realm has to be like for its roots to end when its lifespan says. -/
structure Admits (lifespan : String → Int) (now : Int) (realm : Realm) : Prop where
  nulFree : NulFree realm.id
  lifespan_eq : realm.timeouts.authSession = lifespan realm.id
  nonneg : 0 ≤ lifespan realm.id
  le_longest : lifespan realm.id ≤ Lifetime.longest
  earliest_le : Time.earliest ≤ now
  le_latest : now + 1000 * lifespan realm.id ≤ Time.latest

instance (lifespan : String → Int) (now : Int) (realm : Realm) :
    Decidable (Admits lifespan now realm) :=
  decidable_of_iff (NulFree realm.id ∧ realm.timeouts.authSession = lifespan realm.id ∧
      0 ≤ lifespan realm.id ∧ lifespan realm.id ≤ Lifetime.longest ∧ Time.earliest ≤ now ∧
      now + 1000 * lifespan realm.id ≤ Time.latest)
    ⟨fun ⟨h, heq, hnonneg, hle, hfirst, hlast⟩ => ⟨h, heq, hnonneg, hle, hfirst, hlast⟩,
      fun h => ⟨h.nulFree, h.lifespan_eq, h.nonneg, h.le_longest, h.earliest_le, h.le_latest⟩⟩

abbrev Stocked (s : RowStore) : Prop := s.Holds RootAuthenticationSession .authSessions

def rootAt (s : RowStore) (r id : String) (time : Int) : Option RootAuthenticationSession :=
  s.recordAt RootAuthenticationSession .authSessions (key r id) time

def store (s : RowStore) (r : String) (root : RootAuthenticationSession) : RowStore :=
  s.write .authSessions (key r root.id).encode (Storable.payload root) (Lifetime.of root s.now)

variable {lifespan : String → Int} {s s' : RowStore} {l : Ledger} {r r' id id' : String}
  {a : Attempt} {time : Int} {realm : Realm}

theorem encode_key_inj (hr : NulFree r) (hr' : NulFree r') :
    (key r' id').encode = (key r id).encode ↔ r' = r ∧ id' = id := by
  rw [RowKey.encode_inj (k := key r' id') hr' hr, key, key, RowKey.mk.injEq]

theorem findRoot_eq (h : Stocked s) (r id : String) :
    findRoot r id s = .ok (rootAt s r id s.now) :=
  Query.record_eq h (key r id)

theorem Admits.expiration_eq (h : Admits lifespan s.now realm) :
    Time.add s.now (Time.ofSeconds realm.timeouts.authSession) =
      s.now + 1000 * lifespan realm.id := by
  obtain ⟨-, heq, hnonneg, hle, hfirst, hlast⟩ := h
  rw [heq]
  simp only [Time.add, Time.ofSeconds, Time.clamp, Time.earliest, Time.latest,
    Lifetime.longest] at *
  omega

theorem Admits.lasts_iff (h : Admits lifespan s.now realm) (hwritten : a.written = s.now) :
    Lifetime.lasts (Lifetime.of (a.root realm.id id (lifespan realm.id)) s.now) s.now time ↔
      time < a.ends (lifespan realm.id) := by
  -- The lifetime of a row is in whole seconds, and so is the lifespan that it is taken from.
  obtain ⟨-, -, hnonneg, hle, hfirst, hlast⟩ := h
  have hdeadline : Lifetime.deadline (Lifetime.untilExpiration (a.ends (lifespan realm.id)) s.now)
      s.now = a.ends (lifespan realm.id) := by
    simp only [hwritten, Attempt.ends, Lifetime.deadline, Lifetime.untilExpiration, Time.add,
      Time.sub, Time.clamp, Time.earliest, Time.latest, Lifetime.shortest, Lifetime.longest] at *
    omega
  rw [← hdeadline]
  exact decide_eq_true_iff

theorem put_eq (h : Stocked s) (ha : Admits lifespan s.now realm)
    {root : RootAuthenticationSession} (hrealm : root.realmId = realm.id)
    (hwritten : a.written = s.now) (htabs : root.sessions = a.tabs) :
    put realm root s = (.ok (a.root realm.id root.id (lifespan realm.id)),
      store s realm.id (a.root realm.id root.id (lifespan realm.id))) := by
  have hstamped : { root with
      timestamp := s.now
      expiration := some (Time.add s.now (Time.ofSeconds realm.timeouts.authSession)) } =
        a.root realm.id root.id (lifespan realm.id) := by
    rw [ha.expiration_eq, ← hwritten, ← hrealm, htabs]
    rfl
  rw [put, Update.bind_liftM_of_ok (Query.now_apply s)]
  simp only [hstamped]
  exact Update.bind_of_ok (Update.putExpirable_eq (key realm.id root.id) h.readable _) _

theorem unusedTabId?_cases (used : StringMap AuthenticationSession) (draws : Draws) (tries : Nat) :
    (∃ tabId draws', unusedTabId? used draws tries = some (tabId, draws') ∧ tabId ∉ used) ∨
    unusedTabId? used draws tries = none ∧
      ∀ n < tries, Identifier.short (draws.value (draws.next + n)) ∈ used := by
  induction tries generalizing draws with
  | zero => exact .inr ⟨rfl, nofun⟩
  | succ tries ih =>
    rw [unusedTabId?]
    split
    · next hused =>
      refine (ih _).imp_right fun ⟨hnone, hall⟩ => ⟨hnone, fun n hn => ?_⟩
      cases n with
      | zero => exact hused
      | succ n =>
        have hn := hall n (Nat.lt_of_succ_lt_succ hn)
        rwa [Nat.add_right_comm] at hn
    · next hunused => exact .inl ⟨_, _, rfl, hunused⟩

theorem newTabId_cases (used : StringMap AuthenticationSession) (d : Desk Unit) :
    (∃ tabId draws, newTabId used d = (.ok tabId, { d with draws }) ∧ tabId ∉ used) ∨
    newTabId used d = (.error (.noUnusedId d.draws.patience), d) ∧
      ∀ n < d.draws.patience, Identifier.short (d.draws.value (d.draws.next + n)) ∈ used := by
  rw [newTabId]
  rcases unusedTabId?_cases used d.draws d.draws.patience with
    ⟨tabId, draws, hsome, hunused⟩ | ⟨hnone, hall⟩
  · exact .inl ⟨tabId, draws, by rw [hsome], hunused⟩
  · exact .inr ⟨by rw [hnone], hall⟩

structure Kept (lifespan : String → Int) (s : RowStore) (l : Ledger) : Prop where
  stocked : Stocked s
  shown : ∀ r id time, NulFree r → s.now ≤ time →
    rootAt s r id time = l.root? lifespan time r id

structure Leaves (lifespan : String → Int) (s s' : RowStore) (l : Ledger) : Prop
    extends Kept lifespan s' l where
  now : s'.now = s.now
  tables : ∀ t, t ≠ .authSessions → s'.table t = s.table t

theorem kept_empty (lifespan : String → Int) (now : Int) :
    Kept lifespan (.empty now) fun _ _ => none where
  stocked := RowStore.holds_empty now _
  shown r id time _ _ := by
    rw [rootAt, RowStore.recordAt, RowStore.seen_empty]
    rfl

namespace Kept

theorem later (h : Kept lifespan s l) (millis : Nat) :
    Kept lifespan { s with now := s.now + millis } l where
  stocked := RowStore.holds_congr (s := s) rfl h.stocked
  shown r id time hr hle :=
    h.shown r id time hr (Int.le_trans (Int.le_add_of_nonneg_right (Int.natCast_nonneg _)) hle)

theorem reclaimed (h : Kept lifespan s l) (hs : RowStore.Reclaimed s s') :
    Kept lifespan s' l where
  stocked := h.stocked.reclaimed hs
  shown r id time hr hle := by
    rw [hs.now] at hle
    exact (hs.recordAt_eq hle (key r id)).trans (h.shown r id time hr hle)

theorem findRoot_eq (h : Kept lifespan s l) (hr : NulFree r) (id : String) :
    findRoot r id s = .ok (l.root? lifespan s.now r id) := by
  rw [LoginAttempts.findRoot_eq h.stocked, h.shown r id s.now hr (Int.le_refl _)]

theorem findRoot_of_some (h : Kept lifespan s l) (hr : NulFree r) {a : Attempt}
    (hfind : l.find? lifespan s.now r id = some a) :
    findRoot r id s = .ok (some (a.root r id (lifespan r))) := by
  rw [h.findRoot_eq hr, Ledger.root?, hfind]
  rfl

theorem findRoot_of_none (h : Kept lifespan s l) (hr : NulFree r)
    (hfind : l.find? lifespan s.now r id = none) : findRoot r id s = .ok none := by
  rw [h.findRoot_eq hr, Ledger.root?, hfind]
  rfl

theorem leaves_self (h : Kept lifespan s l) : Leaves lifespan s s l := ⟨h, rfl, fun _ _ => rfl⟩

theorem leaves_store (h : Kept lifespan s l) (ha : Admits lifespan s.now realm) (id : String)
    (hwritten : a.written = s.now) :
    Leaves lifespan s (store s realm.id (a.root realm.id id (lifespan realm.id)))
      (l.set realm.id id (some a)) := by
  refine ⟨⟨h.stocked.write _ _ _, fun r id' time hr hle => ?_⟩, RowStore.now_write .., ?_⟩
  · rw [store, RowStore.now_write] at hle
    have hkey : (key r id').encode =
        (key realm.id (a.root realm.id id (lifespan realm.id)).id).encode ↔
          r = realm.id ∧ id' = id := encode_key_inj ha.nulFree hr
    rw [rootAt, store, RowStore.recordAt_write, Ledger.root?, Ledger.find?, Ledger.set]
    simp only [true_and, hkey]
    split
    · next hsame =>
      obtain ⟨rfl, rfl⟩ := hsame
      simp only [ha.lasts_iff hwritten, Option.filter_some, decide_eq_true_eq]
      split <;> rfl
    · exact h.shown r id' time hr hle
  · exact fun t ht => s.table_write_of_ne ht _ _ _

theorem leaves_remove (h : Kept lifespan s l) (hr : NulFree r) (id : String) :
    Leaves lifespan s (s.remove .authSessions (key r id).encode) (l.set r id none) := by
  refine ⟨⟨h.stocked.remove _ _, fun r' id' time hr' hle => ?_⟩, RowStore.now_remove .., ?_⟩
  · rw [RowStore.now_remove] at hle
    rw [rootAt, RowStore.recordAt_remove, Ledger.root?, Ledger.find?, Ledger.set]
    simp only [true_and, encode_key_inj hr hr']
    split
    · rfl
    · exact h.shown r' id' time hr' hle
  · exact fun t ht => s.table_remove_of_ne ht _

theorem leaves_removePartition (h : Kept lifespan s l) (hr : NulFree r) :
    Leaves lifespan s (s.removePartition .authSessions r) (l.clear r) := by
  refine ⟨⟨h.stocked.removePartition _ _, fun r' id time hr' hle => ?_⟩,
    RowStore.now_removePartition r, ?_⟩
  · rw [RowStore.now_removePartition] at hle
    have hlead : (RowKey.lead r).toList <+: (key r' id).encode.toList ↔ r' = r :=
      RowKey.lead_prefix_encode_iff (k := key r' id) hr' hr
    rw [rootAt, RowStore.recordAt_removePartition, Ledger.root?, Ledger.find?, Ledger.clear]
    simp only [true_and, hlead]
    split
    · rfl
    · exact h.shown r' id time hr' hle
  · exact fun t ht => RowStore.table_removePartition_of_ne ht r

theorem put (h : Kept lifespan s l) (ha : Admits lifespan s.now realm)
    {root : RootAuthenticationSession} (hrealm : root.realmId = realm.id)
    (hwritten : a.written = s.now) (htabs : root.sessions = a.tabs) : ∃ s',
    put realm root s = (.ok (a.root realm.id root.id (lifespan realm.id)), s') ∧
      Leaves lifespan s s' (l.set realm.id root.id (some a)) :=
  ⟨_, put_eq h.stocked ha hrealm hwritten htabs, h.leaves_store ha root.id hwritten⟩

theorem put_opened (h : Kept lifespan s l) (ha : Admits lifespan s.now realm) (id : String) : ∃ s',
    LoginAttempts.put realm { realmId := realm.id, id } s =
        (.ok ((Attempt.opened s.now).root realm.id id (lifespan realm.id)), s') ∧
      Leaves lifespan s s' (l.set realm.id id (some (.opened s.now))) :=
  h.put ha rfl rfl rfl

theorem put_found (h : Kept lifespan s l) (ha : Admits lifespan s.now realm) (id : String)
    (found : Attempt) (hwritten : a.written = s.now) : ∃ s',
    LoginAttempts.put realm
        { found.root realm.id id (lifespan realm.id) with sessions := a.tabs } s =
        (.ok (a.root realm.id id (lifespan realm.id)), s') ∧
      Leaves lifespan s s' (l.set realm.id id (some a)) :=
  h.put ha rfl hwritten rfl

end Kept

def Answered (lifespan : String → Int) (l : Ledger) (realm : Realm) (request : Request α)
    (d : Desk Unit) : Prop :=
  ∃ result d' l', request.perform realm d = (result, d') ∧
    Recorded lifespan d.rows.now d.draws realm.id l request result l' ∧
    Leaves lifespan d.rows d'.rows l'

namespace Kept

variable {d : Desk Unit}

theorem createRoot (h : Kept lifespan d.rows l) (ha : Admits lifespan d.rows.now realm)
    (asked : Option String) : Answered lifespan l realm (.createRoot asked) d := by
  cases asked with
  | none =>
    let id := Identifier.hyphenated (d.draws.value d.draws.next)
    obtain ⟨s', hput, hleaves⟩ := h.put_opened ha id
    refine ⟨_, ⟨s', { d.draws with next := d.draws.next + 1 }, d.held⟩, _, ?_,
      .rootOpened none id nofun, hleaves⟩
    have hnew : (Work.newId : Work Unit String) d =
        (.ok id, { d with draws := { d.draws with next := d.draws.next + 1 } }) := rfl
    exact (Work.bind_of_ok hnew _).trans (Work.liftM_update_of_eq hput)
  | some id =>
    obtain ⟨s', hput, hleaves⟩ := h.put_opened ha id
    refine ⟨_, _, _, Work.liftM_update_of_eq hput, .rootOpened (some id) id ?_, hleaves⟩
    exact fun i hi => (Option.mem_some.mp hi).symm

theorem createChild (h : Kept lifespan d.rows l) (ha : Admits lifespan d.rows.now realm)
    (id clientId : String) : Answered lifespan l realm (.createChild id clientId) d := by
  cases hfind : l.find? lifespan d.rows.now realm.id id with
  | none =>
    have hroot : (liftM (LoginAttempts.findRoot realm.id id) : Work Unit _) d = (.ok none, d) := by
      rw [Work.liftM_query_apply, h.findRoot_of_none ha.nulFree hfind]
    exact ⟨_, d, l, Work.bind_of_ok hroot _, .tabWithoutRoot hfind clientId, h.leaves_self⟩
  | some a =>
    have hroot : (liftM (LoginAttempts.findRoot realm.id id) : Work Unit _) d =
        (.ok (some (a.root realm.id id (lifespan realm.id))), d) := by
      rw [Work.liftM_query_apply, h.findRoot_of_some ha.nulFree hfind]
    rcases newTabId_cases a.tabs d with ⟨tabId, draws, hnew, hunused⟩ | ⟨hnew, hused⟩
    · let tab := newTab d.rows.now clientId tabId
      obtain ⟨s', hput, hleaves⟩ := h.put_found (a := a.putTab d.rows.now tab) ha id a rfl
      refine ⟨_, ⟨s', draws, d.held⟩, _, ?_, .tabOpened hfind clientId hunused, hleaves⟩
      have hnow : (liftM Query.now : Work Unit Int) { d with draws } =
          (.ok d.rows.now, { d with draws }) := rfl
      refine (Work.bind_of_ok hroot _).trans ((Work.bind_of_ok hnew _).trans ?_)
      refine (Work.bind_of_ok hnow _).trans ?_
      exact Work.bind_of_ok (Work.liftM_update_of_eq (d := { d with draws }) hput) _
    · refine ⟨_, d, l, ?_, .tabRefused hfind clientId hused, h.leaves_self⟩
      exact (Work.bind_of_ok hroot _).trans (Work.bind_of_error hnew _)

theorem findChild (h : Kept lifespan d.rows l) (ha : Admits lifespan d.rows.now realm)
    (id clientId tabId : String) :
    Answered lifespan l realm (.findChild id clientId tabId) d := by
  refine ⟨_, d, l, ?_, .tabShown id clientId tabId, h.leaves_self⟩
  have hfind : LoginAttempts.findChild realm.id id clientId tabId d.rows = .ok _ :=
    Query.bind_of_ok (h.findRoot_eq ha.nulFree id) _
  rw [Request.perform, Work.liftM_query_apply, hfind, Ledger.root?]
  cases l.find? lifespan d.rows.now realm.id id <;> rfl

theorem updateChild (h : Kept lifespan d.rows l) (ha : Admits lifespan d.rows.now realm)
    (id : String) (tab : AuthenticationSession) :
    Answered lifespan l realm (.updateChild id tab) d := by
  cases hfind : l.find? lifespan d.rows.now realm.id id with
  | none =>
    have hroot := h.findRoot_of_none ha.nulFree hfind
    refine ⟨_, _, l, Work.liftM_update_of_eq (Update.bind_liftM_of_ok hroot _), ?_, h.leaves_self⟩
    exact .tabNotChanged (by simp [hfind])
  | some a =>
    have hroot := h.findRoot_of_some ha.nulFree hfind
    by_cases hthere : tab.tabId ∈ a.tabs
    · obtain ⟨s', hput, hleaves⟩ := h.put_found (a := a.putTab d.rows.now tab) ha id a rfl
      refine ⟨.ok true, _, _, Work.liftM_update_of_eq ?_, .tabChanged hfind hthere, hleaves⟩
      refine (Update.bind_liftM_of_ok hroot _).trans ((congrFun (if_pos hthere) _).trans ?_)
      refine (Update.bind_liftM_of_ok (Query.now_apply d.rows) _).trans ?_
      exact Update.bind_of_ok hput _
    · refine ⟨.ok false, _, l, Work.liftM_update_of_eq ?_, ?_, h.leaves_self⟩
      · exact (Update.bind_liftM_of_ok hroot _).trans (congrFun (if_neg hthere) _)
      · exact .tabNotChanged (by simp [hfind, hthere])

theorem removeChild (h : Kept lifespan d.rows l) (ha : Admits lifespan d.rows.now realm)
    (id tabId : String) : Answered lifespan l realm (.removeChild id tabId) d := by
  cases hfind : l.find? lifespan d.rows.now realm.id id with
  | none =>
    have hroot := h.findRoot_of_none ha.nulFree hfind
    refine ⟨_, _, l, Work.liftM_update_of_eq (Update.bind_liftM_of_ok hroot _), ?_, h.leaves_self⟩
    exact .tabNotClosed (by simp [hfind])
  | some a =>
    have hroot := h.findRoot_of_some ha.nulFree hfind
    by_cases hthere : tabId ∈ a.tabs
    · by_cases hlast : ∀ other ∈ a.tabs, other = tabId
      · have hdelete := Update.delete_eq (key realm.id id) h.stocked.readable
        refine ⟨.ok true, _, _, Work.liftM_update_of_eq ?_, .lastTabClosed hfind hthere hlast,
          h.leaves_remove ha.nulFree id⟩
        refine (Update.bind_liftM_of_ok hroot _).trans ((congrFun (if_pos hthere) _).trans ?_)
        refine (congrFun (if_pos (StringMap.isEmpty_erase.mpr hlast)) _).trans ?_
        exact Update.bind_of_ok (Update.discard_of_ok hdelete) _
      · obtain ⟨s', hput, hleaves⟩ :=
          h.put_found (a := a.eraseTab d.rows.now tabId) ha id a rfl
        refine ⟨.ok true, _, _, Work.liftM_update_of_eq ?_,
          .tabClosed hfind hthere (by simpa using hlast), hleaves⟩
        refine (Update.bind_liftM_of_ok hroot _).trans ((congrFun (if_pos hthere) _).trans ?_)
        refine (congrFun (if_neg (mt StringMap.isEmpty_erase.mp hlast)) _).trans ?_
        exact Update.bind_of_ok (Update.discard_of_ok hput) _
    · refine ⟨.ok false, _, l, Work.liftM_update_of_eq ?_, ?_, h.leaves_self⟩
      · exact (Update.bind_liftM_of_ok hroot _).trans (congrFun (if_neg hthere) _)
      · exact .tabNotClosed (by simp [hfind, hthere])

theorem isSome_seen (h : Kept lifespan s l) (hr : NulFree r) (id : String) :
    (s.seen .authSessions (key r id).encode s.now).isSome =
      (l.find? lifespan s.now r id).isSome := by
  have hshown : s.recordAt RootAuthenticationSession .authSessions (key r id) s.now =
      l.root? lifespan s.now r id := h.shown r id s.now hr (Int.le_refl _)
  rw [h.stocked.seen_eq, hshown, Option.isSome_map, Ledger.root?, Option.isSome_map]

theorem removeRoot (h : Kept lifespan d.rows l) (ha : Admits lifespan d.rows.now realm)
    (id : String) : Answered lifespan l realm (.removeRoot id) d := by
  have hdelete := Update.delete_eq (key realm.id id) h.stocked.readable
  rw [h.isSome_seen ha.nulFree] at hdelete
  exact ⟨_, _, _, Work.liftM_update_of_eq hdelete, .rootClosed id, h.leaves_remove ha.nulFree id⟩

theorem removeAll (h : Kept lifespan d.rows l) (ha : Admits lifespan d.rows.now realm) :
    Answered lifespan l realm .removeAll d := by
  have hremove := Update.deletePartition_eq h.stocked.readable realm.id
  rw [← RowStore.length_scan ha.nulFree, ← List.length_map (·.1.clustering)] at hremove
  refine ⟨_, _, _, Work.liftM_update_of_eq hremove, .allClosed ?_ fun id => ?_,
    h.leaves_removePartition ha.nulFree⟩
  · exact RowStore.scan_clustering_nodup ha.nulFree
  · rw [RowStore.mem_clusterings_scan_iff ha.nulFree, ← h.isSome_seen ha.nulFree]
    rfl

theorem call (h : Kept lifespan d.rows l) (ha : Admits lifespan d.rows.now realm)
    (request : Request α) : Answered lifespan l realm request d := by
  cases request with
  | createRoot asked => exact h.createRoot ha asked
  | findRoot id =>
    refine ⟨_, d, l, ?_, .rootShown id, h.leaves_self⟩
    rw [Request.perform, Work.liftM_query_apply, h.findRoot_eq ha.nulFree]
  | createChild id clientId => exact h.createChild ha id clientId
  | findChild id clientId tabId => exact h.findChild ha id clientId tabId
  | updateChild id tab => exact h.updateChild ha id tab
  | removeChild id tabId => exact h.removeChild ha id tabId
  | removeRoot id => exact h.removeRoot ha id
  | removeAll => exact h.removeAll ha

end Kept

inductive Event where
  | call {α : Type} (realm : Realm) (request : Request α)
  | sweep
  | advance (millis : Nat)

namespace Event

def Admitted (lifespan : String → Int) (now : Int) : Event → Prop
  | call realm _ => Admits lifespan now realm
  | sweep | advance _ => True

def clock (now : Int) : Event → Int
  | call .. | sweep => now
  | advance millis => now + millis

def Recorded (lifespan : String → Int) (d : Desk Unit) (l l' : Ledger) : Event → Prop
  | call realm request =>
    let (result, d') := request.perform realm d
    LoginAttempts.Recorded lifespan d.rows.now d.draws realm.id l request result l' ∧
      ∀ t, t ≠ .authSessions → d'.rows.table t = d.rows.table t
  | sweep | advance _ => l' = l

instance (lifespan : String → Int) (now : Int) : (e : Event) → Decidable (e.Admitted lifespan now)
  | call realm _ => inferInstanceAs (Decidable (Admits lifespan now realm))
  | sweep | advance _ => inferInstanceAs (Decidable True)

end Event

def step (d : Desk Unit) : Event → Desk Unit
  | .call realm request => (request.perform realm d).2
  | .sweep => { d with rows := d.rows.sweep.2 }
  | .advance millis => { d with rows := { d.rows with now := d.rows.now + millis } }

def Proper (lifespan : String → Int) : Int → List Event → Prop
  | _, [] => True
  | now, e :: events => e.Admitted lifespan now ∧ Proper lifespan (e.clock now) events

instance decidableProper (lifespan : String → Int) :
    (now : Int) → (events : List Event) → Decidable (Proper lifespan now events)
  | _, [] => inferInstanceAs (Decidable True)
  | now, e :: events =>
    have := decidableProper lifespan (e.clock now) events
    inferInstanceAs (Decidable (e.Admitted lifespan now ∧ _))

/-- What is found of each root, now and at any later instant. -/
def Shows (lifespan : String → Int) (s : RowStore) (l : Ledger) : Prop :=
  ∀ r id time, NulFree r → s.now ≤ time →
    findRoot r id { s with now := time } = .ok (l.root? lifespan time r id)

/-- One event after the other is recorded in a ledger, and what is found is what it says. -/
def Follows (lifespan : String → Int) : List Event → Desk Unit → Ledger → Prop
  | [], d, l => Shows lifespan d.rows l
  | e :: events, d, l => Shows lifespan d.rows l ∧
    ∃ l', e.Recorded lifespan d l l' ∧ Follows lifespan events (step d e) l'

namespace Kept

variable {d : Desk Unit}

theorem shows (h : Kept lifespan s l) : Shows lifespan s l := by
  intro r id time hr hle
  have hstocked : Stocked { s with now := time } := RowStore.holds_congr (s := s) rfl h.stocked
  exact (LoginAttempts.findRoot_eq hstocked r id).trans
    (congrArg Except.ok (h.shown r id time hr hle))

theorem step (h : Kept lifespan d.rows l) {e : Event} (he : e.Admitted lifespan d.rows.now) :
    ∃ l', e.Recorded lifespan d l l' ∧ Kept lifespan (step d e).rows l' ∧
      (LoginAttempts.step d e).rows.now = e.clock d.rows.now := by
  cases e with
  | call realm request =>
    obtain ⟨result, d', l', hperform, hrecorded, hleaves⟩ := h.call he request
    refine ⟨l', ?_, ?_, ?_⟩
    · rw [Event.Recorded, hperform]
      exact ⟨hrecorded, hleaves.tables⟩
    · rw [LoginAttempts.step, hperform]
      exact hleaves.toKept
    · rw [LoginAttempts.step, hperform]
      exact hleaves.now
  | sweep =>
    have hsweep := d.rows.reclaimed_sweep
    exact ⟨l, rfl, h.reclaimed hsweep, hsweep.now⟩
  | advance millis => exact ⟨l, rfl, h.later millis, rfl⟩

theorem run (h : Kept lifespan d.rows l) {events : List Event}
    (hevents : Proper lifespan d.rows.now events) : Follows lifespan events d l := by
  induction events generalizing d l with
  | nil => exact h.shows
  | cons e events ih =>
    obtain ⟨he, hrest⟩ := hevents
    obtain ⟨l', hrecorded, hkept, hnow⟩ := h.step he
    exact ⟨h.shows, l', hrecorded, ih hkept (hnow ▸ hrest)⟩

end Kept

/-- Over any run of calls, sweeps and moves of the clock, each call does what its record says: a tab
is opened under an id that none of the root's tabs has, only a tab that is there is changed, only
the one that is named is closed, and the root goes with the last one. A root that was not removed is
found until its realm's lifespan after its last write is over, whatever else was done to other roots
and in other realms. -/
theorem run_follows_ledger (lifespan : String → Int) (start : Int) (draws : Draws)
    (events : List Event) (h : Proper lifespan start events) :
    Follows lifespan events ⟨.empty start, draws, ()⟩ fun _ _ => none :=
  (kept_empty lifespan start).run h

theorem run_follows_ledger_of_collision :
    let realm : Realm := { id := "r" }
    let events : List Event := [.call realm (.createRoot (some "s")),
      .call realm (.createChild "s" "app"), .call realm (.createChild "s" "app"),
      .advance 1799999,
      .call realm (.updateChild "s" { tabId := "00000000001", clientId := "app" }), .advance 1,
      .sweep, .call realm (.removeChild "s" "00000000000"), .advance 1799999, .sweep]
    let opened : Desk Unit := ⟨.empty 0, { value := fun n => n / 2 * 0x1000000000000000000000 }, ()⟩
    let tab : AuthenticationSession :=
      { tabId := "00000000001", clientId := "app", timestamp := 1799999 }
    Proper (fun _ => 1800) 0 events ∧ Follows (fun _ => 1800) events opened (fun _ _ => none) ∧
      findRoot "r" "s" (events.foldl step opened).rows =
        .ok (some ⟨"r", "s", 1800000, .ofList [("00000000001", tab)], some 3600000⟩) := by
  intro realm events opened tab
  have hproper : Proper (fun _ => 1800) 0 events := by decide +kernel
  exact ⟨hproper, run_follows_ledger _ 0 _ events hproper, by decide +kernel⟩

end IdentityDirectory.LoginAttempts
