import IdentityDirectory.Proofs.Isolation.Footprint
import IdentityDirectory.Proofs.Isolation.Sessions
import IdentityDirectory.Proofs.Memory.Rules
import IdentityDirectory.Proofs.Session.Lifetime

/-!
Sessions with and without a memory of what was looked up. A unit of work that has the store to itself
gets the same answers either way, but for one: a remembered session is checked against its expiration,
a stored one against the deadline of its row, and the deadline is the expiration in whole seconds from
the last write. Main statements: `Request.oblivious`, and `answers_agree_unless_outlived`.
-/

namespace IdentityDirectory.UserSessions

open AttributeIndex (userSessions)
open Work (Oblivious)

variable {α : Type} {s s' : RowStore} {c : SessionCache} {d d' : Desk SessionCache}
  {r e id : String} {offline : Bool} {session : UserSession} {answer : Option UserSession}

/-- The deadline of the row was taken from the expiration of its session when it was written. -/
def Dated (now : Int) (row : Row) (session : UserSession) : Prop :=
  ∃ expiration written, session.expiration = some expiration ∧ Time.InRange expiration ∧
    written ≤ now ∧
    row.expiresAt = some (Lifetime.deadline (Lifetime.untilExpiration expiration written) written)

def Dates (now : Int) (cell : Option Cell) : Prop :=
  ∀ row session, cell = some (.row row) → row.read = .ok session → Dated now row session

def AllDated (s : RowStore) : Prop := ∀ key, Dates s.now ((s.table .userSessions).get? key)

def dating (now : Int) (t : Table) (_ : String) (cell : Option Cell) : Prop :=
  t = .userSessions → Dates now cell

def sparing (_ : Int) (t : Table) (_ : String) (_ : Option Cell) : Prop := t ≠ .userSessions

theorem allDated_empty (now : Int) : AllDated (.empty now) := by
  intro key row session hcell
  rw [RowStore.table_empty] at hcell
  cases hcell

theorem dates_none (now : Int) : Dates now none := by
  intro row session hcell
  cases hcell

theorem AllDated.wrote (h : AllDated s) (hw : RowStore.Wrote dating s s') : AllDated s' := by
  intro key
  rw [hw.now]
  rcases hw.cells .userSessions key with hsame | hnew
  · exact hsame ▸ h key
  · exact hnew rfl

theorem AllDated.later (h : AllDated s) {now : Int} (hle : s.now ≤ now) :
    AllDated { s with now } := by
  intro key row session hcell hread
  obtain ⟨expiration, written, hexpiration, hrange, hwritten, hdeadline⟩ :=
    h key row session hcell hread
  exact ⟨expiration, written, hexpiration, hrange, Int.le_trans hwritten hle, hdeadline⟩

theorem get?_of_spared (hw : RowStore.Wrote sparing s s') (key : String) :
    (s'.table .userSessions).get? key = (s.table .userSessions).get? key :=
  (hw.cells .userSessions key).resolve_right fun hne => hne rfl

theorem dating_of_sparing {u : Update α} (h : Update.Writes sparing u) : Update.Writes dating u := by
  refine Update.writes_of_wrote fun s => ⟨(h.wrote s).now, fun t key => ?_⟩
  exact ((h.wrote s).cells t key).imp_right fun hne heq => absurd heq hne

theorem open_dating (scope : String) (lifetime : Option Int) :
    userSessions.Open dating scope lifetime where
  cleared _ _ _ _ _ _ := dates_none _
  written _ _ _ _ ht _ _ := fun heq => by
    subst heq
    exact absurd ht (by decide)

theorem writes_put (realm : Realm) (session : UserSession) :
    Update.Writes dating (put realm session) := by
  have hrow : ∀ now, RowStore.Puts dating now .userSessions
      (key realm.id (entity session.id session.offline)).encode
      (Storable.payload { session with expiration := some (expirationOf realm session) })
      (some (Lifetime.untilExpiration (expirationOf realm session) now)) := by
    rintro now version - row found hcell hread
    obtain rfl := Cell.row.inj (Option.some.inj hcell)
    obtain rfl := Except.ok.inj hread
    refine ⟨_, now, rfl, ?_, Int.le_refl _, rfl⟩
    exact SessionTimes.expiration_inRange realm.timeouts _
  refine .bind (Update.writes_putExpirable hrow) fun lifetime => ?_
  refine .bind (.forM fun e _ => ?_) fun _ => .pure _
  exact AttributeIndex.writes_setAttribute ((open_dating realm.id lifetime).owns _ e.1) e.2

theorem spares_deleteClientSession (r id : String) :
    Update.Writes sparing (deleteClientSession r id) :=
  .discard (Update.writes_delete fun _ => show Table.clientSessions ≠ .userSessions by decide)

theorem spares_putClientSession (realm : Realm) (client : Client) (session : UserSession)
    (clientSession : ClientSession) :
    Update.Writes sparing (putClientSession realm client session clientSession) := by
  refine .bind (Update.writes_putExpirable ?_) fun _ => .pure _
  intro now version
  show Table.clientSessions ≠ .userSessions
  decide

theorem spares_refreshClientSession (realm : Realm) (client : Client) (session : UserSession) :
    Update.Writes sparing (refreshClientSession realm client session) := by
  refine .bind (Update.writes_query _) fun found => ?_
  cases found with
  | none => exact .pure none
  | some clientSession =>
    refine .bind (Update.writes_query _) fun now => ?_
    exact .map (spares_putClientSession realm client session _) some

theorem writes_delete (r id : String) (offline : Bool) :
    Update.Writes dating (delete r id offline) := by
  have hindex := AttributeIndex.writes_removeAttributesOf
    ((open_dating r none).clearable (entity id offline))
  refine .bind (Update.writes_take fun now _ => dates_none now) fun taken => ?_
  cases taken with
  | none => exact .bind hindex fun _ => .pure false
  | some row =>
    refine .bind (Update.writes_query _) fun session => ?_
    refine .bind (.forM fun id _ => dating_of_sparing (spares_deleteClientSession r id)) fun _ => ?_
    exact .bind hindex fun _ => .pure true

theorem writes_deleteAll (r : String) : Update.Writes dating (deleteAll r) := by
  refine .bind (Update.writes_query _) fun rows => ?_
  refine .bind (AttributeIndex.writes_removeEach (open_dating r none).clearable rows _) fun _ => ?_
  refine .bind (Update.writes_deletePartition fun now _ _ _ => dates_none now) fun _ => ?_
  exact .bind (Update.writes_deletePartition fun now _ _ _ => dates_none now) fun _ => .pure _

/-- A remembered session stands in its row, whether or not the row still counts; where nothing was
found, nothing will be. -/
inductive Recalled (s : RowStore) (key : String) : Option UserSession → Prop
  | present {row : Row} {session : UserSession} (hrow : s.row? .userSessions key = .ok (some row))
      (hread : row.read = .ok session) : Recalled s key (some session)
  | absent {row : Option Row} (hrow : s.row? .userSessions key = .ok row)
      (hgone : row.filter (·.isLive s.now) = none) : Recalled s key none

theorem loadEntity_of_row {row : Option Row}
    (h : s.row? .userSessions (key r e).encode = .ok row) : loadEntity r e s =
      match row.filter (·.isLive s.now) with
      | none => .ok none
      | some row => (row.read.map some).mapError .transient := by
  have hget : s.get .userSessions (key r e) = .ok (row.filter (·.isLive s.now)) := by
    rw [RowStore.get, h]
    rfl
  simp only [loadEntity, Query.record, Query.ofRows, hget, bind, Except.bind]
  cases row.filter (·.isLive s.now) with
  | none => rfl
  | some row => cases row.read (α := UserSession) <;> rfl

theorem recalled_of_load (h : loadEntity r e s = .ok answer) :
    Recalled s (key r e).encode answer := by
  cases hrow : s.row? .userSessions (key r e).encode with
  | error fault =>
    simp only [loadEntity, Query.record, Query.ofRows, RowStore.get, hrow, bind, Except.bind] at h
    cases h
  | ok row =>
    rw [loadEntity_of_row hrow] at h
    cases hlive : row.filter (·.isLive s.now) with
    | none =>
      rw [hlive] at h
      obtain rfl := Except.ok.inj h
      exact .absent hrow hlive
    | some found =>
      rw [hlive] at h
      obtain ⟨rfl, -⟩ := Option.filter_eq_some_iff.mp hlive
      dsimp only at h
      cases hread : found.read (α := UserSession) with
      | error fault =>
        rw [hread] at h
        cases h
      | ok session =>
        rw [hread] at h
        obtain rfl := Except.ok.inj h
        exact .present hrow hread

structure Ended (s : RowStore) (key : String) (session : UserSession) (row : Row) : Prop where
  found : s.row? .userSessions key = .ok (some row)
  read : row.read = .ok session
  dead : row.isLive s.now = false

theorem Recalled.load (h : Recalled s (key r e).encode answer) :
    loadEntity r e s = .ok answer ∨ loadEntity r e s = .ok none ∧
      ∃ session row, answer = some session ∧ Ended s (key r e).encode session row := by
  cases h with
  | @present row session hrow hread =>
    rw [loadEntity_of_row hrow, Option.filter_some]
    cases hlive : row.isLive s.now with
    | true =>
      left
      simp only [if_true, hread]
      rfl
    | false => exact .inr ⟨rfl, session, row, rfl, hrow, hread, hlive⟩
  | absent hrow hgone =>
    left
    rw [loadEntity_of_row hrow, hgone]

theorem Recalled.congr {key : String} (h : Recalled s key answer) (hnow : s'.now = s.now)
    (hcell : (s'.table .userSessions).get? key = (s.table .userSessions).get? key) :
    Recalled s' key answer := by
  have hrows : s'.row? .userSessions key = s.row? .userSessions key := by
    rw [RowStore.row?, RowStore.row?, hcell]
  cases h with
  | present hrow hread => exact .present (hrows.trans hrow) hread
  | absent hrow hgone => exact .absent (hrows.trans hrow) (hnow ▸ hgone)

theorem Recalled.later {key : String} (h : Recalled s key answer) {now : Int}
    (hle : s.now ≤ now) : Recalled { s with now } key answer := by
  cases h with
  | present hrow hread => exact .present (s := { s with now }) hrow hread
  | absent hrow hgone =>
    refine .absent (s := { s with now }) hrow ?_
    rw [Option.filter_eq_none_iff] at hgone ⊢
    exact fun row hmem hlive => hgone row hmem (Row.isLive_of_le hle hlive)

def Remembering (s : RowStore) (c : SessionCache) : Prop :=
  AllDated s ∧ ∀ r e answer, c.find? ⟨r, e⟩ = some answer → Recalled s (key r e).encode answer

def Forgotten (s : RowStore) (c : SessionCache) : Prop := AllDated s ∧ ∀ key, c.find? key = none

def Disabled (c : SessionCache) : Prop := c.enabled = false

theorem Forgotten.remembering (h : Forgotten s c) : Remembering s c := by
  refine ⟨h.1, fun r e answer hanswer => ?_⟩
  rw [h.2] at hanswer
  cases hanswer

theorem Remembering.spared (h : Remembering s c) (hw : RowStore.Wrote sparing s s') :
    Remembering s' c := by
  constructor
  · intro key
    rw [hw.now, get?_of_spared hw]
    exact h.1 key
  · exact fun r e answer hanswer => (h.2 r e answer hanswer).congr hw.now (get?_of_spared hw _)

theorem Remembering.later (h : Remembering s c) {now : Int} (hle : s.now ≤ now) :
    Remembering { s with now } c :=
  ⟨h.1.later hle, fun r e answer hanswer => (h.2 r e answer hanswer).later hle⟩

theorem Remembering.remember (h : Remembering s c) (hload : loadEntity r e s = .ok answer) :
    Remembering s (c.remember ⟨r, e⟩ answer) := by
  refine ⟨h.1, fun r' e' answer' hanswer => ?_⟩
  rcases QueryCache.of_find?_remember hanswer with ⟨hkey, rfl⟩ | hold
  · obtain ⟨rfl, rfl⟩ := SessionLookup.mk.inj hkey
    exact recalled_of_load hload
  · exact h.2 r' e' answer' hold

theorem oblivious_spared {u : Update α} (h : Update.Writes sparing u) :
    Oblivious Remembering Disabled (liftM u : Work SessionCache α) :=
  Oblivious.update fun s _ hI => hI.spared (h.wrote s)

theorem oblivious_forgetting {u : Update α} (h : Update.Writes dating u) :
    Oblivious Remembering Disabled (invalidate >>= fun _ => liftM u) := by
  have hupdate : Oblivious Forgotten Disabled (liftM u : Work SessionCache α) :=
    Oblivious.update fun s _ hI => ⟨hI.1.wrote (h.wrote s), hI.2⟩
  exact Oblivious.forgetting (fun s c hI => ⟨hI.1, c.find?_forget⟩) (fun _ hc => hc)
    (fun _ _ hI => hI.remembering) hupdate

theorem oblivious_write (realm : Realm) (session : UserSession) :
    Oblivious Remembering Disabled (write realm session) :=
  oblivious_forgetting (writes_put realm session)

theorem oblivious_create (realm : Realm) (session : UserSession) :
    Oblivious Remembering Disabled (create realm session) := by
  refine .bind (Oblivious.query _) fun now => ?_
  refine .ite (.bind Oblivious.newId fun id => ?_) (.bind (.pure session.id) fun id => ?_)
  all_goals
    refine .bind (Oblivious.query _) fun found => ?_
    exact .optional (.throw _) (oblivious_write realm _)

theorem oblivious_refresh (realm : Realm) (id : String) (offline : Bool) :
    Oblivious Remembering Disabled (refresh realm id offline) := by
  refine .bind (Oblivious.query _) fun found => ?_
  cases found with
  | none => exact .pure none
  | some session =>
    refine .bind (Oblivious.query _) fun now => ?_
    exact .map (oblivious_write realm _) some

theorem oblivious_update (realm : Realm) (session : UserSession) :
    Oblivious Remembering Disabled (update realm session) := by
  refine .bind (Oblivious.query _) fun found => ?_
  exact .ite (.pure false) (.bind (oblivious_write realm session) fun _ => .pure true)

theorem oblivious_attachClientSession (realm : Realm) (client : Client) (id : String)
    (offline : Bool) :
    Oblivious Remembering Disabled (attachClientSession realm client id offline) := by
  refine .bind (Oblivious.query _) fun found => ?_
  cases found with
  | none => exact .pure none
  | some session =>
    refine .bind Oblivious.newId fun newId => .bind (Oblivious.query _) fun now => ?_
    refine .bind (oblivious_spared (spares_putClientSession realm client session _)) ?_
    intro clientSession
    refine .bind (.forM fun previous _ =>
      oblivious_spared (spares_deleteClientSession realm.id previous)) fun _ => ?_
    exact .bind (oblivious_write realm _) fun _ => .pure _

theorem oblivious_detachClientSession (realm : Realm) (id : String) (offline : Bool)
    (clientId : String) :
    Oblivious Remembering Disabled (detachClientSession realm id offline clientId) := by
  refine .bind (Oblivious.query _) fun found => ?_
  cases found with
  | none => exact .pure false
  | some session =>
    dsimp only
    split
    · exact .pure false
    · refine .bind (oblivious_spared (spares_deleteClientSession realm.id _)) fun _ => ?_
      exact .bind (oblivious_write realm _) fun _ => .pure true

theorem oblivious_detachClientEverywhere (realm : Realm) (clientId : String) :
    Oblivious Remembering Disabled (detachClientEverywhere realm clientId) := by
  have hdetach : ∀ offline, Oblivious Remembering Disabled (do
      let sessions ← findIndexed realm.id clientAttribute clientId offline
      Work.countTrue (fun s => detachClientSession realm s.id offline clientId) sessions) := by
    intro offline
    refine .bind (Oblivious.query _) fun sessions => .countTrue fun s _ => ?_
    exact oblivious_detachClientSession realm s.id offline clientId
  exact .bind (hdetach false) fun _ => .bind (hdetach true) fun _ => .pure _

theorem oblivious_remove (r id : String) (offline : Bool) :
    Oblivious Remembering Disabled (remove r id offline) :=
  oblivious_forgetting (writes_delete r id offline)

theorem oblivious_removeByUser (r userId : String) :
    Oblivious Remembering Disabled (removeByUser r userId) := by
  refine .bind (Oblivious.query _) fun entities => .bind (Oblivious.query _) fun sessions => ?_
  exact .countTrue fun s _ => oblivious_remove r s.id s.offline

def Request.Recalls : Request α → Prop
  | findById .. => True
  | _ => False

theorem Request.oblivious (realm : Realm) {request : Request α} (h : ¬ request.Recalls) :
    Oblivious Remembering Disabled (request.perform realm) := by
  cases request with
  | findById id offline => exact absurd trivial h
  | create session => exact oblivious_create realm session
  | refresh id offline => exact oblivious_refresh realm id offline
  | update session => exact oblivious_update realm session
  | attachClientSession client id offline =>
    exact oblivious_attachClientSession realm client id offline
  | refreshClientSession client session =>
    exact oblivious_spared (spares_refreshClientSession realm client session)
  | detachClientSession id offline clientId =>
    exact oblivious_detachClientSession realm id offline clientId
  | detachClientEverywhere clientId => exact oblivious_detachClientEverywhere realm clientId
  | createOfflineCopy session => exact oblivious_create realm _
  | remove id offline => exact oblivious_remove realm.id id offline
  | removeByUser userId => exact oblivious_removeByUser realm.id userId
  | removeAll => exact oblivious_forgetting (writes_deleteAll realm.id)
  | findByUser | findByBrokerSession | findByBrokerUser | findByClient | countByClient
  | findClientSession | clientSessions => exact Oblivious.query _

abbrev Alike (d d' : Desk SessionCache) : Prop :=
  (Boundary.memory Remembering Disabled).shared d d'

theorem findById_eq (r id : String) (offline : Bool) (d : Desk SessionCache) :
    findById r id offline d =
      let cached := Work.cached whole ⟨r, entity id offline⟩ (load r id offline) d
      (cached.1.map (·.filter fun s => s.expiration.all (d.rows.now < ·)), cached.2) := by
  have hnow : (liftM Query.now : Work SessionCache Int) d = (.ok d.rows.now, d) := rfl
  rw [findById, Work.bind_of_ok hnow]
  cases hcached : Work.cached whole ⟨r, entity id offline⟩ (load r id offline) d with
  | mk result d' =>
    cases result with
    | ok answer =>
      rw [Work.bind_of_ok hcached]
      rfl
    | error e =>
      rw [Work.bind_of_error hcached]
      rfl

theorem Alike.findById (h : Alike d d') (r id : String) (offline : Bool) :
    Alike (UserSessions.findById r id offline d).2 (UserSessions.findById r id offline d').2 := by
  rw [findById_eq, findById_eq]
  exact Work.shared_cached (fun _ hc => hc) (fun _ _ _ hI hload => hI.remember hload) h

/-- The desk remembers a session that has not expired yet, but whose row has ended. -/
def Outlives (d : Desk SessionCache) (r e : String) (session : UserSession) : Prop :=
  d.held.find? ⟨r, e⟩ = some (some session) ∧ session.expiration.all (d.rows.now < ·) ∧
    loadEntity r e d.rows = .ok none

instance (d : Desk SessionCache) (r e : String) (session : UserSession) :
    Decidable (Outlives d r e session) := inferInstanceAs (Decidable (_ ∧ _ ∧ _))

theorem Alike.findById_of_outlives (h : Alike d d') (ho : Outlives d r (entity id offline) session) :
    (UserSessions.findById r id offline d).1 = .ok (some session) ∧
      (UserSessions.findById r id offline d').1 = .ok none := by
  obtain ⟨hfound, hexpiration, hload⟩ := ho
  have hload' : load r id offline d'.rows = .ok none := h.1 ▸ hload
  rw [findById_eq, findById_eq, Work.cached_found (p := whole) hfound,
    Work.cached_of_disabled (p := whole) h.2.2.2, hload']
  have hkept : (some session).filter (fun s => s.expiration.all (d.rows.now < ·)) = some session := by
    rw [Option.filter_some, if_pos hexpiration]
  exact ⟨congrArg Except.ok hkept, rfl⟩

theorem Alike.findById_of_not_outlives (h : Alike d d')
    (hnot : ∀ session, ¬ Outlives d r (entity id offline) session) :
    (UserSessions.findById r id offline d).1 = (UserSessions.findById r id offline d').1 := by
  have hcase : ∀ answer, d.held.find? ⟨r, entity id offline⟩ = some answer →
      (∀ session, answer = some session → ¬ Outlives d r (entity id offline) session) →
      (load r id offline d.rows).map (·.filter fun s => s.expiration.all (d.rows.now < ·)) =
        .ok (answer.filter fun s => s.expiration.all (d.rows.now < ·)) := by
    intro answer hfound hnot
    rcases (h.2.2.1.2 _ _ answer hfound).load with hload | ⟨hload, session, row, rfl, -⟩
    · rw [load, hload]
      rfl
    · -- The row has ended, so the session must have expired.
      have hexpired : ¬ session.expiration.all (d.rows.now < ·) = true := fun hexpiration =>
        hnot session rfl ⟨hfound, hexpiration, hload⟩
      rw [load, hload, Option.filter_some, if_neg hexpired]
      rfl
  rw [findById_eq, findById_eq, Work.cached_of_disabled (p := whole) h.2.2.2, ← h.1]
  cases hfound : d.held.find? ⟨r, entity id offline⟩ with
  | some answer =>
    rw [Work.cached_found (p := whole) hfound]
    exact (hcase answer hfound fun session _ => hnot session).symm
  | none =>
    exact congrArg (Except.map _) (Work.cached_of_none whole hfound _)

theorem Alike.last_second (h : Alike d d') (ho : Outlives d r e session) :
    ∃ expiration written, session.expiration = some expiration ∧ written ≤ d.rows.now ∧
      d.rows.now < expiration ∧ (expiration - written ≤ Lifetime.longest * 1000 →
        expiration - 1000 < d.rows.now) := by
  obtain ⟨hfound, hexpiration, hload⟩ := ho
  have hended : ∃ row, Ended d.rows (key r e).encode session row := by
    rcases (h.2.2.1.2 r e _ hfound).load with hsame | ⟨-, found, row, heq, hended⟩
    · rw [hload] at hsame
      cases hsame
    · obtain rfl := Option.some.inj heq
      exact ⟨row, hended⟩
  obtain ⟨row, hended⟩ := hended
  have hcell : (d.rows.table .userSessions).get? (key r e).encode = some (.row row) := by
    have hrow := hended.found
    rw [RowStore.row?] at hrow
    split at hrow
    · cases hrow
    · next cell hcell =>
      rw [hcell]
      cases cell with
      | row found => exact congrArg (some ∘ Cell.row) (Option.some.inj (Except.ok.inj hrow))
      | unreadable => cases hrow
  obtain ⟨expiration, written, hsome, hrange, hwritten, hdeadline⟩ :=
    h.2.2.1.1 _ row session hcell hended.read
  rw [hsome] at hexpiration
  refine ⟨expiration, written, hsome, hwritten, of_decide_eq_true hexpiration, fun hlong => ?_⟩
  have hdead := hended.dead
  simp only [Row.isLive, hdeadline, decide_eq_false_iff_not] at hdead
  have hlive : d.rows.now ≤ expiration - 1000 →
      d.rows.now < Lifetime.deadline (Lifetime.untilExpiration expiration written) written :=
    Lifetime.lt_deadline_of_le hrange hlong
  omega

theorem Alike.request (h : Alike d d') (realm : Realm) (request : Request α) :
    Alike (request.perform realm d).2 (request.perform realm d').2 := by
  by_cases hrecalls : request.Recalls
  · cases request with
    | findById id offline => exact h.findById realm.id id offline
    | _ => exact hrecalls.elim
  · exact (Request.oblivious realm hrecalls d d' h).2.1

open Alone (Event InRealm)

def run (d : Desk SessionCache) (events : List (Event (InRealm Request))) : Desk SessionCache :=
  Alone.run (fun request => request.2.perform request.1) d events

theorem Alike.run (h : Alike d d') (events : List (Event (InRealm Request))) :
    Alike (UserSessions.run d events) (UserSessions.run d' events) := by
  refine Alone.memory_run (fun request _ _ h => Alike.request h request.1 request.2) ?_ h events
  exact fun millis hI => hI.later (Int.le_add_of_nonneg_right (Int.natCast_nonneg millis))

theorem alike_unread {rows : RowStore} (h : AllDated rows) (draws : Draws) :
    Alike ⟨rows, draws, { enabled := true }⟩ ⟨rows, draws, { enabled := false }⟩ := by
  refine ⟨rfl, rfl, ⟨h, fun r e answer hanswer => ?_⟩, rfl⟩
  cases hanswer

/-- With and without a memory, a unit of work that has the store to itself leaves the same rows, draws
the same identifiers and gets the same answers, but that it still finds a remembered session whose row
has ended within the last second before the session expires. -/
theorem answers_agree_unless_outlived {rows : RowStore} (h : AllDated rows) (draws : Draws)
    (events : List (Event (InRealm Request))) :
    let d := run ⟨rows, draws, { enabled := true }⟩ events
    let d' := run ⟨rows, draws, { enabled := false }⟩ events
    d.rows = d'.rows ∧ d.draws = d'.draws ∧
      (∀ (realm : Realm) {α : Type} (request : Request α), ¬ request.Recalls →
        (request.perform realm d).1 = (request.perform realm d').1) ∧
      ∀ r id offline,
        ((∀ session, ¬ Outlives d r (entity id offline) session) →
          (findById r id offline d).1 = (findById r id offline d').1) ∧
        ∀ session, Outlives d r (entity id offline) session →
          (findById r id offline d).1 = .ok (some session) ∧
          (findById r id offline d').1 = .ok none ∧
          ∃ expiration written, session.expiration = some expiration ∧ written ≤ d.rows.now ∧
            d.rows.now < expiration ∧ (expiration - written ≤ Lifetime.longest * 1000 →
              expiration - 1000 < d.rows.now) := by
  intro d d'
  have hlike : Alike d d' := (alike_unread h draws).run events
  refine ⟨hlike.1, hlike.2.1, fun realm α request hrecalls => ?_, fun r id offline => ⟨?_, ?_⟩⟩
  · exact (Request.oblivious realm hrecalls d d' hlike).1
  · exact hlike.findById_of_not_outlives
  · intro session ho
    obtain ⟨hfound, hlost⟩ := hlike.findById_of_outlives ho
    exact ⟨hfound, hlost, hlike.last_second ho⟩

def start (enabled : Bool) : Desk SessionCache := ⟨.empty 0, { value := fun n => n }, { enabled }⟩

def lateWrite (millis : Nat) : List (Event (InRealm Request)) :=
  [.request ({ id := "r" }, .create { id := "s" }), .advance 500,
    .request ({ id := "r" }, .update { realmId := "r", id := "s", state := .loggedIn }),
    .request ({ id := "r" }, .findById "s" false), .advance millis]

/-- Its row ends half a second before the session expires. -/
theorem found_after_row_ended :
    (findById "r" "s" false (run (start true) (lateWrite 1799200))).1 ≠
      (findById "r" "s" false (run (start false) (lateWrite 1799200))).1 := by
  decide +kernel

theorem answers_agree_unless_outlived_by_half_a_second :
    let d := run (start true) (lateWrite 1798999)
    let d' := run (start false) (lateWrite 1798999)
    let later := run (start true) (lateWrite 1799000)
    let later' := run (start false) (lateWrite 1799000)
    (findById "r" "s" false d).1 = (findById "r" "s" false d').1 ∧
      ∃ session, Outlives later "r" (entity "s" false) session ∧
        (findById "r" "s" false later).1 = .ok (some session) ∧
        (findById "r" "s" false later').1 = .ok none := by
  intro d d' later later'
  let session : UserSession :=
    { realmId := "r", id := "s", state := .loggedIn, expiration := some 1800000 }
  have hstands : loadEntity "r" (entity "s" false) d.rows ≠ .ok none := by decide +kernel
  have hends : Outlives later "r" (entity "s" false) session := by decide +kernel
  have h := fun millis => answers_agree_unless_outlived (allDated_empty 0) { value := fun n => n }
    (lateWrite millis)
  obtain ⟨-, -, -, hagree⟩ := h 1798999
  obtain ⟨-, -, -, hdiffer⟩ := h 1799000
  obtain ⟨hfound, hlost, -⟩ := (hdiffer "r" "s" false).2 session hends
  exact ⟨(hagree "r" "s" false).1 fun _ ho => hstands ho.2.2, session, hends, hfound, hlost⟩

end IdentityDirectory.UserSessions
