import IdentityDirectory.Proofs.Session.Operations

/-!
Calls about single sessions of a realm, and what they do to the row of a session and to what is
remembered of it. Main statement: `Call.perform_of_writes`, a call that writes a session changes no
more of it than its last refresh and its client sessions.
-/

namespace IdentityDirectory.UserSessions

open AttributeIndex (userSessions)
open Work (liftM_update_of_eq)

variable {s s' : RowStore} {r e e' : String} {time : Int} {session : UserSession}

theorem encode_key_inj : (key r e).encode = (key r e').encode ↔ e = e' := by
  constructor
  · intro h
    have hchars := congrArg String.toList h
    rw [RowKey.toList_encode, RowKey.toList_encode] at hchars
    exact String.toList_inj.mp (List.cons.inj (List.append_cancel_left hchars)).2
  · rintro rfl
    rfl

theorem sessionAt_store_same : sessionAt (store s r session) r e time =
    if e = entity session.id session.offline then
      if Lifetime.lasts (Lifetime.of session s.now) s.now time then some session else none
    else sessionAt s r e time := by
  rw [store, sessionAt_congr (table_ne_of_within AttributeIndex.within_setEach (.inl rfl)),
    sessionAt, RowStore.recordAt_write]
  simp only [true_and, encode_key_inj]
  rfl

theorem sessionAt_erase_same
    (hw : WithinClients (s.remove .userSessions (key r e).encode) s') :
    sessionAt (userSessions.clearAll s' r e) r e' time =
      if e' = e then none else sessionAt s r e' time := by
  rw [sessionAt_congr (table_ne_of_within AttributeIndex.within_clearAll (.inl rfl)),
    sessionAt_congr (hw.table _ (by decide)), sessionAt, RowStore.recordAt_remove]
  simp only [true_and, encode_key_inj]
  rfl

inductive Call where
  | refresh (id : String) (offline : Bool)
  | attach (client : Client) (id : String) (offline : Bool)
  | detach (id : String) (offline : Bool) (clientId : String)
  | refreshClient (client : Client) (session : UserSession)
  | find (id : String) (offline : Bool)
  | remove (id : String) (offline : Bool)

namespace Call

def perform (realm : Realm) : Call → Work SessionCache Bool
  | refresh id offline => return (← UserSessions.refresh realm id offline).isSome
  | attach client id offline => return (← attachClientSession realm client id offline).isSome
  | detach id offline clientId => detachClientSession realm id offline clientId
  | refreshClient client session =>
    return (← (refreshClientSession realm client session : Update (Option ClientSession))).isSome
  | find id offline => return (← findById realm.id id offline).isSome
  | remove id offline => UserSessions.remove realm.id id offline

def writes : Call → Option String
  | refresh id offline | attach _ id offline | detach id offline _ => some (entity id offline)
  | refreshClient .. | find .. | remove .. => none

def refreshes : Call → Bool
  | refresh .. => true
  | attach .. | detach .. | refreshClient .. | find .. | remove .. => false

def removes : Call → Option String
  | remove id offline => some (entity id offline)
  | refresh .. | attach .. | detach .. | refreshClient .. | find .. => none

end Call

def stamped (realm : Realm) (session : UserSession) : UserSession :=
  { session with expiration := some (expirationOf realm session) }

variable {realm : Realm} {d d' : Desk SessionCache} {call : Call}

def Rewritten (realm : Realm) (e : String) (refreshes : Bool) (d d' : Desk SessionCache) : Prop :=
  ∃ session clientSessions s, sessionAt d.rows realm.id e d.rows.now = some session ∧
    WithinClients d.rows s ∧ d'.held = d.held.forget ∧
    d'.rows = store s realm.id (stamped realm { session with
      lastSessionRefresh := if refreshes then d.rows.now else session.lastSessionRefresh
      clientSessions })

theorem load_eq (h : Intact d.rows) (r id : String) (offline : Bool) :
    (liftM (load r id offline) : Work SessionCache _) d =
      (.ok (sessionAt d.rows r (entity id offline) d.rows.now), d) := by
  rw [Work.liftM_query_apply, load, loadEntity_eq h]

theorem write_eq (h : Intact d.rows) (realm : Realm) (session : UserSession) :
    write realm session d = (.ok (stamped realm session),
      { d with rows := store d.rows realm.id (stamped realm session), held := d.held.forget }) := by
  have hput := put_eq h realm session
  have hinvalidate : invalidate d = (.ok (), { d with held := d.held.forget }) := rfl
  rw [write, Work.bind_of_ok hinvalidate]
  exact liftM_update_of_eq (d := { d with held := d.held.forget }) hput

theorem exists_rewritten (h : Intact d.rows)
    (hfound : sessionAt d.rows realm.id e d.rows.now = some session)
    (hw : WithinClients d.rows s) (draws : Draws) (refreshes : Bool)
    (clientSessions : StringMap String) : ∃ written d', write realm { session with
        lastSessionRefresh := if refreshes then d.rows.now else session.lastSessionRefresh
        clientSessions } ⟨s, draws, d.held⟩ = (.ok written, d') ∧
      Rewritten realm e refreshes d d' :=
  ⟨_, _, write_eq (d := ⟨s, draws, d.held⟩) (h.of_withinClients hw) realm _, session,
    clientSessions, s, hfound, hw, rfl, rfl⟩

theorem refresh_cases (h : Intact d.rows) (realm : Realm) (id : String) (offline : Bool) :
    UserSessions.refresh realm id offline d = (.ok none, d) ∨
      ∃ session d', UserSessions.refresh realm id offline d = (.ok (some session), d') ∧
        Rewritten realm (entity id offline) true d d' := by
  rw [UserSessions.refresh, Work.bind_of_ok (load_eq h realm.id id offline)]
  cases hfound : sessionAt d.rows realm.id (entity id offline) d.rows.now with
  | none => exact .inl rfl
  | some session =>
    obtain ⟨written, d', hwrite, hrewritten⟩ :=
      exists_rewritten h hfound (.refl d.rows) d.draws true session.clientSessions
    have hnow : (liftM Query.now : Work SessionCache Int) d = (.ok d.rows.now, d) := rfl
    refine .inr ⟨written, d', ?_, hrewritten⟩
    dsimp only
    rw [Work.bind_of_ok hnow]
    exact Work.bind_of_ok hwrite _

theorem deletePrevious_eq (h : d.rows.Holds ClientSession .clientSessions) (r : String)
    (previous : Option String) : ∃ s,
      (previous.toList.forM fun id => (liftM (deleteClientSession r id) : Work SessionCache Unit)) d =
        (.ok (), { d with rows := s }) ∧ WithinClients d.rows s := by
  cases previous with
  | none => exact ⟨d.rows, rfl, .refl d.rows⟩
  | some id =>
    refine ⟨_, ?_, withinClients_remove d.rows (clientSessionKey r id).encode⟩
    exact Work.bind_of_ok (liftM_update_of_eq (deleteClientSession_eq h r id)) _

theorem attach_cases (h : Intact d.rows) (realm : Realm) (client : Client) (id : String)
    (offline : Bool) :
    attachClientSession realm client id offline d = (.ok none, d) ∨
      ∃ clientSession d', attachClientSession realm client id offline d =
          (.ok (some clientSession), d') ∧ Rewritten realm (entity id offline) false d d' := by
  rw [attachClientSession, Work.bind_of_ok (load_eq h realm.id id offline)]
  cases hfound : sessionAt d.rows realm.id (entity id offline) d.rows.now with
  | none => exact .inl rfl
  | some session =>
    let d₁ : Desk SessionCache := { d with draws := { d.draws with next := d.draws.next + 1 } }
    have hdrawn : Work.newId d = (.ok _, d₁) := rfl
    have hnow : (liftM Query.now : Work SessionCache Int) d₁ = (.ok d.rows.now, d₁) := rfl
    obtain ⟨clientSession, s₁, hput, hw⟩ := putClientSession_eq h realm client session
      { realmId := realm.id
        id := Identifier.hyphenated (d.draws.value d.draws.next)
        userSessionId := session.id
        clientId := client.id
        timestamp := d.rows.now
        offline := session.offline }
    obtain ⟨s₂, hdelete, hw'⟩ := deletePrevious_eq (d := { d₁ with rows := s₁ })
      (hw.clients h.clients) realm.id (session.clientSessions.get? client.id)
    obtain ⟨written, d', hwrite, hrewritten⟩ := exists_rewritten h hfound (hw.trans hw') d₁.draws false
      (session.clientSessions.insert client.id clientSession.id)
    refine .inr ⟨clientSession, d', ?_, hrewritten⟩
    dsimp only
    rw [Work.bind_of_ok hdrawn, Work.bind_of_ok hnow,
      Work.bind_of_ok (liftM_update_of_eq (d := d₁) hput), Work.bind_of_ok hdelete]
    exact Work.bind_of_ok hwrite _

theorem detach_cases (h : Intact d.rows) (realm : Realm) (id : String) (offline : Bool)
    (clientId : String) :
    detachClientSession realm id offline clientId d = (.ok false, d) ∨
      ∃ d', detachClientSession realm id offline clientId d = (.ok true, d') ∧
        Rewritten realm (entity id offline) false d d' := by
  rw [detachClientSession, Work.bind_of_ok (load_eq h realm.id id offline)]
  cases hfound : sessionAt d.rows realm.id (entity id offline) d.rows.now with
  | none => exact .inl rfl
  | some session =>
    dsimp only
    cases session.clientSessions.get? clientId with
    | none => exact .inl rfl
    | some clientSessionId =>
      have hdelete := deleteClientSession_eq h.clients realm.id clientSessionId
      obtain ⟨written, d', hwrite, hrewritten⟩ := exists_rewritten h hfound
        (withinClients_remove d.rows (clientSessionKey realm.id clientSessionId).encode) d.draws
        false (session.clientSessions.erase clientId)
      refine .inr ⟨d', ?_, hrewritten⟩
      dsimp only
      rw [Work.bind_of_ok (liftM_update_of_eq hdelete)]
      exact Work.bind_of_ok hwrite _

theorem Call.perform_of_writes (h : Intact d.rows) (realm : Realm) (hwrites : call.writes = some e) :
    call.perform realm d = (.ok false, d) ∨
      ∃ d', call.perform realm d = (.ok true, d') ∧ Rewritten realm e call.refreshes d d' := by
  cases call with
  | refresh id offline =>
    obtain rfl := Option.some.inj hwrites
    rcases refresh_cases h realm id offline with hnone | ⟨session, d', hsome, hrewritten⟩
    · exact .inl (Work.bind_of_ok hnone _)
    · exact .inr ⟨d', Work.bind_of_ok hsome _, hrewritten⟩
  | attach client id offline =>
    obtain rfl := Option.some.inj hwrites
    rcases attach_cases h realm client id offline with hnone | ⟨session, d', hsome, hrewritten⟩
    · exact .inl (Work.bind_of_ok hnone _)
    · exact .inr ⟨d', Work.bind_of_ok hsome _, hrewritten⟩
  | detach id offline clientId =>
    obtain rfl := Option.some.inj hwrites
    exact detach_cases h realm id offline clientId
  | refreshClient client session => cases hwrites
  | find id offline => cases hwrites
  | remove id offline => cases hwrites

def Removed (r e : String) (d d' : Desk SessionCache) : Prop :=
  ∃ s, WithinClients (d.rows.remove .userSessions (key r e).encode) s ∧
    d'.rows = userSessions.clearAll s r e ∧ d'.held = d.held.forget

theorem remove_eq (h : Intact d.rows) (r id : String) (offline : Bool) : ∃ found d',
    UserSessions.remove r id offline d = (.ok found, d') ∧ Removed r (entity id offline) d d' := by
  obtain ⟨found, s, hdelete, hw⟩ := delete_eq h r id offline
  refine ⟨found, ⟨userSessions.clearAll s r (entity id offline), d.draws, d.held.forget⟩, ?_, s, hw,
    rfl, rfl⟩
  have hinvalidate : invalidate d = (.ok (), { d with held := d.held.forget }) := rfl
  rw [UserSessions.remove, Work.bind_of_ok hinvalidate]
  exact liftM_update_of_eq (d := { d with held := d.held.forget }) hdelete

def Placed (s : RowStore) (r : String) : Prop :=
  ∀ e session, sessionAt s r e s.now = some session → e = entity session.id session.offline

theorem placed_empty (now : Int) (r : String) : Placed (.empty now) r := by
  intro e session hsome
  rw [sessionAt, RowStore.recordAt, RowStore.seen_empty] at hsome
  cases hsome

theorem Placed.store (hp : Placed s r) (session : UserSession) :
    Placed (store s r session) r := by
  intro e found hsome
  rw [sessionAt_store_same] at hsome
  split at hsome
  · next heq =>
    split at hsome
    · obtain rfl := Option.some.inj hsome
      exact heq
    · cases hsome
  · rw [now_store] at hsome
    exact hp e found hsome

theorem Placed.of_withinClients (hp : Placed s r) (hw : WithinClients s s') : Placed s' r := by
  intro e session hsome
  rw [sessionAt_congr (hw.table _ (by decide)), hw.now] at hsome
  exact hp e session hsome

namespace Rewritten

variable {refreshes : Bool} (hw : Rewritten realm e refreshes d d')
include hw

theorem now : d'.rows.now = d.rows.now := by
  obtain ⟨session, clientSessions, s, -, hclients, -, hrows⟩ := hw
  rw [hrows, now_store, hclients.now]

theorem intact (h : Intact d.rows) : Intact d'.rows := by
  obtain ⟨session, clientSessions, s, -, hclients, -, hrows⟩ := hw
  rw [hrows]
  exact (h.of_withinClients hclients).store _ _

theorem placed (hp : Placed d.rows realm.id) : Placed d'.rows realm.id := by
  obtain ⟨session, clientSessions, s, -, hclients, -, hrows⟩ := hw
  rw [hrows]
  exact (hp.of_withinClients hclients).store _

theorem forgotten (key : SessionLookup) : d'.held.find? key = none := by
  obtain ⟨session, clientSessions, s, -, -, hheld, -⟩ := hw
  rw [hheld, QueryCache.find?_forget]

theorem found (hp : Placed d.rows realm.id) :
    ∃ session clientSessions written, sessionAt d.rows realm.id e d.rows.now = some session ∧
      written = stamped realm { session with
        lastSessionRefresh := if refreshes then d.rows.now else session.lastSessionRefresh
        clientSessions } ∧
      ∀ e' time, sessionAt d'.rows realm.id e' time =
        if e' = e then
          if Lifetime.lasts (Lifetime.of written d.rows.now) d.rows.now time then some written
          else none
        else sessionAt d.rows realm.id e' time := by
  obtain ⟨session, clientSessions, s, hfound, hclients, -, hrows⟩ := hw
  refine ⟨session, clientSessions, _, hfound, rfl, fun e' time => ?_⟩
  obtain rfl := hp e session hfound
  rw [hrows, sessionAt_store_same, hclients.now, sessionAt_congr (hclients.table _ (by decide))]
  rfl

end Rewritten

namespace Removed

variable (hw : Removed r e d d')
include hw

theorem now : d'.rows.now = d.rows.now := by
  obtain ⟨s, hclients, hrows, -⟩ := hw
  rw [hrows, AttributeIndex.now_clearAll, hclients.now, RowStore.now_remove]

theorem intact (h : Intact d.rows) : Intact d'.rows := by
  obtain ⟨s, hclients, hrows, -⟩ := hw
  rw [hrows]
  exact h.erase hclients

theorem gone (e' : String) (time : Int) : sessionAt d'.rows r e' time =
    if e' = e then none else sessionAt d.rows r e' time := by
  obtain ⟨s, hclients, hrows, -⟩ := hw
  rw [hrows, sessionAt_erase_same hclients]

theorem placed (hp : Placed d.rows r) : Placed d'.rows r := by
  intro e' session hsome
  rw [gone hw, now hw] at hsome
  split at hsome
  · cases hsome
  · exact hp e' session hsome

theorem forgotten (key : SessionLookup) : d'.held.find? key = none := by
  obtain ⟨s, -, -, hheld⟩ := hw
  rw [hheld, QueryCache.find?_forget]

end Removed

theorem refreshClient_eq (h : Intact d.rows) (realm : Realm) (client : Client)
    (session : UserSession) : ∃ found d',
      (Call.refreshClient client session).perform realm d = (.ok found, d') ∧
        WithinClients d.rows d'.rows ∧ d'.held = d.held := by
  obtain ⟨found, s, hrefresh, hw⟩ := refreshClientSession_eq h realm client session
  exact ⟨found.isSome, ⟨s, d.draws, d.held⟩, Work.bind_of_ok (liftM_update_of_eq hrefresh) _, hw, rfl⟩

theorem findById_cases (h : Intact d.rows) (r id : String) (offline : Bool) :
    ∃ answer d', findById r id offline d =
        (.ok (answer.filter fun s => s.expiration.all (d.rows.now < ·)), d') ∧ d'.rows = d.rows ∧
      (d.held.find? ⟨r, entity id offline⟩ = some answer ∨
        answer = sessionAt d.rows r (entity id offline) d.rows.now) ∧
      ∀ key found, d'.held.find? key = some found → d.held.find? key = some found ∨
        key = ⟨r, entity id offline⟩ ∧ found = sessionAt d.rows r key.entity d.rows.now := by
  have hnow : (liftM Query.now : Work SessionCache Int) d = (.ok d.rows.now, d) := rfl
  have hload : load r id offline d.rows = .ok _ := loadEntity_eq h r (entity id offline)
  have hcached : ∃ answer,
      (Work.cached whole ⟨r, entity id offline⟩ (load r id offline) d).1 = .ok answer ∧
      (d.held.find? ⟨r, entity id offline⟩ = some answer ∨
        answer = sessionAt d.rows r (entity id offline) d.rows.now) := by
    cases hfind : d.held.find? ⟨r, entity id offline⟩ with
    | some answer => exact ⟨answer, Work.cached_of_some whole hfind _, .inl rfl⟩
    | none => exact ⟨_, (Work.cached_of_none whole hfind _).trans hload, .inr rfl⟩
  obtain ⟨answer, hanswer, hcase⟩ := hcached
  refine ⟨answer, (Work.cached whole ⟨r, entity id offline⟩ (load r id offline) d).2, ?_, rfl,
    hcase, ?_⟩
  · rw [findById, Work.bind_of_ok hnow, Work.bind_of_ok (Prod.ext hanswer rfl)]
    rfl
  · intro key found hfound
    rcases Work.find?_cached whole hfound with hold | ⟨rfl, hloaded⟩
    · exact .inl hold
    · exact .inr ⟨rfl, (Except.ok.inj (hload.symm.trans hloaded)).symm⟩

theorem create_eq {draft : UserSession} (h : Intact d.rows)
    (hcreate : create realm draft d = (.ok session, d')) :
    (∃ id, session = stamped realm { draft with
      id, realmId := realm.id, started := d.rows.now, lastSessionRefresh := d.rows.now }) ∧
    d'.rows = store d.rows realm.id session ∧ d'.held = d.held.forget := by
  have hnow : (liftM Query.now : Work SessionCache Int) d = (.ok d.rows.now, d) := rfl
  have hrest : ∀ id draws, (do
      if (← load realm.id id draft.offline).isSome then throw (.duplicateKey .userSession id)
      write realm { draft with
        id, realmId := realm.id, started := d.rows.now, lastSessionRefresh := d.rows.now } :
          Work SessionCache UserSession) ⟨d.rows, draws, d.held⟩ = (.ok session, d') →
      session = stamped realm { draft with
        id, realmId := realm.id, started := d.rows.now, lastSessionRefresh := d.rows.now } ∧
      d'.rows = store d.rows realm.id session ∧ d'.held = d.held.forget := by
    intro id draws hwritten
    rw [Work.bind_of_ok (load_eq (d := ⟨d.rows, draws, d.held⟩) h realm.id id draft.offline)]
      at hwritten
    dsimp only at hwritten
    split at hwritten
    · cases hwritten
    · rw [write_eq (d := ⟨d.rows, draws, d.held⟩) h, Prod.mk.injEq, Except.ok.injEq] at hwritten
      obtain ⟨rfl, rfl⟩ := hwritten
      exact ⟨rfl, rfl, rfl⟩
  rw [create, Work.bind_of_ok hnow] at hcreate
  split at hcreate
  · have hdrawn : Work.newId d = (.ok (Identifier.hyphenated (d.draws.value d.draws.next)),
        ⟨d.rows, { d.draws with next := d.draws.next + 1 }, d.held⟩) := rfl
    rw [Work.bind_of_ok hdrawn] at hcreate
    obtain ⟨hsession, hdesk⟩ := hrest _ _ hcreate
    exact ⟨⟨_, hsession⟩, hdesk⟩
  · have hgiven : (pure draft.id : Work SessionCache String) d = (.ok draft.id, d) := rfl
    rw [Work.bind_of_ok hgiven] at hcreate
    obtain ⟨hsession, hdesk⟩ := hrest draft.id d.draws hcreate
    exact ⟨⟨_, hsession⟩, hdesk⟩

end IdentityDirectory.UserSessions
