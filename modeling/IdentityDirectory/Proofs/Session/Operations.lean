import IdentityDirectory.Proofs.Session.Removal
import IdentityDirectory.Proofs.Work.World

/-!
Every operation on user sessions keeps what storing, removing and changes of client sessions keep.
Main statements: the equations `put_eq`, `delete_eq`, `deleteAll_eq`, and one `keeps_*` lemma for
each operation, collected in `Operation.keeps`.
-/

namespace IdentityDirectory.UserSessions

open AttributeIndex (userSessions)

variable {s : RowStore} {r : String}

theorem loadEntity_eq (h : Intact s) (r e : String) :
    loadEntity r e s = .ok (sessionAt s r e s.now) :=
  Query.record_eq h.sessions _

theorem resolve_eq (h : Indexed s) (r : String) (entities : List String) :
    resolve r entities s = .ok (entities.filterMap fun e => sessionAt s r e s.now) := by
  rw [resolve, Query.bind_of_ok (Query.mapM_of_ok fun e _ => loadEntity_eq h.intact r e)]
  rw [List.filterMap_map]
  rfl

theorem findIndexed_eq (h : Indexed s) (r name value : String) (offline : Bool) :
    findIndexed r name value offline s =
      .ok ((((userSessions.holders s r name value).filterMap fun e =>
        sessionAt s r e s.now).filter (·.offline = offline)).mergeSort startsBefore) := by
  rw [findIndexed, Query.bind_of_ok (AttributeIndex.findBy_eq h.regular.sound r name value),
    Query.bind_of_ok (resolve_eq h r _)]
  rfl

theorem put_eq (h : Intact s) (realm : Realm) (session : UserSession) :
    put realm session s =
      (.ok { session with expiration := some (expirationOf realm session) },
        store s realm.id { session with expiration := some (expirationOf realm session) }) := by
  let stored := { session with expiration := some (expirationOf realm session) }
  have hforM : ∀ s' lifetime, userSessions.Sound s' →
      ((indexed stored).forM fun e => userSessions.setAttribute realm.id
        (entity stored.id stored.offline) e.1 e.2 lifetime) s' =
        (.ok (), userSessions.setEach s' realm.id (entity stored.id stored.offline)
          (indexed stored) lifetime) := by
    intro s' lifetime hs'
    exact (Update.forM_of_ok (I := userSessions.Sound) (fun e _ s hs =>
      ⟨AttributeIndex.setAttribute_eq hs _ _ _ _ _, AttributeIndex.sound_set hs⟩) hs').1
  have hsound : userSessions.Sound (s.write .userSessions
      (key realm.id (entity stored.id stored.offline)).encode (Storable.payload stored)
      (Lifetime.of stored s.now)) :=
    h.index.congr (s.table_write_of_ne (by decide) _ _ _)
      (s.table_write_of_ne (by decide) _ _ _)
  rw [put, Update.bind_of_ok (Update.putExpirable_eq _ h.sessions.readable _)]
  exact Update.bind_of_ok (hforM _ _ hsound) _

theorem putClientSession_eq (h : Intact s) (realm : Realm) (client : Client)
    (session : UserSession) (clientSession : ClientSession) :
    ∃ stored s', putClientSession realm client session clientSession s = (.ok stored, s') ∧
      WithinClients s s' := by
  let stored := { clientSession with
    expiration := some (clientExpirationOf realm client session clientSession) }
  refine ⟨stored, s.write .clientSessions (clientSessionKey realm.id stored.id).encode
    (Storable.payload stored) (Lifetime.of stored s.now), ?_, withinClients_write s _ _ _⟩
  exact Update.bind_of_ok (Update.putExpirable_eq _ h.clients.readable stored) _

theorem refreshClientSession_eq (h : Intact s) (realm : Realm) (client : Client)
    (session : UserSession) :
    ∃ found s', refreshClientSession realm client session s = (.ok found, s') ∧
      WithinClients s s' := by
  have hfind : ∃ found, findClientSession realm.id session client.id s = .ok found := by
    rw [findClientSession]
    cases session.clientSessions.get? client.id with
    | none => exact ⟨none, rfl⟩
    | some id => exact ⟨_, Query.record_eq h.clients _⟩
  obtain ⟨found, hfound⟩ := hfind
  rw [refreshClientSession, Update.bind_liftM_of_ok hfound]
  cases found with
  | none => exact ⟨none, s, rfl, .refl s⟩
  | some clientSession =>
    obtain ⟨stored, s', hput, hw⟩ := putClientSession_eq h realm client session
      { clientSession with timestamp := s.now }
    refine ⟨some stored, s', ?_, hw⟩
    dsimp only
    rw [Update.bind_liftM_of_ok (Query.now_apply s)]
    exact Update.bind_of_ok hput _

theorem deleteClientSession_eq (h : s.Holds ClientSession .clientSessions) (r id : String) :
    deleteClientSession r id s =
      (.ok (), s.remove .clientSessions (clientSessionKey r id).encode) :=
  Update.discard_of_ok (Update.delete_eq _ h.readable)

theorem deleteClientSessions_eq (h : s.Holds ClientSession .clientSessions) (r : String)
    (ids : List String) :
    ids.forM (deleteClientSession r) s = (.ok (), dropClients s r ids) :=
  (Update.forM_of_ok (I := fun s => s.Holds ClientSession .clientSessions)
    (fun id _ _ hs => ⟨deleteClientSession_eq hs r id, hs.remove _ _⟩) h).1

def clientsOf (found : Option UserSession) : List String :=
  found.elim [] (·.clientSessions.values)

theorem delete_eq_clearAll (h : Intact s) (r id : String) (offline : Bool) :
    delete r id offline s = (.ok (sessionAt s r (entity id offline) s.now).isSome,
      userSessions.clearAll (dropClients (s.remove .userSessions (key r (entity id offline)).encode) r
        (clientsOf (sessionAt s r (entity id offline) s.now))) r (entity id offline)) := by
  have hsound : userSessions.Sound
      (s.remove .userSessions (key r (entity id offline)).encode) := h.index.remove _ _
  rw [delete, Update.bind_of_ok (Update.take_eq _ h.sessions.readable), sessionAt, RowStore.recordAt,
    RowStore.seen]
  cases htaken : (s.rowAt .userSessions (key r (entity id offline)).encode).filter
      (·.isLive s.now) with
  | none => exact Update.bind_of_ok (AttributeIndex.removeAttributesOf_eq hsound _ _) _
  | some row =>
    obtain ⟨session, hpayload⟩ := h.sessions.payloads _ row (Option.filter_eq_some_iff.mp htaken).1
    have hread : (Query.ofRows fun _ => row.read : Query UserSession)
        (s.remove .userSessions (key r (entity id offline)).encode) = .ok session := by
      apply Query.ofRows_of_ok
      simp only [Row.read, hpayload, Storable.ofPayload?_payload]
    have hclients := deleteClientSessions_eq
      (s := s.remove .userSessions (key r (entity id offline)).encode) (h.clients.remove _ _) r
      session.clientSessions.values
    have hw := withinClients_dropClients
      (s.remove .userSessions (key r (entity id offline)).encode) r session.clientSessions.values
    have hsound' : userSessions.Sound (dropClients _ r session.clientSessions.values) :=
      hsound.congr (hw.table _ (by decide)) (hw.table _ (by decide))
    have hfound : Storable.ofPayload? row.payload = some session := by
      rw [hpayload, Storable.ofPayload?_payload]
    dsimp only
    rw [Update.bind_liftM_of_ok hread, Update.bind_of_ok hclients,
      Update.bind_of_ok (AttributeIndex.removeAttributesOf_eq hsound' _ _), Option.map_some,
      Option.bind_some, hfound]
    rfl

theorem delete_eq (h : Intact s) (r id : String) (offline : Bool) :
    ∃ found s', delete r id offline s =
        (.ok found, userSessions.clearAll s' r (entity id offline)) ∧
      WithinClients (s.remove .userSessions (key r (entity id offline)).encode) s' :=
  ⟨_, _, delete_eq_clearAll h r id offline, withinClients_dropClients _ r _⟩

theorem deleteAll_eq (h : Indexed s) (r : String) :
    deleteAll r s = (.ok (s.scan .userSessions r).length,
      eraseAll s r ((s.scan .userSessions r).map (·.1.clustering))) := by
  have hforM := AttributeIndex.removeAttributesOf_forM_eq h.regular.sound r
    (fun e : RowKey × Row => e.1.clustering) (s.scan .userSessions r)
  have hw : userSessions.Within s
      (userSessions.clearEach s r ((s.scan .userSessions r).map (·.1.clustering))) :=
    AttributeIndex.within_clearEach
  have hsessions : RowStore.Readable _ .userSessions :=
    (RowStore.readable_congr (table_ne_of_within hw (.inl rfl))).mpr h.sessions.readable
  have hclients : RowStore.Readable _ .clientSessions :=
    (RowStore.readable_congr (table_ne_of_within hw (.inr rfl))).mpr h.clients.readable
  rw [deleteAll, Update.bind_liftM_of_ok (Query.scanPartition_eq h.sessions.readable r),
    Update.bind_of_ok hforM, Update.bind_of_ok (Update.deletePartition_eq hsessions r),
    Update.bind_of_ok (Update.deletePartition_eq (hclients.removePartition _) r)]
  rfl

structure Steady (I : RowStore → Prop) (admits : Bool → Prop) : Prop where
  indexed : ∀ s, I s → Indexed s
  store : ∀ s r session, I s → Plain r → Sane session → admits session.offline →
    I (store s r session)
  erase : ∀ s s' r id offline, I s → Plain r → Plain id → admits offline →
    WithinClients (s.remove .userSessions (key r (entity id offline)).encode) s' →
    I (userSessions.clearAll s' r (entity id offline))
  eraseAll : (∀ offline, admits offline) → ∀ s r, I s → Plain r →
    I (eraseAll s r ((s.scan .userSessions r).map (·.1.clustering)))
  clients : ∀ s s', I s → WithinClients s s' → I s'

variable {I : RowStore → Prop} {admits : Bool → Prop} {σ : Type} {realm : Realm} {id : String}
  {offline : Bool} {session : UserSession}

theorem keeps_load (h : Steady I admits) (hr : Plain r) (hid : Plain id) (offline : Bool) :
    Work.Keeps I (liftM (load r id offline) : Work σ (Option UserSession)) fun found =>
      ∀ session ∈ found, session.id = id ∧ session.offline = offline ∧ Sane session := by
  refine .query fun s hs found hfound session hmem => ?_
  rw [load, loadEntity_eq (h.indexed s hs).intact] at hfound
  obtain rfl := Except.ok.inj hfound
  have hplaced := (h.indexed s hs).placed r _ session hr hmem
  obtain ⟨hid', hoffline⟩ := (entity_inj hid hplaced.2).mp hplaced.1
  exact ⟨hid'.symm, hoffline.symm, (h.indexed s hs).sane hr hmem⟩

theorem keeps_write (h : Steady I admits) (hr : Plain realm.id) (hsane : Sane session)
    (hadmits : admits session.offline) :
    Work.Keeps I (write realm session) fun _ => True := by
  refine Work.Keeps.bind (Work.Keeps.modifyHeld _) fun _ _ => .update fun s hs => ?_
  rw [put_eq (h.indexed s hs).intact]
  exact ⟨h.store s realm.id _ hs hr hsane hadmits, fun _ _ => trivial⟩

theorem keeps_deleteClientSession (h : Steady I admits) (r id : String) :
    Work.Keeps I (liftM (deleteClientSession r id) : Work σ Unit) fun _ => True := by
  refine .update fun s hs => ?_
  rw [deleteClientSession_eq (h.indexed s hs).clients]
  exact ⟨h.clients s _ hs (withinClients_remove s _), fun _ _ => trivial⟩

theorem keeps_now : Work.Keeps I (liftM Query.now : Work σ Int) fun _ => True :=
  .query fun _ _ _ _ => trivial

theorem keeps_newId : Work.Keeps I (Work.newId : Work σ String) Plain := by
  refine fun d hd => ⟨hd, fun a ha => ?_⟩
  obtain rfl := Except.ok.inj ha
  exact Identifier.hyphenated_plain _

theorem keeps_create (h : Steady I admits) (hr : Plain realm.id) (hsane : Sane session)
    (hadmits : admits session.offline) :
    Work.Keeps I (create realm session) fun _ => True := by
  refine Work.Keeps.bind keeps_now fun now _ => ?_
  have hrest : ∀ id, Plain id → Work.Keeps I (do
      if (← load realm.id id session.offline).isSome then throw (.duplicateKey .userSession id)
      write realm { session with
        id, realmId := realm.id, started := now, lastSessionRefresh := now }) fun _ => True := by
    intro id hid
    refine Work.Keeps.bind (keeps_load h hr hid _) fun found _ => ?_
    have hwrite : Work.Keeps I (write realm { session with
        id, realmId := realm.id, started := now, lastSessionRefresh := now }) fun _ => True := by
      apply keeps_write h hr
      · exact ⟨hid, hsane.2⟩
      · exact hadmits
    split
    · exact Work.Keeps.bind (Q := fun _ => True) (.throw _) fun _ _ => hwrite
    · exact hwrite
  dsimp only
  split
  · exact Work.Keeps.bind keeps_newId hrest
  · exact Work.Keeps.bind (.pure hsane.1) hrest

theorem keeps_refresh (h : Steady I admits) (hr : Plain realm.id) (hid : Plain id)
    (hadmits : admits offline) : Work.Keeps I (refresh realm id offline) fun _ => True := by
  refine Work.Keeps.bind (keeps_load h hr hid _) fun found hfound => ?_
  cases found with
  | none => exact .pure trivial
  | some session =>
    obtain ⟨-, rfl, hsane⟩ := hfound session rfl
    refine Work.Keeps.bind keeps_now fun now _ => ?_
    have hwrite : Work.Keeps I (write realm { session with lastSessionRefresh := now })
        fun _ => True := by
      apply keeps_write h hr
      · exact hsane
      · exact hadmits
    exact hwrite.map fun _ _ => trivial

theorem keeps_update (h : Steady I admits) (hr : Plain realm.id) (hsane : Sane session)
    (hadmits : admits session.offline) :
    Work.Keeps I (update realm session) fun _ => True := by
  refine Work.Keeps.bind (keeps_load h hr hsane.1 _) fun found _ => ?_
  split
  · exact .pure trivial
  · exact Work.Keeps.bind (keeps_write h hr hsane hadmits) fun _ _ => .pure trivial

theorem Sane.withClients {m : StringMap String} (h : Sane session)
    (hm : ∀ k ∈ m.keys, NulFree k) : Sane { session with clientSessions := m } := by
  refine ⟨h.1, fun e he v hv => ?_⟩
  simp only [indexed, List.mem_cons, List.not_mem_nil, or_false] at he
  rcases he with rfl | rfl | rfl | rfl
  · exact h.2 (userAttribute, [session.userId]) (by simp [indexed]) v hv
  · exact h.2 (brokerSessionAttribute, session.brokerSessionId.toList) (by simp [indexed]) v hv
  · exact h.2 (brokerUserAttribute, session.brokerUserId.toList) (by simp [indexed]) v hv
  · exact hm v hv

theorem Sane.nulFree_keys (h : Sane session) : ∀ k ∈ session.clientSessions.keys, NulFree k :=
  h.2 (clientAttribute, session.clientSessions.keys) (by simp [indexed])

theorem Sane.insertClient {clientId : String} (h : Sane session) (hc : NulFree clientId)
    (v : String) :
    Sane { session with clientSessions := session.clientSessions.insert clientId v } := by
  refine h.withClients fun k hk => ?_
  obtain ⟨e, he, rfl⟩ := List.mem_map.mp hk
  rcases StringMap.mem_insertEntry he with rfl | he
  · exact hc
  · exact h.nulFree_keys e.1 (List.mem_map.mpr ⟨e, he, rfl⟩)

theorem Sane.eraseClient (h : Sane session) (clientId : String) :
    Sane { session with clientSessions := session.clientSessions.erase clientId } := by
  refine h.withClients fun k hk => ?_
  obtain ⟨e, he, rfl⟩ := List.mem_map.mp hk
  exact h.nulFree_keys e.1 (List.mem_map.mpr ⟨e, (List.mem_filter.mp he).1, rfl⟩)

theorem keeps_putClientSession (h : Steady I admits) (realm : Realm) (client : Client)
    (session : UserSession) (clientSession : ClientSession) :
    Work.Keeps I (liftM (putClientSession realm client session clientSession) :
      Work σ ClientSession) fun _ => True := by
  refine .update fun s hs => ?_
  obtain ⟨stored, s', heq, hw⟩ := putClientSession_eq (h.indexed s hs).intact realm client session
    clientSession
  rw [heq]
  exact ⟨h.clients s s' hs hw, fun _ _ => trivial⟩

theorem keeps_attach {client : Client} (h : Steady I admits) (hr : Plain realm.id)
    (hc : NulFree client.id) (hid : Plain id) (hadmits : admits offline) :
    Work.Keeps I (attachClientSession realm client id offline) fun _ => True := by
  refine Work.Keeps.bind (keeps_load h hr hid _) fun found hfound => ?_
  cases found with
  | none => exact .pure trivial
  | some session =>
    obtain ⟨-, rfl, hsane⟩ := hfound session rfl
    refine Work.Keeps.bind keeps_newId fun fresh _ => ?_
    refine Work.Keeps.bind keeps_now fun now _ => ?_
    refine Work.Keeps.bind (keeps_putClientSession h _ _ _ _) fun clientSession _ => ?_
    refine Work.Keeps.bind (.forM fun previous _ => keeps_deleteClientSession h _ _) fun _ _ => ?_
    have hwrite : Work.Keeps I (write realm { session with
        clientSessions := session.clientSessions.insert client.id clientSession.id })
        fun _ => True := by
      apply keeps_write h hr
      · exact hsane.insertClient hc _
      · exact hadmits
    exact Work.Keeps.bind hwrite fun _ _ => .pure trivial

theorem keeps_detach (h : Steady I admits) (hr : Plain realm.id) (hid : Plain id)
    (hadmits : admits offline) (clientId : String) :
    Work.Keeps I (detachClientSession realm id offline clientId) fun _ => True := by
  refine Work.Keeps.bind (keeps_load h hr hid _) fun found hfound => ?_
  cases found with
  | none => exact .pure trivial
  | some session =>
    obtain ⟨-, rfl, hsane⟩ := hfound session rfl
    dsimp only
    split
    · exact .pure trivial
    · refine Work.Keeps.bind (keeps_deleteClientSession h _ _) fun _ _ => ?_
      have hwrite : Work.Keeps I (write realm { session with
          clientSessions := session.clientSessions.erase clientId }) fun _ => True := by
        apply keeps_write h hr
        · exact hsane.eraseClient clientId
        · exact hadmits
      exact Work.Keeps.bind hwrite fun _ _ => .pure trivial

theorem keeps_refreshClient {client : Client} (h : Steady I admits) (session : UserSession) :
    Work.Keeps I (liftM (refreshClientSession realm client session) :
      Work σ (Option ClientSession)) fun _ => True := by
  refine .update fun s hs => ?_
  obtain ⟨found, s', heq, hw⟩ := refreshClientSession_eq (h.indexed s hs).intact realm client session
  rw [heq]
  exact ⟨h.clients s s' hs hw, fun _ _ => trivial⟩

theorem keeps_resolve (h : Steady I admits) (hr : Plain r) (entities : List String) :
    Work.Keeps I (liftM (resolve r entities) : Work σ (List UserSession)) fun found =>
      ∀ session ∈ found, Sane session := by
  refine .query fun s hs found hfound session hmem => ?_
  rw [resolve_eq (h.indexed s hs)] at hfound
  obtain rfl := Except.ok.inj hfound
  obtain ⟨e, -, hsome⟩ := List.mem_filterMap.mp hmem
  exact (h.indexed s hs).sane hr hsome

theorem keeps_findIndexed (h : Steady I admits) (hr : Plain r) (name value : String)
    (offline : Bool) :
    Work.Keeps I (liftM (findIndexed r name value offline) : Work σ (List UserSession))
      fun found => ∀ session ∈ found, Sane session := by
  refine .query fun s hs found hfound session hmem => ?_
  rw [findIndexed_eq (h.indexed s hs)] at hfound
  obtain rfl := Except.ok.inj hfound
  rw [List.mem_mergeSort, List.mem_filter] at hmem
  obtain ⟨e, -, hsome⟩ := List.mem_filterMap.mp hmem.1
  exact (h.indexed s hs).sane hr hsome

theorem keeps_detachEverywhere (h : Steady I admits) (hr : Plain realm.id)
    (hadmits : ∀ offline, admits offline) (clientId : String) :
    Work.Keeps I (detachClientEverywhere realm clientId) fun _ => True := by
  have hdetach : ∀ offline, Work.Keeps I (do
      let sessions ← findIndexed realm.id clientAttribute clientId offline
      Work.countTrue (fun s => detachClientSession realm s.id offline clientId) sessions)
      fun _ => True := by
    intro offline
    refine Work.Keeps.bind (keeps_findIndexed h hr _ _ _) fun sessions hsane => ?_
    exact .countTrue fun session hmem =>
      keeps_detach h hr (hsane session hmem).1 (hadmits offline) clientId
  refine Work.Keeps.bind (hdetach false) fun _ _ => ?_
  exact Work.Keeps.bind (hdetach true) fun _ _ => .pure trivial

theorem keeps_remove (h : Steady I admits) (hr : Plain r) (hid : Plain id)
    (hadmits : admits offline) : Work.Keeps I (remove r id offline) fun _ => True := by
  refine Work.Keeps.bind (.modifyHeld _) fun _ _ => .update fun s hs => ?_
  obtain ⟨found, s', heq, hw⟩ := delete_eq (h.indexed s hs).intact r id offline
  rw [heq]
  exact ⟨h.erase s s' r id offline hs hr hid hadmits hw, fun _ _ => trivial⟩

theorem keeps_removeByUser (h : Steady I admits) (hr : Plain r)
    (hadmits : ∀ offline, admits offline) (userId : String) :
    Work.Keeps I (removeByUser r userId) fun _ => True := by
  refine Work.Keeps.bind (Q := fun _ => True) (.query fun _ _ _ _ => trivial) fun entities _ => ?_
  refine Work.Keeps.bind (keeps_resolve h hr entities) fun sessions hsane => ?_
  exact .countTrue fun session hmem => keeps_remove h hr (hsane session hmem).1 (hadmits _)

theorem keeps_removeAll (h : Steady I admits) (hr : Plain r) (hadmits : ∀ offline, admits offline) :
    Work.Keeps I (removeAll r) fun _ => True := by
  have hdelete : Work.Keeps I (liftM (deleteAll r) : Work SessionCache Nat) fun _ => True := by
    refine .update fun s hs => ?_
    rw [deleteAll_eq (h.indexed s hs)]
    dsimp only
    exact ⟨h.eraseAll hadmits s r hs hr, fun _ _ => trivial⟩
  exact Work.Keeps.bind (.modifyHeld _) fun _ _ => hdelete

inductive Operation where
  | create (realm : Realm) (session : UserSession)
  | refresh (realm : Realm) (id : String) (offline : Bool)
  | update (realm : Realm) (session : UserSession)
  | attach (realm : Realm) (client : Client) (id : String) (offline : Bool)
  | refreshClient (realm : Realm) (client : Client) (session : UserSession)
  | detach (realm : Realm) (id : String) (offline : Bool) (clientId : String)
  | detachEverywhere (realm : Realm) (clientId : String)
  | createOfflineCopy (realm : Realm) (session : UserSession)
  | remove (realmId id : String) (offline : Bool)
  | removeByUser (realmId userId : String)
  | removeAll (realmId : String)

namespace Operation

def act : Operation → Work SessionCache Unit
  | create realm session => discard (UserSessions.create realm session)
  | refresh realm id offline => discard (UserSessions.refresh realm id offline)
  | update realm session => discard (UserSessions.update realm session)
  | attach realm client id offline => discard (attachClientSession realm client id offline)
  | refreshClient realm client session => discard
      (refreshClientSession realm client session : Update (Option ClientSession))
  | detach realm id offline clientId => discard (detachClientSession realm id offline clientId)
  | detachEverywhere realm clientId => discard (detachClientEverywhere realm clientId)
  | createOfflineCopy realm session => discard (UserSessions.createOfflineCopy realm session)
  | remove realmId id offline => discard (UserSessions.remove realmId id offline)
  | removeByUser realmId userId => discard (UserSessions.removeByUser realmId userId)
  | removeAll realmId => discard (UserSessions.removeAll realmId)

def perform (op : Operation) : Work UnitOfWork Unit := Work.on UnitOfWork.userSessionsPart op.act

def WellFormed : Operation → Prop
  | create realm session | update realm session | createOfflineCopy realm session =>
    Plain realm.id ∧ Sane session
  | refresh realm id _ | detach realm id _ _ => Plain realm.id ∧ Plain id
  | attach realm client id _ => Plain realm.id ∧ Plain id ∧ NulFree client.id
  | refreshClient .. => True
  | detachEverywhere realm _ => Plain realm.id
  | remove realmId id _ => Plain realmId ∧ Plain id
  | removeByUser realmId _ | removeAll realmId => Plain realmId

instance : (op : Operation) → Decidable op.WellFormed
  | create .. | update .. | createOfflineCopy .. | refresh .. | detach .. | remove .. =>
    inferInstanceAs (Decidable (_ ∧ _))
  | attach .. => inferInstanceAs (Decidable (_ ∧ _ ∧ _))
  | refreshClient .. => inferInstanceAs (Decidable True)
  | detachEverywhere .. | removeByUser .. | removeAll _ => inferInstanceAs (Decidable (Plain _))

def Reaches : Operation → Bool → Prop
  | create _ session, offline | update _ session, offline => offline = session.offline
  | refresh _ _ flag, offline | attach _ _ _ flag, offline | detach _ _ flag _, offline
  | remove _ _ flag, offline => offline = flag
  | createOfflineCopy .., offline => offline = true
  | refreshClient .., _ => False
  | detachEverywhere .., _ | removeByUser .., _ | removeAll _, _ => True

theorem keeps {op : Operation} (h : Steady I admits) (hw : op.WellFormed)
    (hadmits : ∀ offline, op.Reaches offline → admits offline) :
    Work.Keeps I op.perform fun _ => True := by
  refine .on ?_
  cases op with
  | create realm session => exact (keeps_create h hw.1 hw.2 (hadmits _ rfl)).discard
  | refresh realm id offline => exact (keeps_refresh h hw.1 hw.2 (hadmits _ rfl)).discard
  | update realm session => exact (keeps_update h hw.1 hw.2 (hadmits _ rfl)).discard
  | attach realm client id offline =>
    exact (keeps_attach h hw.1 hw.2.2 hw.2.1 (hadmits _ rfl)).discard
  | refreshClient realm client session => exact (keeps_refreshClient h session).discard
  | detach realm id offline clientId =>
    exact (keeps_detach h hw.1 hw.2 (hadmits _ rfl) clientId).discard
  | detachEverywhere realm clientId =>
    exact (keeps_detachEverywhere h hw (fun _ => hadmits _ trivial) clientId).discard
  | createOfflineCopy realm session =>
    have hoffline : Sane { session with offline := true } := hw.2
    have hsane : Sane { session with offline := true, clientSessions := ∅ } :=
      hoffline.withClients fun _ hk => by cases hk
    exact (keeps_create h hw.1 hsane (hadmits _ rfl)).discard
  | remove realmId id offline => exact (keeps_remove h hw.1 hw.2 (hadmits _ rfl)).discard
  | removeByUser realmId userId =>
    exact (keeps_removeByUser h hw (fun _ => hadmits _ trivial) userId).discard
  | removeAll realmId => exact (keeps_removeAll h hw fun _ => hadmits _ trivial).discard

end Operation

end IdentityDirectory.UserSessions
