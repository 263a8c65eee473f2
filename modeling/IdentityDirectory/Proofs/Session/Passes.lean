import IdentityDirectory.Proofs.Index.Extent
import IdentityDirectory.Proofs.Session.Calls
import IdentityDirectory.Proofs.Session.Listing

/-!
Passes over sessions of a realm, by way of the index rows that the pass itself changes. Main statements:
what is left once a client has been detached everywhere (`passed_detachEverywhere`) and once the
sessions of a user have been removed (`passed_removeByUser`).
-/

namespace IdentityDirectory.UserSessions

open AttributeIndex (userSessions)
open RowStore (ChangesOnly)
open Work (liftM_update_of_eq)

variable {s s' s'' : RowStore} {r e : String} {a : UserSession} {realm : Realm} {clientId : String}
  {d : Desk SessionCache} {which which' : UserSession → Prop} {named : UserSession → List String}
  {outcome : UserSession → Int → Option UserSession} {time : Int}

def OfSession (r e : String) (t : Table) (key : String) : Prop :=
  t = .userSessions ∧ key = (UserSessions.key r e).encode ∨ userSessions.OfEntity r e t key

def OfSessions (r : String) (which : UserSession → Prop) (named : UserSession → List String)
    (t : Table) (key : String) : Prop :=
  ∃ a, which a ∧ (OfSession r (entity a.id a.offline) t key ∨
    t = .clientSessions ∧ ∃ id ∈ named a, key = (clientSessionKey r id).encode)

theorem OfSessions.mono (hle : ∀ a, which a → which' a) {t : Table} {key : String}
    (h : OfSessions r which named t key) : OfSessions r which' named t key := by
  obtain ⟨a, ha, hkey⟩ := h
  exact ⟨a, hle a ha, hkey⟩

theorem ofEntity_index {t : Table} {key : String} (h : userSessions.OfEntity r e t key) :
    t ≠ .userSessions ∧ t ≠ .clientSessions := by
  rcases h with ⟨rfl, -⟩ | ⟨rfl, -⟩ <;> decide

structure Passed (r : String) (which : UserSession → Prop) (named : UserSession → List String)
    (outcome : UserSession → Int → Option UserSession) (s s' : RowStore) : Prop where
  changes : ChangesOnly (OfSessions r which named) s s'
  outcome : ∀ a, which a → ∀ time, sessionAt s' r (entity a.id a.offline) time = outcome a time
  dropped : ∀ a, which a → ∀ id ∈ named a,
    (s'.table .clientSessions).get? (clientSessionKey r id).encode = none

theorem Passed.sessionAt_of_ne (h : Passed r which named outcome s s')
    (hne : ∀ a, which a → e ≠ entity a.id a.offline) (time : Int) :
    sessionAt s' r e time = sessionAt s r e time := by
  have hcell : (s'.table .userSessions).get? (key r e).encode =
      (s.table .userSessions).get? (key r e).encode := by
    apply h.changes.cell
    rintro ⟨a, ha, (⟨-, hkey⟩ | hindex) | ⟨htable, -⟩⟩
    · exact hne a ha (encode_key_inj.mp hkey)
    · exact (ofEntity_index hindex).1 rfl
    · cases htable
  rw [sessionAt, sessionAt, RowStore.recordAt, RowStore.recordAt, RowStore.seen_of_get?_eq hcell]

theorem Passed.none (s : RowStore) : Passed r (fun _ => False) named outcome s s :=
  ⟨.refl s, fun _ h => h.elim, fun _ h => h.elim⟩

theorem Passed.trans (h : Passed r which named outcome s s')
    (h' : Passed r which' named outcome s' s'')
    (hne : ∀ a b, which a → which' b → entity a.id a.offline ≠ entity b.id b.offline) :
    Passed r (fun a => which a ∨ which' a) named outcome s s'' := by
  refine ⟨?_, fun a ha time => ?_, fun a ha id hid => ?_⟩
  · exact (h.changes.widen fun _ _ => OfSessions.mono fun _ => .inl).trans
      (h'.changes.widen fun _ _ => OfSessions.mono fun _ => .inr)
  · rcases ha with ha | ha
    · rw [h'.sessionAt_of_ne (fun b hb => hne a b ha hb)]
      exact h.outcome a ha time
    · exact h'.outcome a ha time
  · rcases ha with ha | ha
    · -- Another session may name the same client session.
      by_cases hagain : OfSessions r which' named .clientSessions (clientSessionKey r id).encode
      · obtain ⟨b, hb, (⟨htable, -⟩ | hindex) | ⟨-, id', hid', hkey⟩⟩ := hagain
        · cases htable
        · exact absurd rfl (ofEntity_index hindex).2
        · rw [hkey]
          exact h'.dropped b hb id' hid'
      · rw [h'.changes.cell hagain]
        exact h.dropped a ha id hid
    · exact h'.dropped a ha id hid

theorem Passed.congr (h : Passed r which named outcome s s') (hiff : ∀ a, which a ↔ which' a) :
    Passed r which' named outcome s s' := by
  obtain rfl : which = which' := funext fun a => propext (hiff a)
  exact h

theorem Live.eq {b : UserSession} (h : Live s r a) (h' : Live s r b)
    (heq : entity a.id a.offline = entity b.id b.offline) : a = b := by
  rw [Live, heq] at h
  exact Option.some.inj (h.symm.trans h')

theorem passed_countTrue {act : UserSession → Work SessionCache Bool} {l : List UserSession}
    (hstep : ∀ a ∈ l, ∀ d', Indexed d'.rows → d'.rows.now = d.rows.now → Live d'.rows r a →
      ∃ d'', act a d' = (.ok true, d'') ∧ Indexed d''.rows ∧
        Passed r (· = a) named outcome d'.rows d''.rows)
    (hindexed : Indexed d.rows) (hnodup : l.Nodup) (hlive : ∀ a ∈ l, Live d.rows r a) :
    ∃ d', Work.countTrue act l d = (.ok l.length, d') ∧ Indexed d'.rows ∧
      Passed r (· ∈ l) named outcome d.rows d'.rows := by
  induction l generalizing d with
  | nil => exact ⟨d, rfl, hindexed, .congr (.none d.rows) fun a => by simp⟩
  | cons a l ih =>
    obtain ⟨hnot, hnodup⟩ := List.nodup_cons.mp hnodup
    have ha := hlive a List.mem_cons_self
    obtain ⟨d', hact, hindexed', hpassed⟩ := hstep a List.mem_cons_self d hindexed rfl ha
    have hne : ∀ b ∈ l, entity b.id b.offline ≠ entity a.id a.offline := by
      rintro b hb heq
      have hsame := (hlive b (List.mem_cons_of_mem a hb)).eq ha heq
      exact hnot (hsame ▸ hb)
    have hlive' : ∀ b ∈ l, Live d'.rows r b := by
      intro b hb
      have hkept := hpassed.sessionAt_of_ne (e := entity b.id b.offline)
        (fun _ heq => heq ▸ hne b hb) d.rows.now
      rw [Live, hpassed.changes.now, hkept]
      exact hlive b (List.mem_cons_of_mem a hb)
    obtain ⟨d'', hrest, hindexed'', hpassed'⟩ := ih (d := d')
      (fun b hb e he hnow => hstep b (List.mem_cons_of_mem a hb) e he
        (hnow.trans hpassed.changes.now)) hindexed' hnodup hlive'
    refine ⟨d'', ?_, hindexed'', ?_⟩
    · rw [Work.countTrue, Work.bind_of_ok hact, Work.bind_of_ok hrest, Nat.add_comm]
      rfl
    · refine (hpassed.trans hpassed' fun b c hb hc => ?_).congr fun b => List.mem_cons.symm
      subst hb
      exact (hne c hc).symm

def clientSessionOf (clientId : String) (session : UserSession) : List String :=
  (session.clientSessions.get? clientId).toList

def without (clientId : String) (session : UserSession) : UserSession :=
  { session with clientSessions := session.clientSessions.erase clientId }

def detached (realm : Realm) (clientId : String) (now : Int) (session : UserSession) (time : Int) :
    Option UserSession :=
  let session := stamped realm (without clientId session)
  if Lifetime.lasts (Lifetime.of session now) now time then some session else none

theorem changesOnly_store {session : UserSession} :
    ChangesOnly (OfSession r (entity session.id session.offline)) s (store s r session) :=
  .trans (RowStore.changesOnly_write (.inl ⟨rfl, rfl⟩) _ _)
    (AttributeIndex.changesOnly_setEach.widen fun _ _ => .inr)

theorem passed_detach (h : Indexed d.rows) (hr : Plain realm.id) (hlive : Live d.rows realm.id a)
    (hclient : clientId ∈ a.clientSessions) :
    ∃ d', detachClientSession realm a.id a.offline clientId d = (.ok true, d') ∧ Indexed d'.rows ∧
      Passed realm.id (· = a) (clientSessionOf clientId) (detached realm clientId d.rows.now) d.rows
        d'.rows := by
  obtain ⟨id, hid⟩ := Option.isSome_iff_exists.mp (StringMap.mem_iff.mp hclient)
  let s := d.rows.remove .clientSessions (clientSessionKey realm.id id).encode
  let session := stamped realm (without clientId a)
  have hremoved := withinClients_remove d.rows (clientSessionKey realm.id id).encode
  have hload : (liftM (load realm.id a.id a.offline) : Work SessionCache _) d = (.ok (some a), d) := by
    rw [load_eq h.intact, show sessionAt d.rows realm.id _ d.rows.now = some a from hlive]
  have hdelete := liftM_update_of_eq (deleteClientSession_eq h.clients realm.id id)
  have hwrite := write_eq (d := { d with rows := s }) (h.intact.of_withinClients hremoved) realm
    (without clientId a)
  have hdetach : detachClientSession realm a.id a.offline clientId d =
      (.ok true, { d with rows := store s realm.id session, held := d.held.forget }) := by
    rw [detachClientSession, Work.bind_of_ok hload]
    dsimp only
    rw [hid]
    dsimp only
    rw [Work.bind_of_ok hdelete]
    exact Work.bind_of_ok hwrite _
  have hindexed : Indexed (detachClientSession realm a.id a.offline clientId d).2.rows :=
    (keeps_detach steady_indexed hr (h.placed realm.id _ a hr hlive).2 trivial clientId d h).1
  rw [hdetach] at hindexed
  have hnow : s.now = d.rows.now := hremoved.now
  have hentity : entity a.id a.offline = entity session.id session.offline := rfl
  refine ⟨_, hdetach, hindexed, ?_, ?_, ?_⟩
  · have hnamed : OfSessions realm.id (· = a) (clientSessionOf clientId) .clientSessions
        (clientSessionKey realm.id id).encode :=
      ⟨a, rfl, .inr ⟨rfl, id, by simp [clientSessionOf, hid], rfl⟩⟩
    have hdropped : ChangesOnly (OfSessions realm.id (· = a) (clientSessionOf clientId)) d.rows s :=
      RowStore.changesOnly_remove hnamed
    exact hdropped.trans (changesOnly_store.widen fun _ _ hkey => ⟨a, rfl, .inl hkey⟩)
  · rintro _ rfl time
    rw [sessionAt_store_same, if_pos hentity, hnow]
    rfl
  · rintro _ rfl id' hid'
    obtain rfl : id' = id := by simpa [clientSessionOf, hid, eq_comm] using hid'
    have hwithin : userSessions.Within _ (store s realm.id session) := AttributeIndex.within_setEach
    rw [table_ne_of_within hwithin (.inr rfl), s.table_write_of_ne (by decide)]
    exact RowStore.get?_remove_of_readable h.clients.readable _

theorem mem_naming_iff (h : Indexed s) (hr : Plain r) (hclient : NulFree clientId) {offline : Bool} :
    a ∈ matching s r clientAttribute clientId offline ↔
      Live s r a ∧ a.offline = offline ∧ clientId ∈ a.clientSessions := by
  rw [mem_matching_iff h hr (by decide) hclient,
    show valuesIn a clientAttribute = a.clientSessions.keys from rfl, StringMap.mem_keys_iff]

theorem passed_detachEach (h : Indexed d.rows) (hr : Plain realm.id) (hclient : NulFree clientId)
    (offline : Bool) : ∃ n d', (do
      let sessions ← findIndexed realm.id clientAttribute clientId offline
      Work.countTrue (fun s => detachClientSession realm s.id offline clientId) sessions :
        Work SessionCache Nat) d = (.ok n, d') ∧ Indexed d'.rows ∧
      Passed realm.id
        (fun a => Live d.rows realm.id a ∧ a.offline = offline ∧ clientId ∈ a.clientSessions)
        (clientSessionOf clientId) (detached realm clientId d.rows.now) d.rows d'.rows := by
  have hstep : ∀ a ∈ matching d.rows realm.id clientAttribute clientId offline,
      ∀ d' : Desk SessionCache, Indexed d'.rows → d'.rows.now = d.rows.now →
        Live d'.rows realm.id a → ∃ d'',
          detachClientSession realm a.id offline clientId d' = (.ok true, d'') ∧
            Indexed d''.rows ∧ Passed realm.id (· = a) (clientSessionOf clientId)
              (detached realm clientId d.rows.now) d'.rows d''.rows := by
    intro a ha d' hd' hnow hlive
    obtain ⟨-, rfl, hnamed⟩ := (mem_naming_iff h hr hclient).mp ha
    rw [← hnow]
    exact passed_detach hd' hr hlive hnamed
  obtain ⟨d', hcount, hindexed, hpassed⟩ := passed_countTrue hstep h
    (matching_nodup h hr (by decide) hclient) fun a ha => ((mem_naming_iff h hr hclient).mp ha).1
  have hfind : (liftM (findIndexed realm.id clientAttribute clientId offline) :
      Work SessionCache _) d =
        (.ok (matching d.rows realm.id clientAttribute clientId offline), d) := by
    rw [Work.liftM_query_apply, findIndexed_matching h]
  exact ⟨_, d', (Work.bind_of_ok hfind _).trans hcount, hindexed,
    hpassed.congr fun a => mem_naming_iff h hr hclient⟩

theorem entity_ne_of_offline {b : UserSession} (hid : Plain a.id) (hid' : Plain b.id)
    (ha : a.offline = false) (hb : b.offline = true) :
    entity b.id b.offline ≠ entity a.id a.offline := by
  rw [Ne, entity_inj hid' hid, ha, hb]
  exact fun heq => Bool.noConfusion heq.2

theorem passed_detachEverywhere (h : Indexed d.rows) (hr : Plain realm.id)
    (hclient : NulFree clientId) : ∃ n d', detachClientEverywhere realm clientId d = (.ok n, d') ∧
      Passed realm.id (fun a => Live d.rows realm.id a ∧ clientId ∈ a.clientSessions)
        (clientSessionOf clientId) (detached realm clientId d.rows.now) d.rows d'.rows := by
  -- The sessions that name a client are detached from it, those online before those offline.
  obtain ⟨n, d₁, hfirst, h₁, hpassed⟩ := passed_detachEach h hr hclient false
  obtain ⟨m, d₂, hsecond, -, hpassed'⟩ := passed_detachEach h₁ hr hclient true
  rw [hpassed.changes.now] at hpassed'
  have hplain : ∀ {s : RowStore} {a}, Indexed s → Live s realm.id a → Plain a.id :=
    fun hs hlive => (hs.placed realm.id _ _ hr hlive).2
  -- The sessions that are offline are still as they were.
  have hkept : ∀ b : UserSession, b.offline = true → Plain b.id →
      (Live d₁.rows realm.id b ↔ Live d.rows realm.id b) := by
    intro b hb hid
    rw [Live, Live, hpassed.changes.now, hpassed.sessionAt_of_ne]
    exact fun a ha => entity_ne_of_offline (hplain h ha.1) hid ha.2.1 hb
  refine ⟨n + m, d₂, ?_, (hpassed.trans hpassed' fun a b ha hb => ?_).congr fun a => ?_⟩
  · rw [detachClientEverywhere]
    exact (Work.bind_of_ok hfirst _).trans (Work.bind_of_ok hsecond _)
  · exact (entity_ne_of_offline (hplain h ha.1) (hplain h₁ hb.1) ha.2.1 hb.2.1).symm
  · constructor
    · rintro (⟨hlive, -, hnamed⟩ | ⟨hlive, hoffline, hnamed⟩)
      · exact ⟨hlive, hnamed⟩
      · exact ⟨(hkept a hoffline (hplain h₁ hlive)).mp hlive, hnamed⟩
    · rintro ⟨hlive, hnamed⟩
      cases hoffline : a.offline with
      | false => exact .inl ⟨hlive, rfl, hnamed⟩
      | true => exact .inr ⟨(hkept a hoffline (hplain h hlive)).mpr hlive, rfl, hnamed⟩

theorem changesOnly_dropClients {P : Table → String → Prop} {ids : List String}
    (h : ∀ id ∈ ids, P .clientSessions (clientSessionKey r id).encode) :
    ChangesOnly P s (dropClients s r ids) := by
  induction ids generalizing s with
  | nil => exact .refl s
  | cons id ids ih =>
    exact (RowStore.changesOnly_remove (h id List.mem_cons_self)).trans
      (ih fun id' hid => h id' (List.mem_cons_of_mem id hid))

theorem get?_dropClients {ids : List String} (hs : s.Readable .clientSessions) {id : String}
    (hid : id ∈ ids) :
    ((dropClients s r ids).table .clientSessions).get? (clientSessionKey r id).encode = none := by
  induction ids generalizing s with
  | nil => cases hid
  | cons first ids ih =>
    have hrest := fun hmem => ih (s := s.remove .clientSessions (clientSessionKey r first).encode)
      (hs.remove _) hmem
    by_cases hmem : id ∈ ids
    · exact hrest hmem
    · obtain rfl := (List.mem_cons.mp hid).resolve_right hmem
      have hchanges : ChangesOnly (fun _ key => ∃ id' ∈ ids, key = (clientSessionKey r id').encode)
          (s.remove .clientSessions (clientSessionKey r id).encode) (dropClients s r (id :: ids)) :=
        changesOnly_dropClients fun id' hid' => ⟨id', hid', rfl⟩
      rw [hchanges.cell]
      · exact RowStore.get?_remove_of_readable hs _
      · rintro ⟨id', hid', hkey⟩
        exact hmem (encode_key_inj.mp hkey ▸ hid')

theorem passed_remove (h : Indexed d.rows) (hr : Plain r) (hlive : Live d.rows r a) :
    ∃ d', remove r a.id a.offline d = (.ok true, d') ∧ Indexed d'.rows ∧
      Passed r (· = a) (·.clientSessions.values) (fun _ _ => none) d.rows d'.rows := by
  let e := entity a.id a.offline
  let s := d.rows.remove .userSessions (key r e).encode
  obtain ⟨s', heq⟩ : ∃ s', s' = userSessions.clearAll (dropClients s r a.clientSessions.values) r e :=
    ⟨_, rfl⟩
  have hdelete : delete r a.id a.offline d.rows = (.ok true, s') := by
    rw [delete_eq_clearAll h.intact, show sessionAt d.rows r _ d.rows.now = some a from hlive, heq]
    rfl
  have hremove : remove r a.id a.offline d = (.ok true, ⟨s', d.draws, d.held.forget⟩) := by
    have hinvalidate : invalidate d = (.ok (), { d with held := d.held.forget }) := rfl
    rw [remove, Work.bind_of_ok hinvalidate]
    exact liftM_update_of_eq (d := { d with held := d.held.forget }) hdelete
  have hindexed : Indexed (remove r a.id a.offline d).2.rows :=
    (keeps_remove steady_indexed hr (h.placed r _ a hr hlive).2 trivial d h).1
  rw [hremove] at hindexed
  have hdropped := withinClients_dropClients s r a.clientSessions.values
  have hcleared : userSessions.Within (dropClients s r a.clientSessions.values) s' :=
    heq ▸ AttributeIndex.within_clearAll
  refine ⟨_, hremove, hindexed, ?_, ?_, ?_⟩
  · have hrecord : ChangesOnly (OfSession r e) d.rows s :=
      RowStore.changesOnly_remove (.inl ⟨rfl, rfl⟩)
    have hclients : ChangesOnly (OfSessions r (· = a) (·.clientSessions.values)) s
        (dropClients s r a.clientSessions.values) :=
      changesOnly_dropClients fun id hid => ⟨a, rfl, .inr ⟨rfl, id, hid, rfl⟩⟩
    have hindex : ChangesOnly (OfSession r e) (dropClients s r a.clientSessions.values) s' :=
      heq ▸ AttributeIndex.changesOnly_clearAll.widen fun _ _ => .inr
    have hown : ∀ t key, OfSession r e t key → OfSessions r (· = a) (·.clientSessions.values) t key :=
      fun _ _ hkey => ⟨a, rfl, .inl hkey⟩
    exact ((hrecord.widen hown).trans hclients).trans (hindex.widen hown)
  · rintro _ rfl time
    rw [heq, sessionAt_erase_same hdropped, if_pos rfl]
  · rintro _ rfl id hid
    rw [table_ne_of_within hcleared (.inr rfl)]
    exact get?_dropClients (h.clients.remove _ _).readable hid

theorem passed_removeByUser {userId : String} (h : Indexed d.rows) (hr : Plain r)
    (huser : NulFree userId) : ∃ n d', removeByUser r userId d = (.ok n, d') ∧
      Passed r (fun a => Live d.rows r a ∧ a.userId = userId) (·.clientSessions.values)
        (fun _ _ => none) d.rows d'.rows := by
  have hmem : ∀ a, a ∈ holding d.rows r userAttribute userId ↔
      Live d.rows r a ∧ a.userId = userId := by
    intro a
    rw [mem_holding_iff h hr (by decide) huser,
      show valuesIn a userAttribute = [a.userId] from rfl, List.mem_singleton, eq_comm (a := userId)]
  have hstep : ∀ a ∈ holding d.rows r userAttribute userId, ∀ d' : Desk SessionCache,
      Indexed d'.rows → d'.rows.now = d.rows.now → Live d'.rows r a → ∃ d'',
        remove r a.id a.offline d' = (.ok true, d'') ∧ Indexed d''.rows ∧
          Passed r (· = a) (·.clientSessions.values) (fun _ _ => none) d'.rows d''.rows :=
    fun a _ d' hd' _ hlive => passed_remove hd' hr hlive
  obtain ⟨d', hcount, -, hpassed⟩ := passed_countTrue hstep h
    (holding_nodup h hr (by decide) huser) fun a ha => ((hmem a).mp ha).1
  have hfind : (liftM (userSessions.findBy r userAttribute userId) : Work SessionCache _) d =
      (.ok (userSessions.holders d.rows r userAttribute userId), d) := by
    rw [Work.liftM_query_apply, AttributeIndex.findBy_eq h.regular.sound]
  have hresolve : (liftM (resolve r (userSessions.holders d.rows r userAttribute userId)) :
      Work SessionCache _) d = (.ok (holding d.rows r userAttribute userId), d) := by
    rw [Work.liftM_query_apply, resolve_eq h]
    rfl
  refine ⟨(holding d.rows r userAttribute userId).length, d', ?_, hpassed.congr hmem⟩
  rw [removeByUser, Work.bind_of_ok hfind, Work.bind_of_ok hresolve]
  exact hcount

end IdentityDirectory.UserSessions
