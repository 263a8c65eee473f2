import IdentityDirectory.Proofs.Index.Regular
import IdentityDirectory.Session.Repository

/-!
The rows of user sessions. A session and its index rows are written with one lifetime, so they end
at the same instant. Main statements: `Indexed`, the invariant that ties them together, and `Indexed.store`.
-/

namespace IdentityDirectory.UserSessions

def attributeNames : List String :=
  [userAttribute, brokerSessionAttribute, brokerUserAttribute, clientAttribute]

theorem attributeNames_plain : ∀ name, name ∈ attributeNames → Plain name := by
  decide

theorem distinguishes_attributeNames :
    AttributeIndex.Distinguishes (· ∈ attributeNames) (· ∈ attributeNames) :=
  AttributeIndex.distinguishes_of_plain attributeNames_plain

/-- The session can be told apart from others, and so can the values it is found by. -/
def Sane (session : UserSession) : Prop :=
  Plain session.id ∧ ∀ e ∈ indexed session, ∀ v ∈ e.2, NulFree v

instance (session : UserSession) : Decidable (Sane session) :=
  inferInstanceAs (Decidable (_ ∧ _))

def valuesIn (session : UserSession) (name : String) : List String :=
  ((indexed session).lookup name).getD []

theorem names_indexed (session : UserSession) : (indexed session).map (·.1) = attributeNames := rfl

theorem nodup_indexed (session : UserSession) : ∀ e ∈ indexed session, e.2.Nodup := by
  have hoption : ∀ o : Option String, o.toList.Nodup := by
    intro o
    cases o <;> simp
  intro e he
  simp only [indexed, List.mem_cons, List.not_mem_nil, or_false] at he
  rcases he with rfl | rfl | rfl | rfl
  · exact hoption (some session.userId)
  · exact hoption _
  · exact hoption _
  · exact session.clientSessions.entries_nodup

theorem lookup_indexed (session : UserSession) (name : String) :
    (indexed session).lookup name = if name ∈ attributeNames then some (valuesIn session name)
      else none := by
  have hiff : ((indexed session).lookup name).isSome ↔ name ∈ attributeNames := by
    rw [← names_indexed session, List.lookup_isSome_iff, List.mem_map]
    constructor
    · rintro ⟨e, he, heq⟩
      exact ⟨e, he, (eq_of_beq heq).symm⟩
    · rintro ⟨e, he, rfl⟩
      exact ⟨e, he, beq_self_eq_true _⟩
  rw [valuesIn]
  cases hlook : (indexed session).lookup name with
  | none =>
    rw [hlook] at hiff
    rw [if_neg fun h => absurd (hiff.mpr h) (by simp)]
  | some vs =>
    rw [hlook] at hiff
    rw [if_pos (hiff.mp rfl)]
    rfl

theorem mem_indexed {session : UserSession} {name : String} (hn : name ∈ attributeNames) :
    (name, valuesIn session name) ∈ indexed session := by
  have hlook := lookup_indexed session name
  rw [if_pos hn, List.lookup_eq_some_iff] at hlook
  obtain ⟨l, r, heq, -⟩ := hlook
  rw [heq]
  simp

theorem eq_valuesIn {session : UserSession} {e : String × List String} (he : e ∈ indexed session) :
    e.2 = valuesIn session e.1 := by
  simp only [indexed, List.mem_cons, List.not_mem_nil, or_false] at he
  rcases he with rfl | rfl | rfl | rfl <;> rfl

theorem distinct_valuesIn {session : UserSession} {name : String} (hn : name ∈ attributeNames) :
    AttributeIndex.distinct (valuesIn session name) = valuesIn session name :=
  AttributeIndex.distinct_of_nodup (nodup_indexed session _ (mem_indexed hn))

theorem toList_entity (id : String) (offline : Bool) : (entity id offline).toList =
    if offline then id.toList ++ '\x1f' :: "offline".toList else id.toList := by
  cases offline
  · rfl
  · exact RowKey.toList_composite_two id "offline"

theorem entity_inj {id id' : String} {offline offline' : Bool} (h : Plain id) (h' : Plain id') :
    entity id offline = entity id' offline' ↔ id = id' ∧ offline = offline' := by
  constructor
  · intro heq
    have hlist := String.toList_inj.mpr heq
    rw [toList_entity, toList_entity] at hlist
    cases offline <;> cases offline' <;> simp only [Bool.false_eq_true, ↓reduceIte] at hlist
    · exact ⟨String.toList_inj.mp hlist, rfl⟩
    · exact absurd (hlist ▸ List.mem_append_right _ List.mem_cons_self) h.2
    · exact absurd (hlist ▸ List.mem_append_right _ List.mem_cons_self) h'.2
    · exact ⟨String.toList_inj.mp ((cons_append_inj h.2 h'.2).mp hlist).1, rfl⟩
  · rintro ⟨rfl, rfl⟩
    rfl

theorem entity_nulFree {id : String} (h : NulFree id) (offline : Bool) :
    NulFree (entity id offline) := by
  cases offline
  · exact h
  · exact RowKey.nulFree_composite_two.mpr ⟨h, by decide⟩

theorem key_encode_inj {r r' e e' : String} (hr : Plain r) (hr' : Plain r') :
    (key r e).encode = (key r' e').encode ↔ r = r' ∧ e = e' := by
  rw [RowKey.encode_inj (k := key r e) hr.1 hr'.1, key, key, RowKey.mk.injEq]

open AttributeIndex (userSessions)

def sessionAt (s : RowStore) (r e : String) (time : Int) : Option UserSession :=
  s.recordAt UserSession .userSessions (key r e) time

structure Intact (s : RowStore) : Prop where
  sessions : s.Holds UserSession .userSessions
  clients : s.Holds ClientSession .clientSessions
  index : userSessions.Sound s

theorem intact_empty (now : Int) : Intact (.empty now) :=
  ⟨RowStore.holds_empty now _, RowStore.holds_empty now _, AttributeIndex.sound_empty _ now⟩

/-- Whatever is found in the index is the value of a session that is still there, at the present
instant and at every later one. -/
structure Indexed (s : RowStore) : Prop where
  sessions : s.Holds UserSession .userSessions
  clients : s.Holds ClientSession .clientSessions
  regular : userSessions.Regular s (· ∈ attributeNames) (· ∈ attributeNames)
  placed : ∀ r e session, Plain r → sessionAt s r e s.now = some session →
    e = entity session.id session.offline ∧ Plain session.id
  values : ∀ r e name time, Plain r → NulFree e → s.now ≤ time →
    userSessions.valuesAt s r e name time =
      ((sessionAt s r e time).bind fun session => (indexed session).lookup name).getD []

theorem indexed_empty (now : Int) : Indexed (.empty now) where
  sessions := RowStore.holds_empty now _
  clients := RowStore.holds_empty now _
  regular := AttributeIndex.regular_empty _ now _ _
  placed r e session _ hsome := by
    rw [sessionAt, RowStore.recordAt, RowStore.seen_empty] at hsome
    cases hsome
  values r e name time _ _ _ := by
    rw [AttributeIndex.valuesAt, sessionAt, RowStore.recordAt, RowStore.seen_empty,
      RowStore.recordAt, RowStore.seen_empty]
    rfl

variable {s s' : RowStore} {r : String} {session : UserSession}

theorem Indexed.intact (h : Indexed s) : Intact s := ⟨h.sessions, h.clients, h.regular.sound⟩

theorem Intact.reclaimed (h : Intact s) (hs : RowStore.Reclaimed s s') : Intact s' :=
  ⟨h.sessions.reclaimed hs, h.clients.reclaimed hs, h.index.reclaimed hs⟩

theorem Intact.later (h : Intact s) (now : Int) : Intact { s with now } :=
  ⟨RowStore.holds_congr (s := s) rfl h.sessions, RowStore.holds_congr (s := s) rfl h.clients,
    AttributeIndex.Sound.congr (s := s) rfl rfl h.index⟩

theorem Indexed.later (h : Indexed s) {now : Int} (hle : s.now ≤ now) :
    Indexed { s with now } where
  sessions := (h.intact.later now).sessions
  clients := (h.intact.later now).clients
  regular := h.regular.later hle
  placed r e session hr hsome := h.placed r e session hr (RowStore.recordAt_of_le hle hsome)
  values r e name time hr he hle' := h.values r e name time hr he (Int.le_trans hle hle')

theorem Indexed.sweep (h : Indexed s) : Indexed s.sweep.2 where
  sessions := h.sessions.reclaimed s.reclaimed_sweep
  clients := h.clients.reclaimed s.reclaimed_sweep
  regular := h.regular.reclaimed s.reclaimed_sweep
  placed r e session hr hsome := by
    rw [sessionAt, s.now_sweep, s.reclaimed_sweep.recordAt_eq (Int.le_refl _)] at hsome
    exact h.placed r e session hr hsome
  values r e name time hr he hle := by
    rw [s.now_sweep] at hle
    rw [AttributeIndex.valuesAt, sessionAt, s.reclaimed_sweep.recordAt_eq hle,
      s.reclaimed_sweep.recordAt_eq hle]
    exact h.values r e name time hr he hle

theorem Indexed.valuesAt_eq (h : Indexed s) {e name : String} {time : Int} (hr : Plain r)
    (he : NulFree e) (hle : s.now ≤ time) (hn : name ∈ attributeNames)
    (hsome : sessionAt s r e time = some session) :
    userSessions.valuesAt s r e name time = valuesIn session name := by
  rw [h.values r e name time hr he hle, hsome, Option.bind_some, lookup_indexed, if_pos hn]
  rfl

theorem Indexed.sane (h : Indexed s) {e : String} (hr : Plain r)
    (hsome : sessionAt s r e s.now = some session) : Sane session := by
  obtain ⟨rfl, hid⟩ := h.placed r e session hr hsome
  refine ⟨hid, fun f hf v hv => ?_⟩
  have he := entity_nulFree hid.1 session.offline
  have hn : f.1 ∈ attributeNames := by
    rw [← names_indexed session]
    exact List.mem_map.mpr ⟨f, hf, rfl⟩
  rw [eq_valuesIn hf, ← h.valuesAt_eq hr he (Int.le_refl _) hn hsome] at hv
  exact (h.regular.mirrors r f.1 hr hn).nulFree _ v s.now he (Int.le_refl _) hv

def store (s : RowStore) (r : String) (session : UserSession) : RowStore :=
  let e := entity session.id session.offline
  let lifetime := Lifetime.of session s.now
  userSessions.setEach
    (s.write .userSessions (key r e).encode (Storable.payload session) lifetime) r e
    (indexed session) lifetime

theorem table_ne_of_within {t : Table} (hw : userSessions.Within s s')
    (ht : t = .userSessions ∨ t = .clientSessions) : s'.table t = s.table t := by
  rcases ht with rfl | rfl <;> exact hw.table _ (by decide) (by decide)

theorem sessionAt_congr (h : s'.table .userSessions = s.table .userSessions) (r e : String)
    (time : Int) : sessionAt s' r e time = sessionAt s r e time :=
  RowStore.recordAt_congr h _ _

@[simp] theorem now_store : (store s r session).now = s.now := by
  rw [store, AttributeIndex.now_setEach, RowStore.now_write]

theorem sessionAt_store {r' e : String} {time : Int} (hr : Plain r) (hr' : Plain r') :
    sessionAt (store s r session) r' e time =
      if r' = r ∧ e = entity session.id session.offline then
        if Lifetime.lasts (Lifetime.of session s.now) s.now time then some session else none
      else sessionAt s r' e time := by
  rw [store, sessionAt_congr (table_ne_of_within AttributeIndex.within_setEach (.inl rfl)),
    sessionAt, RowStore.recordAt_write]
  simp only [true_and, key_encode_inj hr' hr]
  rfl

theorem Intact.store (h : Intact s) (r : String) (session : UserSession) :
    Intact (store s r session) := by
  have hw : userSessions.Within _ (UserSessions.store s r session) := AttributeIndex.within_setEach
  refine ⟨?_, ?_, ?_⟩
  · exact RowStore.holds_congr (table_ne_of_within hw (.inl rfl)) (h.sessions.write _ _ _)
  · apply RowStore.holds_congr (table_ne_of_within hw (.inr rfl))
    exact RowStore.holds_congr (s.table_write_of_ne (by decide) _ _ _) h.clients
  · apply AttributeIndex.sound_setEach
    exact h.index.congr (s.table_write_of_ne (by decide) _ _ _)
      (s.table_write_of_ne (by decide) _ _ _)

theorem Indexed.store (h : Indexed s) (hr : Plain r) (hsane : Sane session) :
    Indexed (store s r session) := by
  have he := entity_nulFree hsane.1.1 session.offline
  refine ⟨(h.intact.store r session).sessions, (h.intact.store r session).clients, ?_,
    fun r' e session' hr' hsome => ?_, fun r' e name time hr' he' hle => ?_⟩
  · refine AttributeIndex.Regular.setEach attributeNames_plain distinguishes_attributeNames hr
      ?_ he ?_ ?_
    · exact h.regular.congr_tables (s.table_write_of_ne (by decide) _ _ _)
        (s.table_write_of_ne (by decide) _ _ _) rfl
    · intro f hf
      rw [← names_indexed session]
      exact List.mem_map.mpr ⟨f, hf, rfl⟩
    · exact fun f hf _ => hsane.2 f hf
  · rw [sessionAt_store hr hr', now_store] at hsome
    split at hsome
    · next hsame =>
      split at hsome
      · obtain rfl := Option.some.inj hsome
        exact ⟨hsame.2, hsane.1⟩
      · cases hsome
    · exact h.placed r' e session' hr' hsome
  · rw [now_store] at hle
    have hold : ∀ {n}, userSessions.valuesAt (s.write .userSessions
        (key r (entity session.id session.offline)).encode (Storable.payload session)
        (Lifetime.of session s.now)) r' e n time = userSessions.valuesAt s r' e n time :=
      AttributeIndex.valuesAt_congr (s.table_write_of_ne (by decide) _ _ _)
    have hnodup : ((indexed session).map (·.1)).Nodup := by
      rw [names_indexed]
      decide
    rw [sessionAt_store hr hr', UserSessions.store,
      AttributeIndex.valuesAt_setEach hr he hr' he' hnodup, hold, RowStore.now_write,
      h.values r' e name time hr' he' hle]
    by_cases hsame : r' = r ∧ e = entity session.id session.offline
    · rw [if_pos hsame, if_pos hsame, lookup_indexed]
      by_cases hn : name ∈ attributeNames
      · rw [if_pos hn]
        simp only [distinct_valuesIn hn]
        split
        · rw [Option.bind_some, lookup_indexed, if_pos hn]
          rfl
        · rfl
      · have hnone : ∀ o : Option UserSession,
            (o.bind fun session => (indexed session).lookup name).getD [] = [] := by
          intro o
          cases o with
          | none => rfl
          | some session' => rw [Option.bind_some, lookup_indexed, if_neg hn]; rfl
        rw [if_neg hn, hnone, hnone]
    · rw [if_neg hsame, if_neg hsame]

end IdentityDirectory.UserSessions
