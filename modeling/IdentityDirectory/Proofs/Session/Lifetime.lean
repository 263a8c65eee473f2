import IdentityDirectory.Proofs.Session.Calls

/-!
How long a session is found. Its row is written with the whole seconds left until its expiration,
which every write computes anew, and remembered answers are checked against the expiration once
more. Main statements: `Tracked.run`, what any course of calls, sweeps and passing time keeps, and
`found_until_expiration`.
-/

namespace IdentityDirectory

namespace Time

def InRange (x : Int) : Prop := earliest ≤ x ∧ x ≤ latest

theorem add_inRange (a b : Int) : InRange (add a b) := by
  simp only [InRange, add, clamp, earliest, latest]
  omega

theorem InRange.min {a b : Int} (h : InRange a) (h' : InRange b) : InRange (min a b) := by
  unfold InRange at *
  omega

end Time

namespace Lifetime

variable {expiration now time : Int}

theorem lt_of_lt_deadline (hr : Time.InRange expiration) (hle : now ≤ time)
    (h : time < deadline (untilExpiration expiration now) now) : time < expiration := by
  simp only [Time.InRange, deadline, untilExpiration, Time.add, Time.sub, Time.clamp, Time.earliest,
    Time.latest, shortest, longest] at *
  omega

theorem lt_deadline_of_le (hr : Time.InRange expiration)
    (hlong : expiration - now ≤ longest * 1000) (h : time ≤ expiration - 1000) :
    time < deadline (untilExpiration expiration now) now := by
  simp only [Time.InRange, deadline, untilExpiration, Time.add, Time.sub, Time.clamp, Time.earliest,
    Time.latest, shortest, longest] at *
  omega

end Lifetime

theorem SessionTimes.expiration_inRange (realm : RealmTimeouts) (times : SessionTimes) :
    Time.InRange (expiration realm none times) := by
  have hafter : ∀ start seconds, Time.InRange (after start seconds) :=
    fun _ _ => Time.add_inRange _ _
  simp only [expiration, onlineExpiration, offlineExpiration, Option.bind_none, limitedTo]
  split
  · split
    · exact (hafter _ _).min (hafter _ _)
    · exact hafter _ _
  · exact (hafter _ _).min (hafter _ _)

namespace UserSessions

open AttributeIndex (userSessions)

structure Course where
  desk : Desk SessionCache
  refreshed : Int
  written : Int
  removed : Bool

namespace Course

def created (desk : Desk SessionCache) : Course := ⟨desk, desk.rows.now, desk.rows.now, false⟩

inductive Event where
  | call (call : Call)
  | sweep
  | advance (millis : Nat)

variable (realm : Realm) (session : UserSession)

/-- Only a call that finds its session counts as a write of it. -/
def step (c : Course) : Event → Course
  | .call call =>
    let e := entity session.id session.offline
    let (result, desk) := call.perform realm c.desk
    let removed := c.removed || call.removes = some e
    if call.writes = some e ∧ result = .ok true then
      let refreshed := if call.refreshes then c.desk.rows.now else c.refreshed
      { desk, refreshed, written := c.desk.rows.now, removed }
    else { c with desk, removed }
  | .sweep => { c with desk := { c.desk with rows := c.desk.rows.sweep.2 } }
  | .advance millis =>
    { c with desk := { c.desk with rows := { c.desk.rows with now := c.desk.rows.now + millis } } }

def run (c : Course) (events : List Event) : Course := events.foldl (step realm session) c

theorem run_append (c : Course) (before after : List Event) :
    c.run realm session (before ++ after) =
      (c.run realm session before).run realm session after :=
  List.foldl_append

variable (c : Course)

def now : Int := c.desk.rows.now

def ends : Int :=
  SessionTimes.expiration realm.timeouts none
    { started := session.started
      lastRefresh := c.refreshed
      rememberMe := session.rememberMe
      offline := session.offline }

def rowEnds : Int :=
  Lifetime.deadline (Lifetime.untilExpiration (c.ends realm session) c.written) c.written

def copy (clientSessions : StringMap String) : UserSession :=
  stamped realm { session with lastSessionRefresh := c.refreshed, clientSessions }

def Lives : Prop := c.removed = false ∧ c.now < c.rowEnds realm session

/-- What asking for the session may give before its expiration is checked. -/
def Gives (copy : UserSession) : Option UserSession → Prop
  | some found => found = copy ∧ c.removed = false
  | none => c.removed = true ∨ c.rowEnds realm session ≤ c.now

end Course

structure Undisturbed (r e : String) (d d' : Desk SessionCache) : Prop where
  intact : Intact d'.rows
  placed : Placed d'.rows r
  now_le : d.rows.now ≤ d'.rows.now
  row : ∀ time, d'.rows.now ≤ time → sessionAt d'.rows r e time = sessionAt d.rows r e time
  remembered : ∀ answer, d'.held.find? ⟨r, e⟩ = some answer →
    d.held.find? ⟨r, e⟩ = some answer ∨ answer = sessionAt d.rows r e d.rows.now

inductive Course.Change (realm : Realm) (session : UserSession) (c : Course) : Course → Prop
  | undisturbed {d : Desk SessionCache}
      (h : Undisturbed realm.id (entity session.id session.offline) c.desk d) :
      Change realm session c { c with desk := d }
  | rewritten {d : Desk SessionCache} (refreshes : Bool)
      (h : Rewritten realm (entity session.id session.offline) refreshes c.desk d) :
      Change realm session c
        { desk := d
          refreshed := if refreshes then c.desk.rows.now else c.refreshed
          written := c.desk.rows.now
          removed := c.removed }
  | removed {d : Desk SessionCache}
      (h : Removed realm.id (entity session.id session.offline) c.desk d) :
      Change realm session c { c with desk := d, removed := true }

variable {realm : Realm} {session copy : UserSession} {c c' : Course} {d d' : Desk SessionCache}
  {e : String}

theorem Course.step_of_idle {call : Call} {result : Except StoreError Bool}
    (h : call.perform realm c.desk = (result, d))
    (hwrites : call.writes = some (entity session.id session.offline) → result ≠ .ok true)
    (hremoves : call.removes ≠ some (entity session.id session.offline)) :
    c.step realm session (.call call) = { c with desk := d } := by
  have hwrote : ¬ (call.writes = some (entity session.id session.offline) ∧ result = .ok true) :=
    fun hboth => hwrites hboth.1 hboth.2
  simp only [Course.step, h, if_neg hwrote, hremoves, decide_false, Bool.or_false]

theorem Call.removes_of_writes {call : Call} (h : call.writes = some e) : call.removes = none := by
  cases call <;> first | rfl | cases h

theorem Course.change_of_writes {call : Call} (h : Intact c.desk.rows)
    (hp : Placed c.desk.rows realm.id) (hwrites : call.writes = some e) :
    c.Change realm session (c.step realm session (.call call)) := by
  have hremoves : call.removes ≠ some (entity session.id session.offline) := by
    rw [Call.removes_of_writes hwrites]
    nofun
  rcases Call.perform_of_writes h realm hwrites with hnone | ⟨d, hsome, hw⟩
  · rw [Course.step_of_idle hnone (fun _ => nofun) hremoves]
    exact .undisturbed ⟨h, hp, Int.le_refl _, fun _ _ => rfl, fun _ => .inl⟩
  · by_cases hsame : e = entity session.id session.offline
    · subst hsame
      have hstep : c.step realm session (.call call) =
          { desk := d
            refreshed := if call.refreshes then c.desk.rows.now else c.refreshed
            written := c.desk.rows.now
            removed := c.removed } := by
        simp [Course.step, hsome, hwrites, hremoves]
      rw [hstep]
      exact .rewritten call.refreshes hw
    · have hother : call.writes ≠ some (entity session.id session.offline) := by
        rw [hwrites]
        exact fun heq => hsame (Option.some.inj heq)
      rw [Course.step_of_idle hsome (fun heq => absurd heq hother) hremoves]
      obtain ⟨found, clientSessions, written, -, -, hat⟩ := hw.found hp
      refine .undisturbed ⟨hw.intact h, hw.placed hp, Int.le_of_eq hw.now.symm, ?_, ?_⟩
      · intro time _
        rw [hat, if_neg (Ne.symm hsame)]
      · intro answer hanswer
        rw [hw.forgotten] at hanswer
        cases hanswer

theorem Course.change_of_remove (h : Intact c.desk.rows) (hp : Placed c.desk.rows realm.id)
    (id : String) (offline : Bool) :
    c.Change realm session (c.step realm session (.call (.remove id offline))) := by
  obtain ⟨found, d, hremove, hw⟩ := remove_eq h realm.id id offline
  by_cases hsame : entity id offline = entity session.id session.offline
  · have hstep : c.step realm session (.call (.remove id offline)) =
        { c with desk := d, removed := true } := by
      simp [Course.step, Call.perform, Call.writes, Call.removes, hremove, hsame]
    rw [hstep]
    exact .removed (hsame ▸ hw)
  · have hperform : (Call.remove id offline).perform realm c.desk = (.ok found, d) := hremove
    rw [Course.step_of_idle hperform nofun fun hremoves => hsame (Option.some.inj hremoves)]
    refine .undisturbed ⟨hw.intact h, hw.placed hp, Int.le_of_eq hw.now.symm, ?_, ?_⟩
    · intro time _
      rw [hw.gone, if_neg (Ne.symm hsame)]
    · intro answer hanswer
      rw [hw.forgotten] at hanswer
      cases hanswer

theorem Course.change_of_find (h : Intact c.desk.rows) (hp : Placed c.desk.rows realm.id)
    (id : String) (offline : Bool) :
    c.Change realm session (c.step realm session (.call (.find id offline))) := by
  obtain ⟨answer, d, hfind, hrows, -, hheld⟩ := findById_cases h realm.id id offline
  have hperform : (Call.find id offline).perform realm c.desk = (.ok _, d) :=
    Work.bind_of_ok hfind _
  rw [Course.step_of_idle hperform nofun nofun]
  refine .undisturbed ⟨hrows ▸ h, hrows ▸ hp, Int.le_of_eq (congrArg RowStore.now hrows.symm), ?_, ?_⟩
  · intro time _
    rw [hrows]
  · intro answer hanswer
    exact (hheld _ answer hanswer).imp_right And.right

theorem Course.change_of_refreshClient (h : Intact c.desk.rows) (hp : Placed c.desk.rows realm.id)
    (client : Client) (other : UserSession) :
    c.Change realm session (c.step realm session (.call (.refreshClient client other))) := by
  obtain ⟨found, d, hperform, hw, hheld⟩ := refreshClient_eq h realm client other
  rw [Course.step_of_idle hperform nofun nofun]
  refine .undisturbed ⟨h.of_withinClients hw, hp.of_withinClients hw, Int.le_of_eq hw.now.symm,
    ?_, ?_⟩
  · intro time _
    exact sessionAt_congr (hw.table _ (by decide)) _ _ _
  · intro answer hanswer
    rw [hheld] at hanswer
    exact .inl hanswer

theorem Course.change_step (h : Intact c.desk.rows) (hp : Placed c.desk.rows realm.id)
    (session : UserSession) (event : Course.Event) :
    c.Change realm session (c.step realm session event) := by
  cases event with
  | call call =>
    cases hwrites : call.writes with
    | some e => exact change_of_writes h hp hwrites
    | none =>
      cases call with
      | refresh id offline => cases hwrites
      | attach client id offline => cases hwrites
      | detach id offline clientId => cases hwrites
      | refreshClient client other => exact change_of_refreshClient h hp client other
      | find id offline => exact change_of_find h hp id offline
      | remove id offline => exact change_of_remove h hp id offline
  | sweep =>
    have hsweep := c.desk.rows.reclaimed_sweep
    refine .undisturbed ⟨h.reclaimed hsweep, ?_, Int.le_of_eq hsweep.now.symm, ?_, fun _ => .inl⟩
    · intro e found hsome
      rw [sessionAt, hsweep.now, hsweep.recordAt_eq (Int.le_refl _)] at hsome
      exact hp e found hsome
    · intro time hle
      exact hsweep.recordAt_eq (Int.le_trans (Int.le_of_eq hsweep.now.symm) hle) _
  | advance millis =>
    have hle : c.desk.rows.now ≤ c.desk.rows.now + millis :=
      Int.le_add_of_nonneg_right (Int.natCast_nonneg millis)
    refine .undisturbed ⟨h.later _, ?_, hle, fun _ _ => rfl, fun _ => .inl⟩
    exact fun e found hsome => hp e found (RowStore.recordAt_of_le hle hsome)

theorem Course.Change.now_le (h : c.Change realm session c') : c.now ≤ c'.now := by
  cases h with
  | undisturbed h => exact h.now_le
  | rewritten refreshes h => exact Int.le_of_eq h.now.symm
  | removed h => exact Int.le_of_eq h.now.symm

theorem Course.Change.removed_of_later (h : c.Change realm session c') (hc : c'.removed = false) :
    c.removed = false := by
  cases h with
  | undisturbed h => exact hc
  | rewritten refreshes h => exact hc
  | removed h => cases hc

structure Kept (realm : Realm) (session : UserSession) (c : Course) (copy : UserSession) : Prop where
  row : ∀ time, c.now ≤ time →
    sessionAt c.desk.rows realm.id (entity session.id session.offline) time =
      if c.removed = false ∧ time < c.rowEnds realm session then some copy else none
  remembered : ∀ answer,
    c.desk.held.find? ⟨realm.id, entity session.id session.offline⟩ = some answer →
      c.Gives realm session copy answer

structure Tracked (realm : Realm) (session : UserSession) (c : Course) : Prop where
  intact : Intact c.desk.rows
  placed : Placed c.desk.rows realm.id
  written_le : c.written ≤ c.now
  kept : ∃ clientSessions, Kept realm session c (c.copy realm session clientSessions)

theorem Kept.gives_row (h : Kept realm session c copy) : c.Gives realm session copy
    (sessionAt c.desk.rows realm.id (entity session.id session.offline) c.now) := by
  rw [h.row c.now (Int.le_refl _)]
  split
  · next hthere => exact ⟨rfl, hthere.1⟩
  · next hgone =>
    cases hremoved : c.removed with
    | true => exact .inl hremoved
    | false => exact .inr (Int.not_lt.mp fun hlt => hgone ⟨hremoved, hlt⟩)

theorem Kept.undisturbed (h : Kept realm session c copy)
    (hd : Undisturbed realm.id (entity session.id session.offline) c.desk d) :
    Kept realm session { c with desk := d } copy := by
  refine ⟨fun time hle => ?_, fun answer hanswer => ?_⟩
  · rw [hd.row time hle]
    exact h.row time (Int.le_trans hd.now_le hle)
  · have hgives : c.Gives realm session copy answer := by
      rcases hd.remembered answer hanswer with hold | rfl
      · exact h.remembered answer hold
      · exact h.gives_row
    cases answer with
    | some found => exact hgives
    | none => exact hgives.imp_right fun hle => Int.le_trans hle hd.now_le

theorem Tracked.rewritten {refreshes : Bool} (h : Tracked realm session c)
    (hw : Rewritten realm (entity session.id session.offline) refreshes c.desk d) :
    Tracked realm session
      { desk := d
        refreshed := if refreshes then c.desk.rows.now else c.refreshed
        written := c.desk.rows.now
        removed := c.removed } := by
  obtain ⟨clientSessions, hkept⟩ := h.kept
  obtain ⟨found, clientSessions', written, hfound, hwritten, hat⟩ := hw.found h.placed
  have hgives := hkept.gives_row
  rw [Course.now, hfound] at hgives
  obtain ⟨rfl, hthere⟩ := hgives
  refine ⟨hw.intact h.intact, hw.placed h.placed, Int.le_of_eq hw.now.symm, clientSessions', ?_, ?_⟩
  · intro time _
    rw [hat, if_pos rfl, hwritten]
    simp only [hthere, true_and]
    exact ite_congr (propext decide_eq_true_iff) (fun _ => rfl) fun _ => rfl
  · intro answer hanswer
    rw [hw.forgotten] at hanswer
    cases hanswer

theorem Tracked.removed (h : Tracked realm session c)
    (hw : Removed realm.id (entity session.id session.offline) c.desk d) :
    Tracked realm session { c with desk := d, removed := true } := by
  obtain ⟨clientSessions, hkept⟩ := h.kept
  refine ⟨hw.intact h.intact, hw.placed h.placed, ?_, clientSessions, ?_, ?_⟩
  · exact Int.le_trans h.written_le (Int.le_of_eq hw.now.symm)
  · intro time _
    rw [hw.gone, if_pos rfl, if_neg fun hboth => Bool.noConfusion hboth.1]
  · intro answer hanswer
    rw [hw.forgotten] at hanswer
    cases hanswer

theorem Tracked.change (h : Tracked realm session c) (hc : c.Change realm session c') :
    Tracked realm session c' := by
  cases hc with
  | undisturbed hd =>
    obtain ⟨clientSessions, hkept⟩ := h.kept
    exact ⟨hd.intact, hd.placed, Int.le_trans h.written_le hd.now_le, clientSessions,
      hkept.undisturbed hd⟩
  | rewritten refreshes hw => exact h.rewritten hw
  | removed hw => exact h.removed hw

theorem Tracked.step (h : Tracked realm session c) (event : Course.Event) :
    Tracked realm session (c.step realm session event) :=
  h.change (Course.change_step h.intact h.placed session event)

theorem Tracked.run (h : Tracked realm session c) (events : List Course.Event) :
    Tracked realm session (c.run realm session events) := by
  induction events generalizing c with
  | nil => exact h
  | cons event events ih => exact ih (h.step event)

theorem tracked_created {draft : UserSession} (h : Intact d.rows) (hp : Placed d.rows realm.id)
    (hcreate : create realm draft d = (.ok session, d')) :
    Tracked realm session (.created d') := by
  obtain ⟨⟨id, hsession⟩, hrows, hheld⟩ := create_eq h hcreate
  have hnow : d'.rows.now = d.rows.now := by rw [hrows, now_store]
  have hcopy : (Course.created d').copy realm session session.clientSessions = session := by
    rw [Course.copy, Course.created, hnow, hsession]
    rfl
  refine ⟨?_, ?_, Int.le_refl _, session.clientSessions, ?_⟩
  · exact hrows ▸ h.store realm.id session
  · exact hrows ▸ hp.store session
  rw [hcopy]
  refine ⟨fun time _ => ?_, fun answer hanswer => ?_⟩
  · have hlasts : Lifetime.lasts (Lifetime.of session d.rows.now) d.rows.now time =
        decide (time < (Course.created d').rowEnds realm session) := by
      rw [Course.rowEnds, Course.ends, Course.created, hnow, hsession]
      rfl
    have hrow : sessionAt d'.rows realm.id (entity session.id session.offline) time =
        if time < (Course.created d').rowEnds realm session then some session else none := by
      rw [hrows, sessionAt_store_same, if_pos rfl, hlasts]
      exact ite_congr (propext decide_eq_true_iff) (fun _ => rfl) fun _ => rfl
    have hcond : (time < (Course.created d').rowEnds realm session) =
        ((Course.created d').removed = false ∧
          time < (Course.created d').rowEnds realm session) :=
      propext ⟨fun hlt => ⟨rfl, hlt⟩, And.right⟩
    exact hrow.trans (ite_congr hcond (fun _ => rfl) fun _ => rfl)
  · have hforgotten : d'.held.find? _ = some answer := hanswer
    rw [hheld, QueryCache.find?_forget] at hforgotten
    cases hforgotten

theorem Tracked.findById (h : Tracked realm session c) : ∃ clientSessions answer desk,
    UserSessions.findById realm.id session.id session.offline c.desk =
      (.ok (answer.filter fun s => s.expiration.all (c.now < ·)), desk) ∧
    c.Gives realm session (c.copy realm session clientSessions) answer := by
  obtain ⟨clientSessions, hkept⟩ := h.kept
  obtain ⟨answer, desk, hfind, -, hanswer, -⟩ :=
    findById_cases h.intact realm.id session.id session.offline
  refine ⟨clientSessions, answer, desk, hfind, ?_⟩
  rcases hanswer with hremembered | rfl
  · exact hkept.remembered answer hremembered
  · exact hkept.gives_row

theorem Tracked.found (h : Tracked realm session c) (hl : c.Lives realm session) :
    ∃ clientSessions desk, UserSessions.findById realm.id session.id session.offline c.desk =
      (.ok (some (c.copy realm session clientSessions)), desk) := by
  obtain ⟨clientSessions, answer, desk, hfind, hgives⟩ := h.findById
  refine ⟨clientSessions, desk, hfind.trans ?_⟩
  cases answer with
  | none =>
    rcases hgives with hremoved | hle
    · exact absurd (hremoved.symm.trans hl.1) (by decide)
    · exact absurd hl.2 (Int.not_lt.mpr hle)
  | some found =>
    obtain rfl := hgives.1
    have hlt : c.now < c.ends realm session :=
      Lifetime.lt_of_lt_deadline (SessionTimes.expiration_inRange _ _) h.written_le hl.2
    have hall : (c.copy realm session clientSessions).expiration.all (c.now < ·) = true :=
      decide_eq_true hlt
    rw [Option.filter_some, if_pos hall]

theorem Tracked.not_found (h : Tracked realm session c) (hends : c.ends realm session ≤ c.now) :
    ∃ desk, UserSessions.findById realm.id session.id session.offline c.desk =
      (.ok none, desk) := by
  obtain ⟨clientSessions, answer, desk, hfind, hgives⟩ := h.findById
  refine ⟨desk, hfind.trans ?_⟩
  cases answer with
  | none => rfl
  | some found =>
    obtain rfl := hgives.1
    have hall : (c.copy realm session clientSessions).expiration.all (c.now < ·) = false :=
      decide_eq_false (Int.not_lt.mpr hends)
    rw [Option.filter_some, hall]
    rfl

theorem Tracked.lives_or_unwritten (h : Tracked realm session c) (hc : c.Change realm session c') :
    c.Lives realm session ∨ c'.refreshed = c.refreshed ∧ c'.written = c.written := by
  cases hc with
  | undisturbed hd => exact .inr ⟨rfl, rfl⟩
  | rewritten refreshes hw =>
    left
    obtain ⟨clientSessions, hkept⟩ := h.kept
    obtain ⟨found, clientSessions', written, hfound, -, -⟩ := hw.found h.placed
    have hrow := hkept.row c.now (Int.le_refl _)
    rw [Course.now, hfound] at hrow
    split at hrow
    · next hthere => exact hthere
    · cases hrow
  | removed hw => exact .inr ⟨rfl, rfl⟩

theorem Tracked.run_cases (h : Tracked realm session c) (events : List Course.Event)
    (hremoved : (c.run realm session events).removed = false) :
    c.removed = false ∧ (c.Lives realm session ∨
      (c.run realm session events).refreshed = c.refreshed ∧
        (c.run realm session events).written = c.written) := by
  induction events generalizing c with
  | nil => exact ⟨hremoved, .inr ⟨rfl, rfl⟩⟩
  | cons event events ih =>
    have hchange := Course.change_step h.intact h.placed session event
    obtain ⟨hlater, hcases⟩ := ih (h.step event) hremoved
    have hthere := hchange.removed_of_later hlater
    refine ⟨hthere, ?_⟩
    -- The first write among the events needs the row, which then has been there since `c`.
    rcases h.lives_or_unwritten hchange with hl | ⟨hrefreshed, hwritten⟩
    · exact .inl hl
    · rcases hcases with hl | ⟨hrefreshed', hwritten'⟩
      · left
        have hends : (c.step realm session event).rowEnds realm session =
            c.rowEnds realm session := by
          rw [Course.rowEnds, Course.ends, hrefreshed, hwritten]
          rfl
        exact ⟨hthere, Int.lt_of_le_of_lt hchange.now_le (hends ▸ hl.2)⟩
      · exact .inr ⟨hrefreshed'.trans hrefreshed, hwritten'.trans hwritten⟩

/-- From its creation on, whatever calls, sweeps and passing time follow, a session is not found once
the expiration has come that its start and its last refresh give. Unless it is removed, or its last
lifetime was cut short, it has been found at every instant up to a second before that. -/
theorem found_until_expiration {realm : Realm} {draft session : UserSession}
    {d d' : Desk SessionCache} (h : Intact d.rows) (hp : Placed d.rows realm.id)
    (hcreate : create realm draft d = (.ok session, d')) (events : List Course.Event) :
    let c := (Course.created d').run realm session events
    (c.ends realm session ≤ c.now →
      ∃ desk, findById realm.id session.id session.offline c.desk = (.ok none, desk)) ∧
    (c.removed = false → c.ends realm session - c.written ≤ Lifetime.longest * 1000 →
      ∀ before after, events = before ++ after →
        let b := (Course.created d').run realm session before
        b.now ≤ c.ends realm session - 1000 →
          ∃ clientSessions desk, findById realm.id session.id session.offline b.desk =
            (.ok (some (b.copy realm session clientSessions)), desk)) := by
  intro c
  have hcreated := tracked_created h hp hcreate
  refine ⟨(hcreated.run events).not_found, ?_⟩
  intro hremoved hlong before after hevents b hsoon
  have hb : Tracked realm session b := hcreated.run before
  have hc : c = b.run realm session after := by
    rw [← Course.run_append, ← hevents]
  rw [hc] at hremoved hlong hsoon
  obtain ⟨hthere, hcases⟩ := hb.run_cases after hremoved
  rcases hcases with hl | ⟨hrefreshed, hwritten⟩
  · exact hb.found hl
  · have hends : (b.run realm session after).ends realm session = b.ends realm session := by
      rw [Course.ends, hrefreshed]
      rfl
    rw [hends, hwritten] at hlong
    rw [hends] at hsoon
    apply hb.found
    exact ⟨hthere, Lifetime.lt_deadline_of_le (SessionTimes.expiration_inRange _ _) hlong hsoon⟩

theorem found_until_expiration_of_refreshed :
    let before : List Course.Event := [.advance 1000500, .call (.refresh "s" false),
      .call (.find "s" false), .sweep, .advance 1799000]
    let start : Desk SessionCache := ⟨.empty 0, { value := fun n => n }, { enabled := true }⟩
    ∃ session d', create { id := "r" } { id := "s" } start = (.ok session, d') ∧
      let b := (Course.created d').run { id := "r" } session before
      let c := (Course.created d').run { id := "r" } session (before ++ [.advance 1000])
      b.now = 2799500 ∧
        (∃ clientSessions desk, findById "r" session.id session.offline b.desk =
          (.ok (some (b.copy { id := "r" } session clientSessions)), desk)) ∧
        c.now = 2800500 ∧
        ∃ desk, findById "r" session.id session.offline c.desk = (.ok none, desk) := by
  intro before start
  let session := stamped { id := "r" } { id := "s", realmId := "r" }
  let created := (create { id := "r" } { id := "s" } start).2
  let b := (Course.created created).run { id := "r" } session before
  let c := (Course.created created).run { id := "r" } session (before ++ [.advance 1000])
  have hok : (create { id := "r" } { id := "s" } start).1 = .ok session := by decide +kernel
  have hcreate : create { id := "r" } { id := "s" } start = (.ok session, created) := by
    rw [← hok, Prod.eta]
  have h := found_until_expiration (intact_empty 0) (placed_empty 0 "r") hcreate
    (before ++ [.advance 1000])
  have hcourse : c.removed = false ∧
      c.ends { id := "r" } session - c.written ≤ Lifetime.longest * 1000 ∧
      b.now ≤ c.ends { id := "r" } session - 1000 ∧ c.ends { id := "r" } session ≤ c.now ∧
      b.now = 2799500 ∧ c.now = 2800500 := by decide +kernel
  obtain ⟨hthere, hlong, hsoon, hover, hb, hc⟩ := hcourse
  refine ⟨session, _, hcreate, hb, ?_, hc, h.1 hover⟩
  exact h.2 hthere hlong before [.advance 1000] rfl hsoon

end UserSessions

end IdentityDirectory
