import IdentityDirectory.Proofs.Isolation.Logins
import IdentityDirectory.Proofs.Work.World

/-!
Failed logins over any run of calls, with sweeps and anything done to other tables or to the clock
in between. What is known of a user is a matter of the calls that were about this user, and of how
far back they count. Main statements: `Kept.call`, that every call is answered as the earlier ones
say and adds itself to them, and `accounts_follow_past`.
-/

namespace IdentityDirectory.LoginFailures

variable {α : Type}

inductive Mark where
  | failed (instant : Int) (ipAddress : Option String)
  | locked (notBefore : Int)
  | cleared
  | removed
  deriving DecidableEq

namespace Mark

def failure? : Mark → Option (Int × Option String)
  | failed instant ipAddress => some (instant, ipAddress)
  | locked _ | cleared | removed => none

def notBefore? : Mark → Option Int
  | locked notBefore => some notBefore
  | failed .. | cleared | removed => none

end Mark

section Marks

variable (marks : List Mark)

def sinceRemoval : List Mark := marks.takeWhile (· ≠ .removed)

def sinceReset : List Mark := marks.takeWhile fun m => m ≠ .cleared ∧ m ≠ .removed

def known : Bool := (sinceRemoval marks).any (·.failure?.isSome)

def failures : List (Int × Option String) := (sinceReset marks).filterMap Mark.failure?

def locks : List Int := (sinceReset marks).filterMap Mark.notBefore?

/-- What the marks of a user say that is kept of the user's failures. -/
def account (r u : String) : Option LoginFailure :=
  if known marks then
    some { realmId := r
           userId := u
           failedLoginNotBefore := (locks marks).head?.getD 0
           numFailures := min (failures marks).length mostFailures
           lastFailure := ((failures marks).head?.map (·.1)).getD 0
           lastIpFailure := (failures marks).head?.bind (·.2) }
  else none

end Marks

section Rules

variable {marks : List Mark} {r u : String} {instant notBefore : Int} {ipAddress : Option String}

@[simp] theorem known_failed : known (.failed instant ipAddress :: marks) = true := rfl

@[simp] theorem known_locked : known (.locked notBefore :: marks) = known marks := rfl

@[simp] theorem known_cleared : known (.cleared :: marks) = known marks := rfl

@[simp] theorem failures_failed :
    failures (.failed instant ipAddress :: marks) = (instant, ipAddress) :: failures marks := rfl

@[simp] theorem locks_failed : locks (.failed instant ipAddress :: marks) = locks marks := rfl

theorem failures_of_not_known (h : known marks = false) : failures marks = [] := by
  induction marks with
  | nil => rfl
  | cons m marks ih =>
    cases m with
    | failed instant ipAddress => cases h
    | locked notBefore => exact ih h
    | cleared => rfl
    | removed => rfl

theorem isSome_account : (account marks r u).isSome = known marks := by
  rw [account]
  split
  · next h => exact h.symm
  · next h => exact (Bool.eq_false_iff.mpr h).symm

theorem account_failed (h : known marks = false → locks marks = []) :
    account (.failed instant ipAddress :: marks) r u =
      let before := (account marks r u).getD { realmId := r, userId := u }
      some { before with
        numFailures := min (before.numFailures + 1) mostFailures
        lastFailure := instant
        lastIpFailure := ipAddress } := by
  rw [account, account, if_pos known_failed]
  cases hknown : known marks with
  | false => simp [h hknown, failures_of_not_known hknown]
  | true =>
    have hcap : min ((failures marks).length + 1) mostFailures =
        min (min (failures marks).length mostFailures + 1) mostFailures := by omega
    simp [hcap]

theorem account_locked :
    account (.locked notBefore :: marks) r u =
      (account marks r u).map ({ · with failedLoginNotBefore := notBefore }) := by
  rw [account, account, known_locked]
  split <;> rfl

theorem account_cleared :
    account (.cleared :: marks) r u =
      (account marks r u).map fun f => { realmId := f.realmId, userId := f.userId } := by
  rw [account, account, known_cleared]
  split <;> rfl

end Rules

structure Entry where
  {α : Type}
  realmId : String
  request : Request α
  instant : Int
  answer : Except StoreError α

section Past

variable (r u : String)

def Entry.mark? : Entry → Option Mark
  | ⟨r', .record u' ipAddress, instant, _⟩ =>
    if r' = r ∧ u' = u then some (.failed instant ipAddress) else none
  | ⟨r', .setNotBefore u' notBefore, _, .ok true⟩ =>
    if r' = r ∧ u' = u then some (.locked notBefore) else none
  | ⟨r', .clear u', _, _⟩ => if r' = r ∧ u' = u then some .cleared else none
  | ⟨r', .remove u', _, _⟩ => if r' = r ∧ u' = u then some .removed else none
  | ⟨r', .removeAll, _, _⟩ => if r' = r then some .removed else none
  | _ => none

def marks (past : List Entry) : List Mark := past.filterMap (·.mark? r u)

theorem marks_cons (e : Entry) (past : List Entry) :
    marks r u (e :: past) = (e.mark? r u).toList ++ marks r u past := by
  rw [marks, List.filterMap_cons]
  cases e.mark? r u <;> rfl

end Past

/-- The answer is what the calls before this one make it. -/
def Entry.Fits (earlier : List Entry) : Entry → Prop
  | ⟨r, .get u, _, answer⟩ => answer = .ok (account (marks r u earlier) r u)
  | ⟨r, .record u ipAddress, instant, answer⟩ =>
    answer.map some = .ok (account (.failed instant ipAddress :: marks r u earlier) r u)
  | ⟨r, .setNotBefore u _, _, answer⟩ => answer = .ok (known (marks r u earlier))
  | ⟨r, .clear u, _, answer⟩ => answer = .ok (known (marks r u earlier))
  | ⟨r, .remove u, _, answer⟩ => answer = .ok (known (marks r u earlier))
  | ⟨r, .removeAll, _, answer⟩ =>
    ∃ users : List String, users.Nodup ∧ (∀ u, u ∈ users ↔ known (marks r u earlier)) ∧
      answer = .ok users.length

abbrev Stocked (s : RowStore) : Prop := s.Holds LoginFailure .loginFailures

def accountAt (s : RowStore) (r u : String) (time : Int) : Option LoginFailure :=
  s.recordAt LoginFailure .loginFailures (key r u) time

variable {s s' : RowStore} {past : List Entry} {e : Entry} {r r' u u' : String} {time : Int}

theorem encode_key_inj (hr : NulFree r) (hr' : NulFree r') :
    (key r' u').encode = (key r u).encode ↔ r = r' ∧ u = u' := by
  rw [RowKey.encode_inj (k := key r' u') hr' hr, key, key, RowKey.mk.injEq, eq_comm (a := r'),
    eq_comm (a := u')]

theorem get_eq (h : Stocked s) (r u : String) : get r u s = .ok (accountAt s r u s.now) :=
  Query.record_eq h (key r u)

theorem put_eq (h : Stocked s) (r u : String) (f : LoginFailure) :
    put r u f s = (.ok (), s.write .loginFailures (key r u).encode (Storable.payload f) none) :=
  Update.discard_of_ok (Update.put_eq (key r u) h.readable f none)

theorem record_eq (h : Stocked s) (r u : String) (ipAddress : Option String) :
    let before := (accountAt s r u s.now).getD { realmId := r, userId := u }
    let f := { before with
      numFailures := min (before.numFailures + 1) mostFailures
      lastFailure := s.now
      lastIpFailure := ipAddress }
    record r u ipAddress s =
      (.ok f, s.write .loginFailures (key r u).encode (Storable.payload f) none) := by
  intro before f
  refine (Update.bind_liftM_of_ok (get_eq h r u) _).trans ?_
  refine (Update.bind_liftM_of_ok (Query.now_apply s) _).trans ?_
  exact Update.bind_of_ok (put_eq h r u f) _

theorem alter_of_none (h : Stocked s) (hfound : accountAt s r u s.now = none)
    (change : LoginFailure → LoginFailure) : alter r u change s = (.ok false, s) := by
  have hget := get_eq h r u
  rw [hfound] at hget
  exact Update.bind_liftM_of_ok hget _

theorem alter_of_some (h : Stocked s) {f : LoginFailure} (hfound : accountAt s r u s.now = some f)
    (change : LoginFailure → LoginFailure) : alter r u change s = (.ok true,
      s.write .loginFailures (key r u).encode (Storable.payload (change f)) none) := by
  have hget := get_eq h r u
  rw [hfound] at hget
  exact (Update.bind_liftM_of_ok hget _).trans (Update.bind_of_ok (put_eq h r u (change f)) _)

structure Kept (s : RowStore) (past : List Entry) : Prop where
  stocked : Stocked s
  shown : ∀ r u time, NulFree r → accountAt s r u time = account (marks r u past) r u
  unlocked : ∀ r u, known (marks r u past) = false → locks (marks r u past) = []
  fits : ∀ e earlier, e :: earlier <:+ past → e.Fits earlier

theorem kept_empty (now : Int) : Kept (.empty now) [] where
  stocked := RowStore.holds_empty now _
  shown r u time _ := by
    rw [accountAt, RowStore.recordAt, RowStore.seen_empty]
    rfl
  unlocked _ _ _ := rfl
  fits e earlier hsuffix := by cases List.suffix_nil.mp hsuffix

namespace Kept

theorem congr (h : Kept s past) (htable : s'.table .loginFailures = s.table .loginFailures) :
    Kept s' past :=
  { h with
    stocked := RowStore.holds_congr htable h.stocked
    shown := fun r u time hr =>
      (RowStore.recordAt_congr htable (key r u) time).trans (h.shown r u time hr) }

theorem reclaimed (h : Kept s past) (hs : RowStore.Reclaimed s s') : Kept s' past :=
  { h with
    stocked := h.stocked.reclaimed hs
    shown := fun r u time hr => by
      rcases hs.rows .loginFailures (key r u).encode with heq | ⟨hgone, row, hrow, hdead⟩
      · rw [← h.shown r u time hr, accountAt, accountAt, RowStore.recordAt, RowStore.recordAt,
          RowStore.seen, RowStore.seen, heq]
      · rw [← h.shown r u s.now hr, accountAt, accountAt, RowStore.recordAt, RowStore.recordAt,
          RowStore.seen, RowStore.seen, hgone, hrow, Option.filter_some, if_neg (by simp [hdead])]
        rfl }

theorem cons (h : Kept s past) (hstocked : Stocked s')
    (hshown : ∀ r u time, NulFree r → accountAt s' r u time =
      (e.mark? r u).elim (accountAt s r u time) fun m => account (m :: marks r u past) r u)
    (hlocked : ∀ r u notBefore, e.mark? r u = some (.locked notBefore) → known (marks r u past))
    (hfits : e.Fits past) : Kept s' (e :: past) where
  stocked := hstocked
  shown r u time hr := by
    rw [hshown r u time hr, marks_cons]
    cases e.mark? r u with
    | none => exact h.shown r u time hr
    | some m => rfl
  unlocked r u := by
    rw [marks_cons]
    cases hmark : e.mark? r u with
    | none => exact h.unlocked r u
    | some m =>
      cases m with
      | failed instant ipAddress => exact nofun
      | locked notBefore =>
        intro hnot
        exact absurd (hlocked r u notBefore hmark) (Bool.eq_false_iff.mp hnot)
      | cleared => exact fun _ => rfl
      | removed => exact fun _ => rfl
  fits e' earlier hsuffix := by
    rcases List.suffix_cons_iff.mp hsuffix with heq | hsuffix
    · obtain ⟨rfl, rfl⟩ := List.cons.inj heq
      exact hfits
    · exact h.fits e' earlier hsuffix

theorem after_write (h : Kept s past) (hr : NulFree r) {m : Mark} {f : LoginFailure}
    (hmark : ∀ r' u', e.mark? r' u' = if r = r' ∧ u = u' then some m else none)
    (haccount : account (m :: marks r u past) r u = some f)
    (hlocked : ∀ notBefore, m = .locked notBefore → known (marks r u past))
    (hfits : e.Fits past) :
    Kept (s.write .loginFailures (key r u).encode (Storable.payload f) none) (e :: past) := by
  refine h.cons (h.stocked.write _ _ _) (fun r' u' time hr' => ?_) (fun r' u' notBefore hm => ?_)
    hfits
  · rw [accountAt, RowStore.recordAt_write, hmark]
    simp only [true_and, encode_key_inj hr hr']
    split
    · next hsame =>
      obtain ⟨rfl, rfl⟩ := hsame
      exact haccount.symm
    · rfl
  · rw [hmark] at hm
    obtain ⟨⟨rfl, rfl⟩, hsame⟩ := Option.ite_none_right_eq_some.mp hm
    exact hlocked notBefore (Option.some.inj hsame)

theorem after_nothing (h : Kept s past) (hmark : ∀ r' u' m, e.mark? r' u' = some m →
      account (m :: marks r' u' past) r' u' = account (marks r' u' past) r' u')
    (hlocked : ∀ r u notBefore, e.mark? r u = some (.locked notBefore) → known (marks r u past))
    (hfits : e.Fits past) : Kept s (e :: past) := by
  refine h.cons h.stocked (fun r' u' time hr' => ?_) hlocked hfits
  cases hm : e.mark? r' u' with
  | none => rfl
  | some m => rw [h.shown r' u' time hr', Option.elim_some, hmark r' u' m hm]

theorem after_remove (h : Kept s past) (hr : NulFree r)
    (hmark : ∀ r' u', e.mark? r' u' = if r = r' ∧ u = u' then some .removed else none)
    (hfits : e.Fits past) : Kept (s.remove .loginFailures (key r u).encode) (e :: past) := by
  refine h.cons (h.stocked.remove _ _) (fun r' u' time hr' => ?_) (by simp [hmark]) hfits
  rw [accountAt, RowStore.recordAt_remove, hmark]
  simp only [true_and, encode_key_inj hr hr']
  split <;> rfl

theorem after_removePartition (h : Kept s past) (hr : NulFree r)
    (hmark : ∀ r' u', e.mark? r' u' = if r = r' then some .removed else none)
    (hfits : e.Fits past) : Kept (s.removePartition .loginFailures r) (e :: past) := by
  refine h.cons (h.stocked.removePartition _ _) (fun r' u' time hr' => ?_) (by simp [hmark]) hfits
  have hlead : (RowKey.lead r).toList <+: (key r' u').encode.toList ↔ r' = r :=
    RowKey.lead_prefix_encode_iff (k := key r' u') hr' hr
  rw [accountAt, RowStore.recordAt_removePartition, hmark]
  simp only [true_and, hlead, eq_comm (a := r)]
  split <;> rfl

end Kept

def Answered (s : RowStore) (past : List Entry) (r : String) (request : Request α) : Prop :=
  ∃ answer s', request.perform r s = (answer, s') ∧ Kept s' (⟨r, request, s.now, answer⟩ :: past)

namespace Kept

theorem known_of_some (h : Kept s past) (hr : NulFree r) {f : LoginFailure}
    (hfound : accountAt s r u time = some f) : known (marks r u past) = true := by
  rw [← isSome_account, ← h.shown r u time hr, hfound]
  rfl

theorem known_of_none (h : Kept s past) (hr : NulFree r)
    (hfound : accountAt s r u time = none) : known (marks r u past) = false := by
  rw [← isSome_account, ← h.shown r u time hr, hfound]
  rfl

theorem get (h : Kept s past) (hr : NulFree r) (u : String) : Answered s past r (.get u) := by
  refine ⟨_, s, ?_, h.after_nothing nofun nofun rfl⟩
  have hget := get_eq h.stocked r u
  rw [h.shown r u s.now hr] at hget
  rw [Request.perform, Update.liftM_apply, hget]

theorem record (h : Kept s past) (hr : NulFree r) (u : String) (ipAddress : Option String) :
    Answered s past r (.record u ipAddress) := by
  have haccount : account (.failed s.now ipAddress :: marks r u past) r u = _ :=
    account_failed (h.unlocked r u)
  rw [← h.shown r u s.now hr] at haccount
  refine ⟨_, _, record_eq h.stocked r u ipAddress,
    h.after_write hr (fun _ _ => rfl) haccount nofun ?_⟩
  exact congrArg Except.ok haccount.symm

theorem setNotBefore (h : Kept s past) (hr : NulFree r) (u : String) (notBefore : Int) :
    Answered s past r (.setNotBefore u notBefore) := by
  cases hfound : accountAt s r u s.now with
  | none =>
    have hunknown := h.known_of_none hr hfound
    exact ⟨_, _, alter_of_none h.stocked hfound _,
      h.after_nothing nofun nofun (congrArg Except.ok hunknown.symm)⟩
  | some f =>
    have hknown := h.known_of_some hr hfound
    refine ⟨_, _, alter_of_some h.stocked hfound _,
      h.after_write hr (fun _ _ => rfl) ?_ (fun _ _ => hknown) (congrArg Except.ok hknown.symm)⟩
    rw [account_locked, ← h.shown r u s.now hr, hfound]
    rfl

theorem clear (h : Kept s past) (hr : NulFree r) (u : String) : Answered s past r (.clear u) := by
  have hmark (answer : Except StoreError Bool) (r' u' : String) :
      Entry.mark? r' u' ⟨r, .clear u, s.now, answer⟩ =
        if r = r' ∧ u = u' then some .cleared else none := rfl
  have haccount : account (.cleared :: marks r u past) r u =
      (accountAt s r u s.now).map fun f => { realmId := f.realmId, userId := f.userId } := by
    rw [h.shown r u s.now hr, account_cleared]
  cases hfound : accountAt s r u s.now with
  | none =>
    have hunknown := h.known_of_none hr hfound
    refine ⟨_, _, alter_of_none h.stocked hfound _, h.after_nothing (fun r' u' m hm => ?_)
      (by simp [hmark]) (congrArg Except.ok hunknown.symm)⟩
    rw [hmark] at hm
    obtain ⟨⟨rfl, rfl⟩, hsame⟩ := Option.ite_none_right_eq_some.mp hm
    obtain rfl := Option.some.inj hsame
    rw [haccount, ← h.shown r u s.now hr, hfound]
    rfl
  | some f =>
    have hknown := h.known_of_some hr hfound
    rw [hfound] at haccount
    exact ⟨_, _, alter_of_some h.stocked hfound _,
      h.after_write hr (hmark _) haccount nofun (congrArg Except.ok hknown.symm)⟩

theorem isSome_seen (h : Kept s past) (hr : NulFree r) (u : String) :
    (s.seen .loginFailures (key r u).encode s.now).isSome = known (marks r u past) := by
  have hshown : s.recordAt LoginFailure .loginFailures (key r u) s.now = _ := h.shown r u s.now hr
  rw [h.stocked.seen_eq, hshown, Option.isSome_map, isSome_account]

theorem remove (h : Kept s past) (hr : NulFree r) (u : String) :
    Answered s past r (.remove u) := by
  have hdelete := Update.delete_eq (key r u) h.stocked.readable
  rw [h.isSome_seen hr] at hdelete
  exact ⟨_, _, hdelete, h.after_remove hr (fun _ _ => rfl) rfl⟩

theorem removeAll (h : Kept s past) (hr : NulFree r) : Answered s past r .removeAll := by
  have hremove := Update.deletePartition_eq h.stocked.readable r
  rw [← RowStore.length_scan hr, ← List.length_map (·.1.clustering)] at hremove
  refine ⟨_, _, hremove, h.after_removePartition hr (fun _ _ => rfl) ⟨_, ?_, fun u => ?_, rfl⟩⟩
  · exact RowStore.scan_clustering_nodup hr
  · rw [RowStore.mem_clusterings_scan_iff hr, ← h.isSome_seen hr]
    rfl

theorem call (h : Kept s past) (hr : NulFree r) (request : Request α) :
    Answered s past r request := by
  cases request with
  | get u => exact h.get hr u
  | record u ipAddress => exact h.record hr u ipAddress
  | setNotBefore u notBefore => exact h.setNotBefore hr u notBefore
  | clear u => exact h.clear hr u
  | remove u => exact h.remove hr u
  | removeAll => exact h.removeAll hr

end Kept

structure Course where
  rows : RowStore
  past : List Entry

inductive Event where
  | call {α : Type} (realmId : String) (request : Request α)
  | sweep
  | elsewhere (act : RowStore → RowStore)

def Event.Admitted : Event → Prop
  | call realmId _ => NulFree realmId
  | sweep => True
  | elsewhere act => ∀ s, (act s).table .loginFailures = s.table .loginFailures

namespace Course

def step (c : Course) : Event → Course
  | .call realmId request =>
    let (answer, rows) := request.perform realmId c.rows
    ⟨rows, ⟨realmId, request, c.rows.now, answer⟩ :: c.past⟩
  | .sweep => { c with rows := c.rows.sweep.2 }
  | .elsewhere act => { c with rows := act c.rows }

def run (c : Course) (events : List Event) : Course := events.foldl step c

end Course

namespace Kept

variable {c : Course}

theorem step (h : Kept c.rows c.past) {e : Event} (he : e.Admitted) :
    Kept (c.step e).rows (c.step e).past := by
  cases e with
  | call realmId request =>
    obtain ⟨answer, s', hperform, hkept⟩ := h.call he request
    rw [Course.step, hperform]
    exact hkept
  | sweep => exact h.reclaimed c.rows.reclaimed_sweep
  | elsewhere act => exact h.congr (he c.rows)

theorem run (h : Kept c.rows c.past) {events : List Event} (hevents : ∀ e ∈ events, e.Admitted) :
    Kept (c.run events).rows (c.run events).past := by
  induction events generalizing c with
  | nil => exact h
  | cons e events ih =>
    have hrest := fun f hf => hevents f (List.mem_cons_of_mem _ hf)
    exact ih (h.step (hevents e List.mem_cons_self)) hrest

end Kept

/-- Whatever has been called for whichever realms and users, and whatever was done elsewhere and to
the clock, a user's failures are kept from the first one since the user's removal on, with their
number since the last reset, the instant and the address of the last one of them, and the lock that
was set last since then. Each call answers what the calls before it make it. -/
theorem accounts_follow_past (s : RowStore) (hs : s.table .loginFailures = ∅) (events : List Event)
    (hevents : ∀ e ∈ events, e.Admitted) :
    let c := Course.run ⟨s, []⟩ events
    (∀ e earlier, e :: earlier <:+ c.past → e.Fits earlier) ∧
      ∀ r u, NulFree r → get r u c.rows = .ok (account (marks r u c.past) r u) := by
  intro c
  have hstart : Kept s [] := (kept_empty 0).congr (hs.trans (RowStore.table_empty 0 _).symm)
  have hkept : Kept c.rows c.past := hstart.run (c := ⟨s, []⟩) hevents
  refine ⟨hkept.fits, fun r u hr => ?_⟩
  rw [get_eq hkept.stocked, hkept.shown r u _ hr]

theorem accounts_follow_past_after_reset :
    let events : List Event := [.call "r" (.setNotBefore "u" 90), .call "r" (.record "u" none),
      .call "ra" (.record "u" none), .call "r" (.setNotBefore "u" 95), .call "r" (.clear "u"),
      .call "r" (.record "u" (some "10.0.0.1")), .elsewhere ({ · with now := 7 }),
      .call "r" (.setNotBefore "u" 99), .call "r" (.record "u" (some "10.0.0.2")), .sweep,
      .call "ra" .removeAll]
    let c := Course.run ⟨.empty 5, []⟩ events
    (RowStore.empty 5).table .loginFailures = ∅ ∧ (∀ e ∈ events, e.Admitted) ∧
      ((∀ e earlier, e :: earlier <:+ c.past → e.Fits earlier) ∧
        ∀ r u, NulFree r → get r u c.rows = .ok (account (marks r u c.past) r u)) ∧
      get "r" "u" c.rows = .ok (some ⟨"r", "u", 99, 2, 7, some "10.0.0.2"⟩) ∧
      get "ra" "u" c.rows = .ok none := by
  intro events c
  have hempty : (RowStore.empty 5).table .loginFailures = ∅ := RowStore.table_empty 5 _
  have hevents : ∀ e ∈ events, e.Admitted := by
    have hr : NulFree "r" := by decide
    have hra : NulFree "ra" := by decide
    simp [events, Event.Admitted, hr, hra, RowStore.table]
  exact ⟨hempty, hevents, accounts_follow_past _ hempty events hevents, by decide +kernel,
    by decide +kernel⟩

end IdentityDirectory.LoginFailures
