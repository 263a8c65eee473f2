import IdentityDirectory.Proofs.Index.Regular
import IdentityDirectory.Rows.Sweep

/-!
Histories of an index: any sequence of sets, removals and refreshes, with sweeps and moves of the
clock in between, starting from an empty store. The ledger keeps for each attribute what was last
set and when it ends. Main statement: `lookups_follow_ledger`.
-/

namespace IdentityDirectory.AttributeIndex

inductive Event where
  | set (ix : AttributeIndex) (scope entity name : String) (values : List String)
      (lifetime : Option Int)
  | remove (ix : AttributeIndex) (scope entity name : String)
  | removeAll (ix : AttributeIndex) (scope entity : String)
  | refresh (ix : AttributeIndex) (scope entity : String) (lifetime : Option Int)
  | sweep
  | advance (millis : Nat)

namespace Event

def act : Event → Update Unit
  | set ix scope entity name values lifetime => ix.setAttribute scope entity name values lifetime
  | remove ix scope entity name => discard (ix.removeAttribute scope entity name)
  | removeAll ix scope entity => discard (ix.removeAttributesOf scope entity)
  | refresh ix scope entity lifetime => ix.refreshLifetime scope entity lifetime
  | sweep => modify fun s => s.sweep.2
  | advance millis => modify fun s => { s with now := s.now + millis }

def WellFormed : Event → Prop
  | set _ scope entity name values _ =>
    Plain scope ∧ NulFree entity ∧ Plain name ∧ ∀ v ∈ values, NulFree v
  | remove _ scope entity name => Plain scope ∧ NulFree entity ∧ Plain name
  | removeAll _ scope entity => Plain scope ∧ NulFree entity
  | refresh _ scope entity _ => Plain scope ∧ NulFree entity
  | sweep => True
  | advance _ => True

instance : (e : Event) → Decidable e.WellFormed
  | set .. => inferInstanceAs (Decidable (_ ∧ _ ∧ _ ∧ _))
  | remove .. => inferInstanceAs (Decidable (_ ∧ _ ∧ _))
  | removeAll .. => inferInstanceAs (Decidable (_ ∧ _))
  | refresh .. => inferInstanceAs (Decidable (_ ∧ _))
  | sweep => inferInstanceAs (Decidable True)
  | advance _ => inferInstanceAs (Decidable True)

end Event

structure Entry where
  values : List String
  nodup : values.Nodup
  ends : Option Int

namespace Entry

def lasts (e : Entry) (time : Int) : Bool := e.ends.all (time < ·)

def remaining (e : Option Entry) (time : Int) : List String :=
  match e with
  | none => []
  | some e => if e.lasts time then e.values else []

theorem lasts_of_le {e : Entry} {time later : Int} (hle : time ≤ later) (h : e.lasts later) :
    e.lasts time := by
  unfold lasts at h ⊢
  cases hends : e.ends with
  | none => rfl
  | some d =>
    simp only [hends, Option.all_some, decide_eq_true_eq] at h ⊢
    omega

end Entry

structure Ledger where
  now : Int
  entry : AttributeIndex → String → String → String → Option Entry

namespace Ledger

def opened (now : Int) : Ledger := ⟨now, fun _ _ _ _ => none⟩

def valuesAt (l : Ledger) (ix : AttributeIndex) (scope entity name : String) (time : Int) :
    List String :=
  Entry.remaining (l.entry ix scope entity name) time

def valuesOf (l : Ledger) (ix : AttributeIndex) (scope entity name : String) : List String :=
  l.valuesAt ix scope entity name l.now

def alter (l : Ledger) (ix : AttributeIndex) (scope entity : String)
    (f : String → Option Entry → Option Entry) : Ledger :=
  { l with entry := fun ix' scope' entity' name =>
      if ix' = ix ∧ scope' = scope ∧ entity' = entity then f name (l.entry ix' scope' entity' name)
      else l.entry ix' scope' entity' name }

def endOf (l : Ledger) (lifetime : Option Int) : Option Int :=
  lifetime.map (Lifetime.deadline · l.now)

def written (l : Ledger) (values : List String) (lifetime : Option Int) : Option Entry :=
  if values = [] then none else some ⟨distinct values, distinct_nodup values, l.endOf lifetime⟩

def renewed (l : Ledger) (lifetime : Option Int) (e : Entry) : Entry :=
  if e.lasts l.now then { e with ends := l.endOf lifetime } else e

def step (l : Ledger) : Event → Ledger
  | .set ix scope entity name values lifetime =>
    l.alter ix scope entity fun n e => if n = name then l.written values lifetime else e
  | .remove ix scope entity name => l.alter ix scope entity fun n e => if n = name then none else e
  | .removeAll ix scope entity => l.alter ix scope entity fun _ _ => none
  | .refresh ix scope entity lifetime =>
    l.alter ix scope entity fun _ e => e.map (l.renewed lifetime)
  | .sweep => l
  | .advance millis => { l with now := l.now + millis }

def after (start : Int) (events : List Event) : Ledger := events.foldl step (opened start)

variable {l : Ledger} {ix ix' : AttributeIndex} {scope scope' entity entity' name : String}
  {values : List String} {lifetime : Option Int} {time : Int}
  {f : String → Option Entry → Option Entry}

theorem entry_alter_of_ne (h : ix' ≠ ix) : (l.alter ix scope entity f).entry ix' = l.entry ix' := by
  funext scope' entity' name
  exact if_neg fun hsame => h hsame.1

theorem valuesAt_alter : (l.alter ix scope entity f).valuesAt ix scope' entity' name time =
    if scope' = scope ∧ entity' = entity then
      Entry.remaining (f name (l.entry ix scope entity name)) time
    else l.valuesAt ix scope' entity' name time := by
  by_cases hsame : scope' = scope ∧ entity' = entity
  · obtain ⟨rfl, rfl⟩ := hsame
    simp [valuesAt, alter]
  · simp only [valuesAt, alter, true_and, if_neg hsame]

theorem lasts_endOf {e : Entry} (h : e.ends = l.endOf lifetime) :
    e.lasts time = Lifetime.lasts lifetime l.now time := by
  rw [Entry.lasts, h, endOf]
  cases lifetime <;> rfl

theorem remaining_written : Entry.remaining (l.written values lifetime) time =
    if Lifetime.lasts lifetime l.now time then distinct values else [] := by
  rw [written]
  by_cases h : values = []
  · subst h
    exact (ite_self _).symm
  · rw [if_neg h, Entry.remaining, lasts_endOf rfl]

theorem remaining_renewed (hle : l.now ≤ time) :
    Entry.remaining ((l.entry ix scope entity name).map (l.renewed lifetime)) time =
      if Lifetime.lasts lifetime l.now time then
        distinct (l.valuesAt ix scope entity name l.now)
      else [] := by
  rw [valuesAt]
  cases l.entry ix scope entity name with
  | none => exact (ite_self _).symm
  | some e =>
    rw [Option.map_some, renewed, Entry.remaining, Entry.remaining]
    by_cases hnow : e.lasts l.now
    · rw [if_pos hnow, if_pos hnow, lasts_endOf rfl, distinct_of_nodup e.nodup]
    · have hlater : ¬ e.lasts time := fun h => hnow (Entry.lasts_of_le hle h)
      rw [if_neg hnow, if_neg hnow, if_neg hlater]
      exact (ite_self _).symm

end Ledger

structure Agrees (s : RowStore) (l : Ledger) : Prop where
  now : s.now = l.now
  regular : ∀ ix : AttributeIndex, ix.Regular s Plain Plain
  values : ∀ (ix : AttributeIndex) scope entity name time, Plain scope → NulFree entity →
    s.now ≤ time → ix.valuesAt s scope entity name time = l.valuesAt ix scope entity name time

theorem agrees_opened (now : Int) : Agrees (.empty now) (.opened now) where
  now := rfl
  regular ix := regular_empty ix now Plain Plain
  values ix scope entity name time _ _ _ := by
    rw [valuesAt, RowStore.recordAt, RowStore.seen_empty]
    rfl

variable {s s' : RowStore} {l l' : Ledger} {ix : AttributeIndex} {scope entity name : String}
  {values : List String} {lifetime : Option Int}

theorem Agrees.alter (h : Agrees s l) {f : String → Option Entry → Option Entry}
    (hw : ix.Within s s') (hregular : ix.Regular s' Plain Plain)
    (hvalues : ∀ scope' entity' name time, Plain scope' → NulFree entity' → s.now ≤ time →
      ix.valuesAt s' scope' entity' name time =
        if scope' = scope ∧ entity' = entity then
          Entry.remaining (f name (l.entry ix scope entity name)) time
        else ix.valuesAt s scope' entity' name time) :
    Agrees s' (l.alter ix scope entity f) where
  now := hw.now.trans h.now
  regular ix' := by
    by_cases hix : ix = ix'
    · exact hix ▸ hregular
    · exact (h.regular ix').of_within hix hw
  values ix' scope' entity' name time hs' he' hle := by
    rw [hw.now] at hle
    by_cases hix : ix = ix'
    · subst hix
      rw [hvalues scope' entity' name time hs' he' hle, Ledger.valuesAt_alter,
        h.values ix scope' entity' name time hs' he' hle]
    · rw [valuesAt_of_within hix hw, h.values ix' scope' entity' name time hs' he' hle,
        Ledger.valuesAt, Ledger.valuesAt, Ledger.entry_alter_of_ne (Ne.symm hix)]

theorem distinguishes_plain : Distinguishes Plain Plain := distinguishes_of_plain fun _ h => h

theorem Agrees.set (h : Agrees s l) (hs : Plain scope) (he : NulFree entity) (hn : Plain name)
    (hv : ∀ v ∈ values, NulFree v) : Agrees (ix.set s scope entity name values lifetime)
      (l.step (.set ix scope entity name values lifetime)) := by
  have hregular : ix.Regular (ix.set s scope entity name values lifetime) Plain Plain :=
    (h.regular ix).set (fun _ h => h) distinguishes_plain hs he hn fun _ => hv
  refine h.alter within_set hregular fun scope' entity' name' time hs' he' hle => ?_
  rw [valuesAt_set hs he hs' he']
  by_cases hent : scope' = scope ∧ entity' = entity
  · obtain ⟨rfl, rfl⟩ := hent
    simp only [true_and]
    split
    · rw [if_true, Ledger.remaining_written, h.now]
    · exact h.values ix scope' entity' name' time hs' he' hle
  · rw [if_neg hent, if_neg fun hall => hent ⟨hall.1, hall.2.1⟩]

theorem Agrees.clear (h : Agrees s l) (hs : Plain scope) (he : NulFree entity) (hn : Plain name) :
    Agrees (ix.clear s scope entity name) (l.step (.remove ix scope entity name)) := by
  have hregular : ix.Regular (ix.clear s scope entity name) Plain Plain :=
    (h.regular ix).clear (fun _ h => h) distinguishes_plain hs (fun _ => he) hn
  refine h.alter within_clear hregular fun scope' entity' name' time hs' he' hle => ?_
  rw [valuesAt_clear hs he hs' he']
  by_cases hent : scope' = scope ∧ entity' = entity
  · obtain ⟨rfl, rfl⟩ := hent
    simp only [true_and]
    split
    · rfl
    · exact h.values ix scope' entity' name' time hs' he' hle
  · rw [if_neg hent, if_neg fun hall => hent ⟨hall.1, hall.2.1⟩]

theorem Agrees.clearAll (h : Agrees s l) (hs : Plain scope) (he : NulFree entity) :
    Agrees (ix.clearAll s scope entity) (l.step (.removeAll ix scope entity)) := by
  have hregular : ix.Regular (ix.clearAll s scope entity) Plain Plain :=
    (h.regular ix).clearAll (fun _ h => h) distinguishes_plain hs
  refine h.alter (f := fun _ _ => none) within_clearAll hregular
    fun scope' entity' name' time hs' he' _ => ?_
  exact valuesAt_clearAll hs he hs' he'

theorem Agrees.refresh (h : Agrees s l) (hs : Plain scope) (he : NulFree entity) :
    Agrees (ix.refresh s scope entity lifetime) (l.step (.refresh ix scope entity lifetime)) := by
  have hregular : ix.Regular (ix.refresh s scope entity lifetime) Plain Plain :=
    (h.regular ix).refresh (fun _ h => h) distinguishes_plain hs he
  refine h.alter within_setEach hregular fun scope' entity' name' time hs' he' hle => ?_
  have hnow := h.values ix scope entity name' s.now hs he (Int.le_refl _)
  rw [valuesAt_refresh (h.regular ix).sound hs he hs' he' hle,
    Ledger.remaining_renewed (h.now ▸ hle), hnow, h.now]

theorem Agrees.sweep (h : Agrees s l) : Agrees s.sweep.2 l where
  now := s.now_sweep.trans h.now
  regular ix := (h.regular ix).reclaimed s.reclaimed_sweep
  values ix scope entity name time hs he hle := by
    rw [s.now_sweep] at hle
    rw [valuesAt, s.reclaimed_sweep.recordAt_eq hle]
    exact h.values ix scope entity name time hs he hle

theorem Agrees.advance (h : Agrees s l) (millis : Nat) :
    Agrees { s with now := s.now + millis } (l.step (.advance millis)) := by
  have hle : s.now ≤ s.now + millis := by omega
  constructor
  · rw [h.now]
    rfl
  · intro ix
    exact (h.regular ix).later hle
  · intro ix scope entity name time hs he hle'
    exact h.values ix scope entity name time hs he (Int.le_trans hle hle')

theorem Agrees.step (h : Agrees s l) {e : Event} (he : e.WellFormed) :
    ∃ s', e.act s = (.ok (), s') ∧ Agrees s' (l.step e) := by
  cases e with
  | set ix scope entity name values lifetime =>
    obtain ⟨hs, he, hn, hv⟩ := he
    exact ⟨_, setAttribute_eq (h.regular ix).sound _ _ _ _ _, h.set hs he hn hv⟩
  | remove ix scope entity name =>
    obtain ⟨hs, he, hn⟩ := he
    exact ⟨_, Update.discard_of_ok (removeAttribute_eq (h.regular ix).sound _ _ _), h.clear hs he hn⟩
  | removeAll ix scope entity =>
    exact ⟨_, Update.discard_of_ok (removeAttributesOf_eq (h.regular ix).sound _ _), h.clearAll he.1 he.2⟩
  | refresh ix scope entity lifetime =>
    exact ⟨_, refreshLifetime_eq (h.regular ix).sound _ _ _, h.refresh he.1 he.2⟩
  | sweep => exact ⟨_, rfl, h.sweep⟩
  | advance millis => exact ⟨_, rfl, h.advance millis⟩

theorem Agrees.run (h : Agrees s l) {events : List Event} (hw : ∀ e ∈ events, e.WellFormed) :
    ∃ s', events.forM Event.act s = (.ok (), s') ∧ Agrees s' (events.foldl Ledger.step l) := by
  induction events generalizing s l with
  | nil => exact ⟨s, rfl, h⟩
  | cons e events ih =>
    obtain ⟨s₁, hact, h₁⟩ := h.step (hw e List.mem_cons_self)
    obtain ⟨s₂, hrest, h₂⟩ := ih h₁ fun f hf => hw f (List.mem_cons_of_mem _ hf)
    refine ⟨s₂, ?_, h₂⟩
    rw [show (e :: events).forM Event.act = (e.act >>= fun _ => events.forM Event.act) from rfl,
      Update.bind_of_ok hact, hrest]

/-- After any history, an entity is found under a value once if the value is among its values, and
else not at all; and its values are what the ledger has for the attribute. -/
theorem lookups_follow_ledger (start : Int) (events : List Event)
    (hw : ∀ e ∈ events, e.WellFormed) :
    ∃ s, events.forM Event.act (.empty start) = (.ok (), s) ∧
      ∀ (ix : AttributeIndex) (scope name value entity : String), Plain scope → Plain name →
        NulFree value → NulFree entity →
        ∃ found values, ix.findBy scope name value s = .ok found ∧
          ix.valuesOf scope entity name s = .ok values ∧
          found.count entity = (if value ∈ values then 1 else 0) ∧
          values = (Ledger.after start events).valuesOf ix scope entity name := by
  obtain ⟨s, hrun, h⟩ := (agrees_opened start).run hw
  refine ⟨s, hrun, fun ix scope name value entity hs hn hv he => ?_⟩
  have hlists := ((h.regular ix).mirrors scope name hs hn).lists_iff entity value s.now hv (Int.le_refl _)
  have hvalues := h.values ix scope entity name s.now hs he (Int.le_refl _)
  refine ⟨_, _, findBy_eq (h.regular ix).sound _ _ _, valuesOf_eq (h.regular ix).sound _ _ _, ?_, ?_⟩
  · have hfound : entity ∈ ix.holders s scope name value ↔
        value ∈ ix.valuesAt s scope entity name s.now := by
      rw [mem_holders_iff hs hn hv, hlists]
      simp only [he, or_false, true_and]
    rw [(holders_nodup hs hn hv).count]
    simp only [hfound]
  · rw [hvalues, h.now]
    rfl

theorem lookups_follow_ledger_renewed :
    ∃ s, [Event.set .users "r" "u" "color" ["red", "blue", "red"] (some 10), .advance 9000,
        .refresh .users "r" "u" (some 5), .advance 4000, .sweep].forM Event.act (.empty 0) =
          (.ok (), s) ∧
      ∃ found, users.findBy "r" "color" "red" s = .ok found ∧ found.count "u" = 1 ∧
        users.valuesOf "r" "u" "color" s = .ok ["red", "blue"] := by
  obtain ⟨s, hrun, h⟩ := lookups_follow_ledger 0
    [.set .users "r" "u" "color" ["red", "blue", "red"] (some 10), .advance 9000,
      .refresh .users "r" "u" (some 5), .advance 4000, .sweep] (by decide)
  obtain ⟨found, values, hfound, hvalues, hcount, rfl⟩ :=
    h .users "r" "color" "red" "u" (by decide) (by decide) (by decide) (by decide)
  exact ⟨s, hrun, found, hfound, hcount, hvalues⟩

end IdentityDirectory.AttributeIndex
