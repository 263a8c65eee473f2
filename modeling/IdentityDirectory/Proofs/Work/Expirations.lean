import IdentityDirectory.Proofs.Session.Lifetime
import Mathlib.Logic.Relation

/-!
How long a record with an expiration of its own can be found. Its row gets a deadline in whole seconds
from the moment of the write, and stays as written while only sweeps, passing time and changes to other
rows follow. Main statement: `found_until_expiration_of_record`.
-/

namespace IdentityDirectory

namespace Lifetime

variable {α : Type} [Expirable α] {record : α} {lifetime now : Int}

theorem of_mem_range (h : lifetime ∈ Lifetime.of record now) :
    shortest ≤ lifetime ∧ lifetime ≤ longest := by
  obtain ⟨expiration, -, rfl⟩ := Option.map_eq_some_iff.mp h
  simp only [untilExpiration, shortest, longest]
  omega

end Lifetime

namespace RowStore

variable {s s' : RowStore} {t : Table} {key : RowKey} {row : Row}

/-- A step that neither writes nor removes the row under `key`, unless by sweeping it. -/
inductive Bypasses (t : Table) (key : RowKey) (s : RowStore) : RowStore → Prop
  | sweep : Bypasses t key s s.sweep.2
  | advance (millis : Nat) : Bypasses t key s { s with now := s.now + millis }
  | elsewhere {s' : RowStore} (hnow : s'.now = s.now)
      (hcell : (s'.table t).get? key.encode = (s.table t).get? key.encode) : Bypasses t key s s'

def Keeps (s : RowStore) (t : Table) (key : RowKey) (row : Row) : Prop :=
  (s.table t).get? key.encode = some (.row row) ∨
    (s.table t).get? key.encode = none ∧ row.isLive s.now = false

theorem Keeps.get_eq (h : s.Keeps t key row) :
    s.get t key = .ok ((some row).filter (·.isLive s.now)) := by
  have hreadable : s.ReadableAt t key.encode := by
    intro hunreadable
    rcases h with hcell | ⟨hnone, -⟩
    · rw [hcell] at hunreadable
      cases hunreadable
    · rw [hnone] at hunreadable
      cases hunreadable
  rw [hreadable.get_eq]
  rcases h with hcell | ⟨hnone, hdead⟩
  · rw [rowAt, hcell]
    rfl
  · rw [rowAt, hnone, Option.filter_some, hdead]
    rfl

theorem Keeps.bypassed (h : s.Keeps t key row) (hs : Bypasses t key s s') :
    s'.Keeps t key row ∧ s.now ≤ s'.now := by
  cases hs with
  | sweep =>
    have hswept := s.reclaimed_sweep
    refine ⟨?_, Int.le_of_eq hswept.now.symm⟩
    rw [Keeps, hswept.now]
    rcases hswept.cells t key.encode with hcell | ⟨hgone, dead, hdead, hexpired⟩
    · rw [hcell]
      exact h
    · refine .inr ⟨hgone, ?_⟩
      rcases h with hthere | ⟨-, hexpired⟩
      · have hsame : dead = row := by
          rw [rowAt, hthere] at hdead
          exact (Option.some.inj hdead).symm
        exact hsame ▸ hexpired
      · exact hexpired
  | advance millis =>
    have hle : s.now ≤ s.now + millis := Int.le_add_of_nonneg_right (Int.natCast_nonneg millis)
    refine ⟨h.imp_right fun hgone => ⟨hgone.1, ?_⟩, hle⟩
    exact Bool.eq_false_iff.mpr fun hlive =>
      Bool.eq_false_iff.mp hgone.2 (Row.isLive_of_le hle hlive)
  | elsewhere hnow hcell =>
    refine ⟨?_, Int.le_of_eq hnow.symm⟩
    rw [Keeps, hcell, hnow]
    exact h

theorem Keeps.bypassed_run (h : s.Keeps t key row)
    (hs : Relation.ReflTransGen (Bypasses t key) s s') :
    s'.Keeps t key row ∧ s.now ≤ s'.now := by
  induction hs with
  | refl => exact ⟨h, Int.le_refl _⟩
  | tail _ hstep ih =>
    obtain ⟨hkeeps, hle⟩ := ih
    obtain ⟨hkeeps', hle'⟩ := hkeeps.bypassed hstep
    exact ⟨hkeeps', Int.le_trans hle hle'⟩

theorem keeps_write (s : RowStore) (t : Table) (key : RowKey) (payload : Payload)
    (lifetime : Option Int) :
    (s.write t key.encode payload lifetime).Keeps t key
      (s.successor (s.rowAt t key.encode) payload lifetime) := by
  left
  rw [write, table_replaceRow, if_pos rfl, StringMap.get?_insert, if_pos rfl]

end RowStore

open RowStore in
/-- The row of a record is never found once the record's expiration has come. Unless its lifetime was
cut short it is found up to a second before that, and without an expiration at every instant. -/
theorem found_until_expiration_of_record {α : Type} [Storable α] [Expirable α] {s : RowStore}
    {t : Table} {key : RowKey} (h : s.ReadableAt t key.encode) (record : α)
    (hr : ∀ e ∈ Expirable.expiration record, Time.InRange e) :
    ∃ lifetime row s', Update.putExpirable t key record s = (.ok lifetime, s') ∧
      s'.rowAt t key.encode = some row ∧ row.payload = Storable.payload record ∧
      (∀ l ∈ lifetime, Lifetime.shortest ≤ l ∧ l ≤ Lifetime.longest) ∧
      row.expiresAt = lifetime.map (Lifetime.deadline · s.now) ∧
      ∀ later, Relation.ReflTransGen (Bypasses t key) s' later →
        (Expirable.expiration record = none → later.get t key = .ok (some row)) ∧
        ∀ e ∈ Expirable.expiration record,
          (∀ found, later.get t key = .ok (some found) → found = row ∧ later.now < e) ∧
          (e - s.now ≤ 1000 * Lifetime.longest → later.now ≤ e - 1000 →
            later.get t key = .ok (some row)) := by
  let lifetime := Lifetime.of record s.now
  let row := s.successor (s.rowAt t key.encode) (Storable.payload record) lifetime
  let s' := s.write t key.encode (Storable.payload record) lifetime
  have hput : Update.putExpirable t key record s = (.ok lifetime, s') := by
    have hwrite : Update.put t key record lifetime s = (.ok row.version, s') :=
      Update.ofRows_of_ok (h.put_eq key _ lifetime)
    rw [Update.putExpirable, Update.bind_liftM_of_ok (Query.now_apply s), Update.bind_of_ok hwrite]
    rfl
  have hrow : s'.rowAt t key.encode = some row := by
    rw [rowAt_write, if_pos ⟨rfl, rfl⟩]
  refine ⟨lifetime, row, s', hput, hrow, rfl, fun _ => Lifetime.of_mem_range, rfl, ?_⟩
  intro later hlater
  obtain ⟨hkeeps, hle⟩ := (keeps_write s t key _ lifetime).bypassed_run hlater
  have hget : later.get t key =
      .ok (if Lifetime.lasts lifetime s.now later.now then some row else none) := by
    rw [hkeeps.get_eq, Option.filter_some, isLive_successor]
  have hlasts : ∀ e ∈ Expirable.expiration record, Lifetime.lasts lifetime s.now later.now =
      decide (later.now < Lifetime.deadline (Lifetime.untilExpiration e s.now) s.now) := by
    intro e he
    rw [Option.mem_def] at he
    simp only [lifetime, Lifetime.of, he, Option.map_some, Lifetime.lasts]
  refine ⟨fun hnone => ?_, fun e he => ⟨fun found hfound => ?_, fun hlong hsoon => ?_⟩⟩
  · simp only [hget, lifetime, Lifetime.of, hnone, Option.map_none, Lifetime.lasts, if_true]
  · rw [hget, hlasts e he] at hfound
    split at hfound
    · next hlive =>
      refine ⟨(Option.some.inj (Except.ok.inj hfound)).symm, ?_⟩
      exact Lifetime.lt_of_lt_deadline (hr e he) hle (of_decide_eq_true hlive)
    · cases hfound
  · rw [Int.mul_comm] at hlong
    have hlive := Lifetime.lt_deadline_of_le (hr e he) hlong hsoon
    rw [hget, hlasts e he, decide_eq_true hlive, if_pos rfl]

open RowStore in
theorem found_until_expiration_of_token :
    let token : SingleUseObject := { key := "k", expiration := some 10000 }
    let (lifetime, written) :=
      Update.putExpirable .singleUseObjects (.single "k") token (.empty (-1500))
    let later := { written.sweep.2 with now := 9000 }
    lifetime = .ok (some 11) ∧
      ∃ row, row.expiresAt = some 9500 ∧
        later.get .singleUseObjects (.single "k") = .ok (some row) ∧
        ∀ last, Relation.ReflTransGen (Bypasses .singleUseObjects (.single "k")) later last →
          10000 ≤ last.now →
            ∀ found, last.get .singleUseObjects (.single "k") ≠ .ok (some found) := by
  intro token
  have hr : ∀ e ∈ Expirable.expiration token, Time.InRange e := by
    intro e he
    cases he
    exact ⟨by decide, by decide⟩
  have hreadable : (empty (-1500)).ReadableAt .singleUseObjects (RowKey.single "k").encode :=
    readable_empty _ _ _
  obtain ⟨lifetime, row, written, hput, -, -, -, hdeadline, hlater⟩ :=
    found_until_expiration_of_record hreadable token hr
  have hlifetime : lifetime = some 11 := by
    have hresult : (Update.putExpirable .singleUseObjects (.single "k") token (.empty (-1500))).1 =
        .ok (some 11) := by decide +kernel
    rw [hput] at hresult
    exact Except.ok.inj hresult
  have hwritten : written.sweep.2.now = -1500 := by
    have hnow : (Update.putExpirable .singleUseObjects (.single "k") token
        (.empty (-1500))).2.sweep.2.now = -1500 := by decide +kernel
    rw [hput] at hnow
    exact hnow
  rw [hput]
  let later := { written.sweep.2 with now := 9000 }
  have hadvance : Bypasses .singleUseObjects (.single "k") written.sweep.2 later := by
    have hnow : later = { written.sweep.2 with now := written.sweep.2.now + (10500 : Nat) } := by
      rw [hwritten]
      rfl
    rw [hnow]
    exact .advance 10500
  have hrun : Relation.ReflTransGen (Bypasses .singleUseObjects (.single "k")) written later :=
    .tail (.single .sweep) hadvance
  refine ⟨congrArg Except.ok hlifetime, row, ?_, ?_, fun last hlast hover found hfound => ?_⟩
  · rw [hdeadline, hlifetime]
    rfl
  · exact ((hlater later hrun).2 10000 rfl).2 (by decide) (Int.le_refl 9000)
  · have hlt := (((hlater last (hrun.trans hlast)).2 10000 rfl).1 found hfound).2
    omega

end IdentityDirectory
