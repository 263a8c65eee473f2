import Mathlib.Algebra.Group.Int.Defs
import IdentityDirectory.Proofs.Index.Retraction

/-!
Claims in full: which claims on a value make way for a new one, and what is left of the rows of the
value then. Main statement: `claimUnique_exact`.
-/

namespace IdentityDirectory.AttributeIndex

variable {ix : AttributeIndex} {s s' : RowStore} {scope entity name value owner : String}
  {row : Row} {lifetime : Option Int} {holds : String → Query Bool}

/-- What may be dropped: a claim made long ago, or by nobody knows when, on a value that its owner does
not hold. -/
def Abandoned (holds : String → Query Bool) (s : RowStore) (owner : String) (row : Row) : Prop :=
  (∀ instant : Int, row.read = .ok instant → 30000 ≤ s.now - instant) ∧ holds owner s = .ok false

theorem sub_lt_claimGrace_iff (now instant : Int) :
    Time.sub now instant < claimGrace ↔ now - instant < 30000 := by
  simp only [Time.sub, Time.clamp, Time.earliest, Time.latest, claimGrace]
  omega

theorem abandoned_iff (htotal : ∀ e, ∃ b, holds e s = .ok b) (h0 : 0 ≤ s.now) (k : RowKey)
    (row : Row) : Abandoned holds s k.clustering row ↔ ¬ Stands holds s (k, row) := by
  have hheld : holds k.clustering s = .ok false ↔ ¬ holds k.clustering s = .ok true := by
    obtain ⟨b, hb⟩ := htotal k.clustering
    rw [hb]
    cases b <;> simp
  have hold : (∀ instant : Int, row.read = .ok instant → 30000 ≤ s.now - instant) ↔
      ¬ Time.sub s.now (claimedAt row) < claimGrace := by
    rw [sub_lt_claimGrace_iff, Int.not_lt, claimedAt]
    cases hread : (row.read : Except StorageFault Int) with
    | ok instant => simp
    | error fault =>
      simp only [reduceCtorEq, false_implies, implies_true, true_iff, Time.earliest]
      omega
  rw [Abandoned, Stands, hheld, hold, not_or]

theorem staleClaims_of_fallen {rows : List (RowKey × Row)} (htotal : ∀ e, ∃ b, holds e s = .ok b)
    (hfallen : ∀ claim ∈ rows, claim.1.clustering ≠ entity → ¬ Stands holds s claim) :
    staleClaims entity holds rows s =
      .ok (some ((rows.filter (·.1.clustering ≠ entity)).map (·.1))) := by
  induction rows with
  | nil => rfl
  | cons claim rest ih =>
    have hrest := ih fun c hc => hfallen c (List.mem_cons_of_mem _ hc)
    obtain ⟨k, row⟩ := claim
    rw [staleClaims]
    by_cases hown : k.clustering = entity
    · rw [if_pos hown, hrest, List.filter_cons_of_neg (by simpa using hown)]
    · obtain ⟨hold, hnot⟩ := not_or.mp (hfallen _ List.mem_cons_self hown)
      obtain ⟨b, hb⟩ := htotal k.clustering
      have hfree : b = false := by
        cases b with
        | true => exact absurd hb hnot
        | false => rfl
      rw [if_neg hown, Query.bind_of_ok (Query.now_apply s), if_neg hold, Query.bind_of_ok hb,
        if_neg (by simp [hfree]), Query.bind_of_ok hrest,
        List.filter_cons_of_pos (by simpa using hown)]
      rfl

def rivals (ix : AttributeIndex) (s : RowStore) (scope entity name value : String) :
    List (RowKey × Row) :=
  (s.scan ix.reverse (valuePartition scope name value)).filter (·.1.clustering ≠ entity)

def evict (ix : AttributeIndex) (s : RowStore) (claims : List (RowKey × Row)) : RowStore :=
  claims.foldl (fun s claim => s.remove ix.reverse claim.1.encode) s

@[simp] theorem now_evict (claims : List (RowKey × Row)) : (ix.evict s claims).now = s.now := by
  induction claims generalizing s with
  | nil => rfl
  | cons claim rest ih => exact ih.trans (s.now_remove _ _)

theorem readable_evict (h : s.Readable ix.reverse) (claims : List (RowKey × Row)) :
    (ix.evict s claims).Readable ix.reverse := by
  induction claims generalizing s with
  | nil => exact h
  | cons claim rest ih => exact ih (h.remove _)

theorem get?_table_evict (h : s.Readable ix.reverse) (claims : List (RowKey × Row)) (t : Table)
    (key : String) :
    ((ix.evict s claims).table t).get? key =
      if t = ix.reverse ∧ key ∈ claims.map (·.1.encode) then none else (s.table t).get? key := by
  induction claims generalizing s with
  | nil => simp [evict]
  | cons claim rest ih =>
    rw [evict, List.foldl_cons, ← evict, ih (h.remove _)]
    by_cases ht : t = ix.reverse
    · subst ht
      rw [RowStore.get?_table_remove (h _)]
      by_cases hkey : key = claim.1.encode <;> by_cases hmem : key ∈ rest.map (·.1.encode) <;>
        simp [hkey, hmem]
    · rw [s.table_remove_of_ne ht, if_neg fun hboth => ht hboth.1, if_neg fun hboth => ht hboth.1]

theorem rowAt_evict (h : s.Readable ix.reverse) (claims : List (RowKey × Row)) (key : String) :
    (ix.evict s claims).rowAt ix.reverse key =
      if key ∈ claims.map (·.1.encode) then none else s.rowAt ix.reverse key := by
  rw [RowStore.rowAt, get?_table_evict h]
  by_cases hmem : key ∈ claims.map (·.1.encode)
  · rw [if_pos ⟨rfl, hmem⟩, if_pos hmem]
    rfl
  · rw [if_neg fun hboth => hmem hboth.2, if_neg hmem]
    rfl

theorem dropStaleClaims_of_fallen (h : s.Readable ix.reverse)
    (htotal : ∀ e, ∃ b, holds e s = .ok b)
    (hfallen : ∀ claim ∈ ix.rivals s scope entity name value, ¬ Stands holds s claim) :
    ix.dropStaleClaims scope entity name value holds s =
      (.ok true, ix.evict s (ix.rivals s scope entity name value)) := by
  have hstale : staleClaims entity holds (s.scan ix.reverse (valuePartition scope name value)) s =
      .ok (some ((ix.rivals s scope entity name value).map (·.1))) :=
    staleClaims_of_fallen htotal fun claim hmem hne =>
      hfallen claim (List.mem_filter.mpr ⟨hmem, decide_eq_true hne⟩)
  have hdelete : ∀ key ∈ (ix.rivals s scope entity name value).map (·.1), ∀ s' : RowStore,
      s'.Readable ix.reverse →
        (discard (Update.delete ix.reverse key) : Update Unit) s' =
          (.ok (), s'.remove ix.reverse key.encode) ∧
        (s'.remove ix.reverse key.encode).Readable ix.reverse := by
    intro key _ s' h'
    exact ⟨Update.discard_of_ok (Update.delete_eq key h'), h'.remove _⟩
  obtain ⟨hall, -⟩ := Update.forM_of_ok (g := fun s (key : RowKey) => s.remove ix.reverse key.encode)
    hdelete h
  rw [dropStaleClaims, Update.bind_liftM_of_ok (Query.scanPartition_eq h _),
    Update.bind_liftM_of_ok hstale]
  rw [List.foldl_map] at hall
  exact Update.bind_of_ok hall _

section Partition

variable (hp : NulFree (valuePartition scope name value))
include hp

theorem mem_rivals {claim : RowKey × Row} :
    claim ∈ ix.rivals s scope entity name value ↔
      ∃ owner ≠ entity, claim.1 = reverseKey scope owner name value ∧
        s.rowAt ix.reverse claim.1.encode = some claim.2 ∧ claim.2.isLive s.now := by
  obtain ⟨⟨partition, clustering⟩, row⟩ := claim
  rw [rivals, List.mem_filter, RowStore.mem_scan_iff hp, decide_eq_true_iff]
  constructor
  · rintro ⟨⟨rfl, hrow, hlive⟩, hne⟩
    exact ⟨clustering, hne, rfl, hrow, hlive⟩
  · rintro ⟨owner, hne, hkey, hrow, hlive⟩
    obtain ⟨rfl, rfl⟩ := RowKey.mk.inj hkey
    exact ⟨⟨rfl, hrow, hlive⟩, hne⟩

theorem not_occupied_iff : ¬ s.Occupied ix.reverse (reverseKey scope entity name value) ↔
    ix.rivals s scope entity name value = [] := by
  rw [RowStore.occupied_iff (show NulFree (reverseKey scope entity name value).partition from hp),
    List.eq_nil_iff_forall_not_mem]
  constructor
  · intro hfree claim hmem
    obtain ⟨owner, hne, hkey, hrow, hlive⟩ := (mem_rivals hp).mp hmem
    rw [hkey] at hrow
    exact hfree ⟨owner, claim.2, hne, hrow, hlive⟩
  · rintro hnone ⟨owner, row, hne, hrow, hlive⟩
    exact hnone (reverseKey scope owner name value, row)
      ((mem_rivals hp).mpr ⟨owner, hne, rfl, hrow, hlive⟩)

theorem rivals_evict (h : s.Readable ix.reverse) :
    ix.rivals (ix.evict s (ix.rivals s scope entity name value)) scope entity name value = [] := by
  rw [List.eq_nil_iff_forall_not_mem]
  intro claim hmem
  obtain ⟨owner, hne, hkey, hrow, hlive⟩ := (mem_rivals hp).mp hmem
  rw [rowAt_evict h, now_evict] at *
  split at hrow
  · cases hrow
  · next hkept =>
    refine hkept (List.mem_map_of_mem ?_)
    exact (mem_rivals hp).mpr ⟨owner, hne, hkey, hrow, hlive⟩

theorem scan_write (hfree : ix.rivals s scope entity name value = []) {payload : Payload}
    (hlasts : Lifetime.lasts lifetime s.now s.now) :
    let key := reverseKey scope entity name value
    (s.write ix.reverse key.encode payload lifetime).scan ix.reverse (valuePartition scope name value) =
      [(key, s.successor (s.rowAt ix.reverse key.encode) payload lifetime)] := by
  intro key
  have hascending : ((s.write ix.reverse key.encode payload lifetime).scan ix.reverse
      (valuePartition scope name value)).Pairwise fun a b => a.1.encode < b.1.encode :=
    RowStore.scan_encode_ascending
  have hkeys : ∀ owner, NulFree (reverseKey scope owner name value).partition := fun _ => hp
  refine eq_of_ascending hascending (List.pairwise_singleton _ _) fun claim => ?_
  obtain ⟨⟨partition, owner⟩, row⟩ := claim
  rw [RowStore.mem_scan_iff hp, RowStore.rowAt_write, RowStore.now_write, List.mem_singleton]
  constructor
  · rintro ⟨rfl, hrow, hlive⟩
    split at hrow
    · next hsame =>
      have hkey : reverseKey scope owner name value = key :=
        (RowKey.encode_inj (hkeys owner) (hkeys entity)).mp hsame.2
      exact Prod.ext hkey (Option.some.inj hrow).symm
    · next hother =>
      have hne : owner ≠ entity := by
        rintro rfl
        exact hother ⟨rfl, rfl⟩
      have hmem : (reverseKey scope owner name value, row) ∈ ix.rivals s scope entity name value :=
        (mem_rivals hp).mpr ⟨owner, hne, rfl, hrow, hlive⟩
      rw [hfree] at hmem
      cases hmem
  · intro heq
    obtain ⟨hkey, rfl⟩ := Prod.mk.inj heq
    rw [hkey]
    refine ⟨rfl, if_pos ⟨rfl, rfl⟩, ?_⟩
    rw [RowStore.isLive_successor]
    exact hlasts

theorem claimUnique_of_stands (h : s.Readable ix.reverse) (htotal : ∀ e, ∃ b, holds e s = .ok b)
    {claim : RowKey × Row} (hmem : claim ∈ ix.rivals s scope entity name value)
    (hstands : Stands holds s claim) (kind : UniqueKind) :
    ix.claimUnique scope entity name kind value lifetime holds s =
      (.error (.duplicateKey kind value), s) := by
  have hoccupied : s.Occupied ix.reverse (reverseKey scope entity name value) := by
    refine Decidable.byContradiction fun hfree => ?_
    rw [(not_occupied_iff hp).mp hfree] at hmem
    cases hmem
  have htry := tryClaim_of_readable h scope entity name value lifetime
  rw [if_pos hoccupied] at htry
  obtain ⟨hscan, hne⟩ := List.mem_filter.mp hmem
  have hstale := staleClaims_of_stands htotal hscan (of_decide_eq_true hne) hstands
  have hdrop : ix.dropStaleClaims scope entity name value holds s = (.ok false, s) := by
    rw [dropStaleClaims, Update.bind_liftM_of_ok (Query.scanPartition_eq h _),
      Update.bind_liftM_of_ok hstale]
    rfl
  rw [claimUnique, Update.bind_of_ok htry]
  dsimp only
  rw [if_neg (by simp), Update.bind_of_ok hdrop]
  rfl

theorem claimUnique_of_fallen (h : s.Readable ix.reverse) (htotal : ∀ e, ∃ b, holds e s = .ok b)
    (hfallen : ∀ claim ∈ ix.rivals s scope entity name value, ¬ Stands holds s claim)
    (kind : UniqueKind) :
    ix.claimUnique scope entity name kind value lifetime holds s =
      (.ok (), (ix.evict s (ix.rivals s scope entity name value)).write ix.reverse
        (reverseKey scope entity name value).encode (.stamp s.now) lifetime) := by
  have htry := tryClaim_of_readable h scope entity name value lifetime
  by_cases hfree : ix.rivals s scope entity name value = []
  · rw [if_neg ((not_occupied_iff hp).mpr hfree)] at htry
    rw [claimUnique, Update.bind_of_ok htry, hfree]
    rfl
  · rw [if_pos (Decidable.byContradiction fun hvacant => hfree ((not_occupied_iff hp).mp hvacant))]
      at htry
    have hagain := tryClaim_of_readable (readable_evict h (ix.rivals s scope entity name value))
      scope entity name value lifetime
    rw [if_neg ((not_occupied_iff hp).mpr (rivals_evict hp h)), now_evict] at hagain
    rw [claimUnique, Update.bind_of_ok htry]
    dsimp only
    rw [if_neg (by simp), Update.bind_of_ok (dropStaleClaims_of_fallen h htotal hfallen),
      if_pos rfl, Update.bind_of_ok hagain]
    rfl

end Partition

theorem lasts_of_positive {now : Int} (h : now ≤ 2 ^ 62) (hl : ∀ l ∈ lifetime, 0 < l) :
    Lifetime.lasts lifetime now now := by
  cases lifetime with
  | none => rfl
  | some l =>
    have hpositive := hl l rfl
    apply decide_eq_true
    simp only [Lifetime.deadline, Time.add, Time.clamp, Time.earliest, Time.latest]
    omega

/-- A claim succeeds exactly if every live claim of another entity on the value is abandoned. It then
stands alone; a refused one has changed nothing, and neither touches the claims on other values. -/
theorem claimUnique_exact (h : s.Readable ix.reverse) (h0 : 0 ≤ s.now) (hend : s.now ≤ 2 ^ 62)
    (hs : NulFree scope) (hn : NulFree name) (hv : NulFree value) (entity : String)
    (kind : UniqueKind) (hl : ∀ l ∈ lifetime, 0 < l) (htotal : ∀ e, ∃ b, holds e s = .ok b) :
    ∃ result s', ix.claimUnique scope entity name kind value lifetime holds s = (result, s') ∧
      s'.now = s.now ∧
      (result = .ok () ↔ ∀ owner row, owner ≠ entity →
        s.rowAt ix.reverse (reverseKey scope owner name value).encode = some row →
          row.isLive s.now → Abandoned holds s owner row) ∧
      (result = .ok () → ∃ row : Row, row.payload = .stamp s.now ∧
        row.expiresAt = lifetime.map (Lifetime.deadline · s.now) ∧
        s'.scanPartition ix.reverse (valuePartition scope name value) =
          .ok [(reverseKey scope entity name value, row)]) ∧
      (result ≠ .ok () → result = .error (.duplicateKey kind value) ∧ s' = s) ∧
      ∀ t key, (t = ix.reverse → ∀ owner, key ≠ (reverseKey scope owner name value).encode) →
        (s'.table t).get? key = (s.table t).get? key := by
  have hp : NulFree (valuePartition scope name value) :=
    RowKey.nulFree_composite_three.mpr ⟨hs, hn, hv⟩
  have hiff : (∀ claim ∈ ix.rivals s scope entity name value, ¬ Stands holds s claim) ↔
      ∀ owner row, owner ≠ entity →
        s.rowAt ix.reverse (reverseKey scope owner name value).encode = some row →
          row.isLive s.now → Abandoned holds s owner row := by
    constructor
    · intro hfallen owner row hne hrow hlive
      exact (abandoned_iff htotal h0 (reverseKey scope owner name value) row).mpr
        (hfallen _ ((mem_rivals hp).mpr ⟨owner, hne, rfl, hrow, hlive⟩))
    · rintro habandoned ⟨k, row⟩ hmem
      obtain ⟨owner, hne, rfl, hrow, hlive⟩ := (mem_rivals hp).mp hmem
      exact (abandoned_iff htotal h0 (reverseKey scope owner name value) row).mp
        (habandoned owner row hne hrow hlive)
  by_cases hfallen : ∀ claim ∈ ix.rivals s scope entity name value, ¬ Stands holds s claim
  · let evicted := ix.evict s (ix.rivals s scope entity name value)
    have hnow : evicted.now = s.now := now_evict _
    have hkept : evicted.Readable ix.reverse := readable_evict h _
    refine ⟨_, _, claimUnique_of_fallen hp h htotal hfallen kind, hnow,
      iff_of_true rfl (hiff.mp hfallen), fun _ => ?_, fun hne => absurd rfl hne, ?_⟩
    · let row := evicted.successor
        (evicted.rowAt ix.reverse (reverseKey scope entity name value).encode) (.stamp s.now) lifetime
      have hdeadline : row.expiresAt = lifetime.map (Lifetime.deadline · s.now) :=
        hnow ▸ (rfl : row.expiresAt = lifetime.map (Lifetime.deadline · evicted.now))
      have hlasts : Lifetime.lasts lifetime evicted.now evicted.now :=
        lasts_of_positive (hnow ▸ hend) hl
      refine ⟨row, rfl, hdeadline, ?_⟩
      rw [RowStore.scanPartition_eq (hkept.write _ _ _)]
      exact congrArg Except.ok (scan_write hp (rivals_evict hp h) hlasts)
    · intro t key hother
      have hevicted : (evicted.table t).get? key = (s.table t).get? key := by
        rw [get?_table_evict h, if_neg]
        rintro ⟨ht, hmem⟩
        obtain ⟨claim, hclaim, rfl⟩ := List.mem_map.mp hmem
        obtain ⟨owner, -, hkey, -⟩ := (mem_rivals hp).mp hclaim
        exact hother ht owner (by rw [hkey])
      by_cases ht : t = ix.reverse
      · subst ht
        rw [RowStore.get?_table_write, if_neg (hother rfl entity), hevicted]
      · rw [RowStore.table_write_of_ne _ ht, hevicted]
  · have hrefused := hfallen
    simp only [not_forall, not_not] at hrefused
    obtain ⟨claim, hmem, hstands⟩ := hrefused
    exact ⟨_, s, claimUnique_of_stands hp h htotal hmem hstands kind, rfl,
      iff_of_false nofun fun habandoned => hfallen (hiff.mpr habandoned), nofun,
      fun _ => ⟨rfl, rfl⟩, fun _ _ _ => rfl⟩

theorem claimUnique_exact_after_grace :
    let claimed (owner : String) (payload : Payload) (lifetime : Option Int) (s : RowStore) :=
      s.write .attributeUsers (reverseKey "r" owner "n" "v").encode payload lifetime
    let rows := claimed "d" (.stamp 2) none (claimed "c" (.stamp 1) (some 1)
      (claimed "b" (.stamp 0) none (claimed "a" (.bytes []) none (.empty 0))))
    let early := { rows with now := 20000 }
    let late := { rows with now := 30000 }
    let claim := users.claimUnique "r" "d" "n" .user "v" (some 5) fun _ => pure false
    claim early = (.error (.duplicateKey .user "v"), early) ∧
      ∃ s', claim late = (.ok (), s') ∧ ∃ row : Row, row.payload = .stamp 30000 ∧
        row.expiresAt = some 35000 ∧ s'.scanPartition .attributeUsers (valuePartition "r" "n" "v") =
          .ok [(reverseKey "r" "d" "n" "v", row)] := by
  intro claimed rows early late claim
  have hread : rows.Readable users.reverse :=
    ((((RowStore.readable_empty 0 _).write _ _ _).write _ _ _).write _ _ _).write _ _ _
  have hnul : NulFree "r" ∧ NulFree "n" ∧ NulFree "v" := by decide
  obtain ⟨hs, hn, hv⟩ := hnul
  have hpositive : ∀ l ∈ some (5 : Int), 0 < l := by
    intro l hl
    cases hl
    decide
  have htotal : ∀ (s : RowStore) (e : String),
      ∃ b, (fun _ => pure false : String → Query Bool) e s = .ok b := fun _ _ => ⟨false, rfl⟩
  have hlater : ∀ now : Int, ({ rows with now } : RowStore).Readable users.reverse := by
    clear_value rows
    exact fun _ => hread
  have hexact := fun (now : Int) (h0 : 0 ≤ now) (hend : now ≤ 2 ^ 62) =>
    claimUnique_exact (hlater now) h0 hend hs hn hv "d" .user hpositive (htotal _)
  constructor
  · obtain ⟨result, s', hclaim, -, -, -, hrefused, -⟩ := hexact 20000 (by decide) (by decide)
    have hresult : (claim early).1 ≠ .ok () := by decide +kernel
    rw [show claim early = (result, s') from hclaim] at hresult ⊢
    obtain ⟨rfl, rfl⟩ := hrefused hresult
    rfl
  · obtain ⟨result, s', hclaim, -, -, hgranted, -, -⟩ := hexact 30000 (by decide) (by decide)
    have hresult : (claim late).1 = .ok () := by decide +kernel
    rw [show claim late = (result, s') from hclaim] at hresult ⊢
    obtain rfl : result = .ok () := hresult
    exact ⟨s', rfl, hgranted rfl⟩

end IdentityDirectory.AttributeIndex
