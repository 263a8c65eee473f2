import IdentityDirectory.Proofs.Index.Regular

/-!
Claims of unique values. A claim is a reverse row that stands before its forward row; a commit lets
the forward row follow. Main statements: `claimUnique_eq`, by which a claim is refused exactly if
another entity has the value, and `Claiming`, with one lemma for each step from claim to commit.
-/

namespace IdentityDirectory.AttributeIndex

variable {ix : AttributeIndex} {s s' : RowStore} {scope entity name value : String}
  {scope' name' : String} {values : List String} {lifetime : Option Int} {time : Int}
  {claimed claimed' : String → String → Prop}

theorem Mirrors.claims_congr (h : ix.Mirrors s scope name claimed)
    (hiff : ∀ v e, claimed v e ↔ claimed' v e) : ix.Mirrors s scope name claimed' := by
  obtain rfl : claimed = claimed' := funext fun v => funext fun e => propext (hiff v e)
  exact h

def claim (ix : AttributeIndex) (s : RowStore) (scope entity name value : String) : RowStore :=
  s.write ix.reverse (reverseKey scope entity name value).encode (Storable.payload s.now) none

def release (ix : AttributeIndex) (s : RowStore) (scope entity name value : String) : RowStore :=
  s.remove ix.reverse (reverseKey scope entity name value).encode

def settle (ix : AttributeIndex) (s : RowStore) (scope entity name value : String) : RowStore :=
  ix.unlist (ix.writeForward s scope entity name [value] none) scope entity name
    ((ix.valuesAt s scope entity name s.now).filter (· ≠ value))

@[simp] theorem now_claim : (ix.claim s scope entity name value).now = s.now := rfl

@[simp] theorem now_release : (ix.release s scope entity name value).now = s.now :=
  s.now_remove _ _

@[simp] theorem now_settle : (ix.settle s scope entity name value).now = s.now := by
  rw [settle, now_unlist, writeForward, RowStore.now_write]

theorem table_claim_of_ne {t : Table} (h : t ≠ ix.reverse) :
    (ix.claim s scope entity name value).table t = s.table t := s.table_write_of_ne h _ _ _

theorem table_release_of_ne {t : Table} (h : t ≠ ix.reverse) :
    (ix.release s scope entity name value).table t = s.table t := s.table_remove_of_ne h _

theorem within_settle : ix.Within s (ix.settle s scope entity name value) :=
  (within_write (.inl rfl) _ _).trans within_unlist

theorem lists_claim {entity' value' : String} :
    ix.Lists (ix.claim s scope entity name value) scope' name' value' entity' time ↔
      (reverseKey scope' entity' name' value').encode = (reverseKey scope entity name value).encode ∨
        ix.Lists s scope' name' value' entity' time := by
  rw [Lists, claim, RowStore.seen_write]
  simp only [true_and]
  split
  · next h => simp [h, Lifetime.lasts]
  · next h => simp [h, Lists]

theorem lists_release {entity' value' : String} :
    ix.Lists (ix.release s scope entity name value) scope' name' value' entity' time ↔
      (reverseKey scope' entity' name' value').encode ≠ (reverseKey scope entity name value).encode ∧
        ix.Lists s scope' name' value' entity' time := by
  rw [Lists, release, RowStore.seen_remove]
  simp only [true_and]
  split
  · next h => simp [h]
  · next h => simp [h, Lists]

section Own

variable (hs : Plain scope) (hn : Plain name) (he : NulFree entity) (hv : NulFree value)
include hs hn he hv

theorem Mirrors.claim (h : ix.Mirrors s scope name claimed) :
    ix.Mirrors (ix.claim s scope entity name value) scope name
      fun v e => claimed v e ∨ v = value ∧ e = entity where
  nulFree entity' value' time he' hle hmem := by
    rw [valuesAt_congr (table_claim_of_ne ix.forward_ne_reverse)] at hmem
    exact h.nulFree entity' value' time he' hle hmem
  lists_iff entity' value' time hv' hle := by
    rw [lists_claim, reverseKey_inj hs hn hv' hs hn hv, h.lists_iff entity' value' time hv' hle,
      valuesAt_congr (table_claim_of_ne ix.forward_ne_reverse)]
    simp only [true_and]
    constructor
    · rintro (⟨rfl, rfl⟩ | ⟨he', hmem | hc⟩)
      · exact ⟨he, .inr (.inr ⟨rfl, rfl⟩)⟩
      · exact ⟨he', .inl hmem⟩
      · exact ⟨he', .inr (.inl hc)⟩
    · rintro ⟨he', hmem | hc | hnew⟩
      · exact .inr ⟨he', .inl hmem⟩
      · exact .inr ⟨he', .inr hc⟩
      · exact .inl hnew

theorem Mirrors.release (h : ix.Mirrors s scope name claimed)
    (hnot : value ∉ ix.valuesAt s scope entity name s.now) :
    ix.Mirrors (ix.release s scope entity name value) scope name
      fun v e => claimed v e ∧ ¬ (v = value ∧ e = entity) where
  nulFree entity' value' time he' hle hmem := by
    rw [valuesAt_congr (table_release_of_ne ix.forward_ne_reverse)] at hmem
    rw [now_release] at hle
    exact h.nulFree entity' value' time he' hle hmem
  lists_iff entity' value' time hv' hle := by
    rw [now_release] at hle
    rw [lists_release, Ne, reverseKey_inj hs hn hv' hs hn hv, h.lists_iff entity' value' time hv' hle,
      valuesAt_congr (table_release_of_ne ix.forward_ne_reverse)]
    simp only [true_and]
    constructor
    · rintro ⟨hne, he', hmem | hc⟩
      · exact ⟨he', .inl hmem⟩
      · exact ⟨he', .inr ⟨hc, hne⟩⟩
    · rintro ⟨he', hmem | ⟨hc, hne⟩⟩
      · refine ⟨?_, he', .inl hmem⟩
        rintro ⟨rfl, rfl⟩
        exact hnot (mem_valuesAt_of_le hle hmem)
      · exact ⟨hne, he', .inr hc⟩

theorem Mirrors.settle (h : ix.Mirrors s scope name claimed) (hclaimed : claimed value entity)
    (honly : ∀ v, claimed v entity → v = value) :
    ix.Mirrors (ix.settle s scope entity name value) scope name
      fun v e => claimed v e ∧ e ≠ entity where
  nulFree entity' value' time he' hle hmem := by
    rw [now_settle] at hle
    rw [AttributeIndex.settle, valuesAt_unlist, valuesAt_writeForward hs he hs he'] at hmem
    split at hmem
    · obtain rfl := List.mem_singleton.mp (by simpa [Lifetime.lasts] using hmem)
      exact hv
    · exact h.nulFree entity' value' time he' hle hmem
  lists_iff entity' value' time hv' hle := by
    rw [now_settle] at hle
    have hold : ∀ v ∈ (ix.valuesAt s scope entity name s.now).filter (· ≠ value), NulFree v :=
      fun v hmem => h.nulFree entity v s.now he (Int.le_refl _) (List.mem_filter.mp hmem).1
    rw [AttributeIndex.settle, lists_unlist, lists_writeForward, valuesAt_unlist,
      mem_reverseKeys_iff hs hn hold hv', h.lists_iff entity' value' time hv' hle]
    by_cases hent : entity' = entity
    · subst hent
      rw [valuesAt_writeForward hs he hs he]
      simp only [Lifetime.lasts, true_and, and_self, if_true, List.mem_singleton, List.mem_filter,
        decide_eq_true_eq, ne_eq, not_true_eq_false, and_false, or_false, he]
      constructor
      · rintro ⟨hkeep, hmem | hc⟩
        · exact Decidable.byContradiction fun hne =>
            hkeep ⟨mem_valuesAt_of_le hle hmem, by simpa using hne⟩
        · exact honly value' hc
      · rintro rfl
        exact ⟨by simp, .inr hclaimed⟩
    · simp only [hent, false_and, not_false_eq_true, true_and, ne_eq, and_true]
      refine and_congr_right fun he' => ?_
      rw [valuesAt_writeForward hs he hs he', if_neg fun hsame => hent hsame.2.1]

end Own

theorem Mirrors.claim_of_apart (h : ix.Mirrors s scope' name' claimed)
    (hap : Apart scope entity name scope' name') (value : String) :
    ix.Mirrors (ix.claim s scope entity name value) scope' name' claimed := by
  refine h.congr (Int.le_refl _) (fun entity' time _ _ => ?_) fun entity' value' time _ _ => ?_
  · rw [valuesAt_congr (table_claim_of_ne ix.forward_ne_reverse)]
  · rw [lists_claim]
    exact or_iff_right (hap.reverse value entity' value').symm

theorem Mirrors.release_of_apart (h : ix.Mirrors s scope' name' claimed)
    (hap : Apart scope entity name scope' name') (value : String) :
    ix.Mirrors (ix.release s scope entity name value) scope' name' claimed := by
  refine h.congr (Int.le_of_eq now_release.symm) (fun entity' time _ _ => ?_)
    fun entity' value' time _ _ => ?_
  · rw [valuesAt_congr (table_release_of_ne ix.forward_ne_reverse)]
  · rw [lists_release]
    exact and_iff_right (hap.reverse value entity' value').symm

theorem Mirrors.settle_of_apart (h : ix.Mirrors s scope' name' claimed)
    (hap : Apart scope entity name scope' name') (value : String) :
    ix.Mirrors (ix.settle s scope entity name value) scope' name' claimed := by
  refine h.congr (Int.le_of_eq now_settle.symm) (fun entity' time he' _ => ?_)
    fun entity' value' time _ _ => ?_
  · rw [AttributeIndex.settle, valuesAt_unlist, valuesAt_writeForward_of_ne (hap.forward entity' he').symm]
  · rw [AttributeIndex.settle, lists_unlist, lists_writeForward]
    exact and_iff_right (hap.notMem _ entity' value')

structure Claiming (ix : AttributeIndex) (s : RowStore) (P M : String → Prop)
    (r entity : String) (claims : String → String → Prop) : Prop where
  sound : ix.Sound s
  named : ∀ scope, Plain scope → ix.Named s scope P
  mirrors : ∀ scope name, Plain scope → M name → ix.Mirrors s scope name
    fun v e => scope = r ∧ e = entity ∧ claims name v

variable {P M : String → Prop} {r : String} {claims claims' : String → String → Prop}

theorem Regular.claiming (h : ix.Regular s P M) (r entity : String) :
    ix.Claiming s P M r entity fun _ _ => False where
  sound := h.sound
  named := h.named
  mirrors scope name hs hm := (h.mirrors scope name hs hm).claims_congr fun _ _ => by simp

theorem Claiming.regular (h : ix.Claiming s P M r entity claims) (hnone : ∀ n v, ¬ claims n v) :
    ix.Regular s P M where
  sound := h.sound
  named := h.named
  mirrors scope name hs hm := (h.mirrors scope name hs hm).claims_congr fun _ _ => by simp [hnone]

theorem Claiming.claims_congr (h : ix.Claiming s P M r entity claims)
    (hiff : ∀ n v, claims n v ↔ claims' n v) : ix.Claiming s P M r entity claims' where
  sound := h.sound
  named := h.named
  mirrors scope name hs hm := (h.mirrors scope name hs hm).claims_congr fun _ _ => by simp [hiff]

theorem Claiming.leaveOut (h : ix.Claiming s P M r entity claims) (hnone : ∀ v, ¬ claims name v) :
    ix.Claiming s P M r entity fun n v => claims n v ∧ n ≠ name := by
  apply h.claims_congr
  intro n v
  constructor
  · intro hc
    refine ⟨hc, ?_⟩
    rintro rfl
    exact hnone v hc
  · exact And.left

theorem Claiming.congr_tables (h : ix.Claiming s P M r entity claims)
    (hf : s'.table ix.forward = s.table ix.forward)
    (hr : s'.table ix.reverse = s.table ix.reverse) (hn : s'.now = s.now) :
    ix.Claiming s' P M r entity claims where
  sound := h.sound.congr hf hr
  named scope hs := (h.named scope hs).congr_table hf hn
  mirrors scope name hs hm := mirrors_congr_table hf hr hn (h.mirrors scope name hs hm)

section Steps

variable (hM : ∀ name, M name → Plain name) (hPM : Distinguishes P M) (hr : Plain r)
  (he : NulFree entity) (hp : P name)
include hM hPM hr he hp

theorem Claiming.claim (h : ix.Claiming s P M r entity claims) (hv : NulFree value) :
    ix.Claiming (ix.claim s r entity name value) P M r entity
      fun n v => claims n v ∨ n = name ∧ v = value where
  sound := h.sound.writeReverse _ _ _
  named scope hs := (h.named scope hs).congr_table (table_claim_of_ne ix.forward_ne_reverse) rfl
  mirrors scope name' hs hm := by
    have hold := h.mirrors scope name' hs hm
    by_cases hsame : scope = r ∧ name' = name
    · obtain ⟨rfl, rfl⟩ := hsame
      refine (hold.claim hs (hM name' hm) he hv).claims_congr fun v e => ?_
      simp only [true_and]
      constructor
      · rintro (⟨rfl, hc⟩ | ⟨rfl, rfl⟩)
        · exact ⟨rfl, .inl hc⟩
        · exact ⟨rfl, .inr rfl⟩
      · rintro ⟨rfl, hc | rfl⟩
        · exact .inl ⟨rfl, hc⟩
        · exact .inr ⟨rfl, rfl⟩
    · refine (hold.claim_of_apart (apart_of_written hPM hr hp hs hm hsame entity) value).claims_congr
        fun v e => and_congr_right fun hscope => and_congr_right fun _ => ?_
      exact (or_iff_left fun hboth => hsame ⟨hscope, hboth.1⟩).symm

theorem Claiming.release (h : ix.Claiming s P M r entity claims) (hv : NulFree value)
    (hnot : value ∉ ix.valuesAt s r entity name s.now) :
    ix.Claiming (ix.release s r entity name value) P M r entity
      fun n v => claims n v ∧ ¬ (n = name ∧ v = value) where
  sound := h.sound.remove _ _
  named scope hs := (h.named scope hs).congr_table (table_release_of_ne ix.forward_ne_reverse)
    now_release
  mirrors scope name' hs hm := by
    have hold := h.mirrors scope name' hs hm
    by_cases hsame : scope = r ∧ name' = name
    · obtain ⟨rfl, rfl⟩ := hsame
      refine (hold.release hs (hM name' hm) he hv hnot).claims_congr fun v e => ?_
      simp only [true_and]
      constructor
      · rintro ⟨⟨rfl, hc⟩, hne⟩
        exact ⟨rfl, hc, fun hv => hne ⟨hv, rfl⟩⟩
      · rintro ⟨rfl, hc, hne⟩
        exact ⟨⟨rfl, hc⟩, fun hboth => hne hboth.1⟩
    · refine (hold.release_of_apart (apart_of_written hPM hr hp hs hm hsame entity)
        value).claims_congr
        fun v e => and_congr_right fun hscope => and_congr_right fun _ => ?_
      exact (and_iff_left fun hboth => hsame ⟨hscope, hboth.1⟩).symm

theorem Claiming.settle (h : ix.Claiming s P M r entity claims) (hv : NulFree value)
    (hclaimed : claims name value) (honly : ∀ v, claims name v → v = value) :
    ix.Claiming (ix.settle s r entity name value) P M r entity fun n v => claims n v ∧ n ≠ name where
  sound := h.sound.writeForward.unlist
  named scope hs := ((h.named scope hs).writeForward hs hr he fun _ => hp).unlist
  mirrors scope name' hs hm := by
    have hold := h.mirrors scope name' hs hm
    by_cases hsame : scope = r ∧ name' = name
    · obtain ⟨rfl, rfl⟩ := hsame
      refine (hold.settle hs (hM name' hm) he hv ⟨rfl, rfl, hclaimed⟩
        fun v hc => honly v hc.2.2).claims_congr fun v e => ?_
      exact iff_of_false (fun hboth => hboth.2 hboth.1.2.1) fun hboth => hboth.2.2.2 rfl
    · refine (hold.settle_of_apart (apart_of_written hPM hr hp hs hm hsame entity)
        value).claims_congr
        fun v e => and_congr_right fun hscope => and_congr_right fun _ => ?_
      exact (and_iff_left fun hname => hsame ⟨hscope, hname⟩).symm

theorem Claiming.set (h : ix.Claiming s P M r entity claims) (hnone : ∀ v, ¬ claims name v)
    (hvs : M name → ∀ v ∈ values, NulFree v) :
    ix.Claiming (ix.set s r entity name values lifetime) P M r entity claims where
  sound := sound_set h.sound
  named scope hs := (h.named scope hs).set hs hr he fun _ => hp
  mirrors scope name' hs hm := by
    have hold := h.mirrors scope name' hs hm
    by_cases hsame : scope = r ∧ name' = name
    · obtain ⟨rfl, rfl⟩ := hsame
      have hfree : ix.Mirrors s scope name' Unclaimed :=
        hold.claims_congr fun v _ => iff_of_false (fun hc => hnone v hc.2.2) id
      refine (hfree.set hs he (hM name' hm) fun v hv => hvs hm v (mem_distinct.mp hv)).claims_congr
        fun v _ => iff_of_false id fun hc => hnone v hc.2.2
    · exact hold.set_of_apart (apart_of_written hPM hr hp hs hm hsame entity)

theorem Claiming.clear (h : ix.Claiming s P M r entity claims) (hnone : ∀ v, ¬ claims name v) :
    ix.Claiming (ix.clear s r entity name) P M r entity claims where
  sound := sound_clear h.sound
  named scope hs := (h.named scope hs).clear
  mirrors scope name' hs hm := by
    have hold := h.mirrors scope name' hs hm
    by_cases hsame : scope = r ∧ name' = name
    · obtain ⟨rfl, rfl⟩ := hsame
      have hfree : ix.Mirrors s scope name' Unclaimed :=
        hold.claims_congr fun v _ => iff_of_false (fun hc => hnone v hc.2.2) id
      exact (hfree.clear hs he (hM name' hm)).claims_congr
        fun v _ => iff_of_false id fun hc => hnone v hc.2.2
    · exact hold.clear_of_apart (apart_of_written hPM hr hp hs hm hsame entity)

end Steps

def Contested (ix : AttributeIndex) (s : RowStore) (scope entity name value : String) : Prop :=
  ∃ e, e ≠ entity ∧ NulFree e ∧ value ∈ ix.valuesAt s scope e name s.now

theorem occupied_iff_contested (h : ix.Claiming s P M r entity claims) (hr : Plain r)
    (hn : Plain name) (hm : M name) (hv : NulFree value) :
    s.Occupied ix.reverse (reverseKey r entity name value) ↔ ix.Contested s r entity name value := by
  have hlists := fun e => (h.mirrors r name hr hm).lists_iff e value s.now hv (Int.le_refl _)
  have hcell : ∀ e, ix.Lists s r name value e s.now ↔
      ∃ row, s.rowAt ix.reverse (RowKey.encode ⟨valuePartition r name value, e⟩) = some row ∧
        row.isLive s.now := fun e => RowStore.isSome_seen_iff
  rw [RowStore.occupied_iff (show NulFree (reverseKey r entity name value).partition from
    valuePartition_nulFree hr hn hv), Contested]
  constructor
  · rintro ⟨e, row, hne, hrow, hlive⟩
    obtain ⟨he, hmem | hc⟩ := (hlists e).mp ((hcell e).mpr ⟨row, hrow, hlive⟩)
    · exact ⟨e, hne, he, hmem⟩
    · exact absurd hc.2.1 hne
  · rintro ⟨e, hne, he, hmem⟩
    obtain ⟨row, hrow, hlive⟩ := (hcell e).mp ((hlists e).mpr ⟨he, .inl hmem⟩)
    exact ⟨e, row, hne, hrow, hlive⟩

theorem tryClaim_of_readable (h : s.Readable ix.reverse) (r entity name value : String)
    (lifetime : Option Int) :
    ix.tryClaim r entity name value lifetime s =
      if s.Occupied ix.reverse (reverseKey r entity name value) then (.ok false, s)
      else (.ok true,
        s.write ix.reverse (reverseKey r entity name value).encode (.stamp s.now) lifetime) := by
  rw [tryClaim, Update.bind_liftM_of_ok (Query.now_apply s), Update.ofRows,
    RowStore.putIfPartitionVacant_eq h]
  split
  · next heq =>
    split at heq
    · obtain ⟨rfl, rfl⟩ := Prod.mk.inj (Except.ok.inj heq)
      rw [if_pos ‹_›]
    · obtain ⟨rfl, rfl⟩ := Prod.mk.inj (Except.ok.inj heq)
      rw [if_neg ‹_›]
  · next heq =>
    split at heq <;> cases heq

theorem tryClaim_eq (h : ix.Sound s) (r entity name value : String) :
    ix.tryClaim r entity name value none s =
      if s.Occupied ix.reverse (reverseKey r entity name value) then (.ok false, s)
      else (.ok true, ix.claim s r entity name value) :=
  tryClaim_of_readable h.reverse r entity name value none

def Stands (holds : String → Query Bool) (s : RowStore) (claim : RowKey × Row) : Prop :=
  Time.sub s.now (claimedAt claim.2) < claimGrace ∨ holds claim.1.clustering s = .ok true

theorem staleClaims_of_stands {holds : String → Query Bool} {rows : List (RowKey × Row)}
    (htotal : ∀ e, ∃ b, holds e s = .ok b) {claim : RowKey × Row} (hmem : claim ∈ rows)
    (hne : claim.1.clustering ≠ entity) (hstands : Stands holds s claim) :
    staleClaims entity holds rows s = .ok none := by
  induction rows with
  | nil => cases hmem
  | cons first rest ih =>
    have hrest : claim ≠ first → staleClaims entity holds rest s = .ok none := fun hother =>
      ih ((List.mem_cons.mp hmem).resolve_left hother)
    obtain ⟨k, row⟩ := first
    rw [staleClaims]
    by_cases hown : k.clustering = entity
    · rw [if_pos hown]
      exact hrest fun heq => hne (heq ▸ hown)
    · rw [if_neg hown, Query.bind_of_ok (Query.now_apply s)]
      split
      · rfl
      · next hold =>
        obtain ⟨b, hb⟩ := htotal k.clustering
        rw [Query.bind_of_ok hb]
        cases b with
        | true => rfl
        | false =>
          have hother : claim ≠ (k, row) := by
            rintro rfl
            rcases hstands with hyoung | hheld
            · exact hold hyoung
            · rw [hb] at hheld
              cases hheld
          rw [if_neg (by simp), Query.bind_of_ok (hrest hother)]
          rfl

theorem claimUnique_eq (h : ix.Claiming s P M r entity claims) (hr : Plain r) (hn : Plain name)
    (hm : M name) (hv : NulFree value) (kind : UniqueKind) {holds : String → Query Bool}
    (htotal : ∀ e, ∃ b, holds e s = .ok b)
    (hheld : ∀ e, NulFree e → value ∈ ix.valuesAt s r e name s.now → holds e s = .ok true) :
    (ix.Contested s r entity name value → ix.claimUnique r entity name kind value none holds s =
      (.error (.duplicateKey kind value), s)) ∧
    (¬ ix.Contested s r entity name value → ix.claimUnique r entity name kind value none holds s =
      (.ok (), ix.claim s r entity name value)) := by
  have hiff := occupied_iff_contested h hr hn hm hv
  have htry := tryClaim_eq h.sound r entity name value
  constructor
  · intro hcontested
    rw [if_pos (hiff.mpr hcontested)] at htry
    obtain ⟨e, hne, he, hmem⟩ := hcontested
    have hlisted : e ∈ ix.holders s r name value :=
      (mem_holders_iff hr hn hv).mpr (((h.mirrors r name hr hm).lists_iff e value s.now hv
        (Int.le_refl _)).mpr ⟨he, .inl hmem⟩)
    obtain ⟨⟨k, row⟩, hscan, rfl⟩ := List.mem_map.mp hlisted
    -- The entity with the value still holds it, so that its claim is not dropped.
    have hstale : staleClaims entity holds
        (s.scan ix.reverse (valuePartition r name value)) s = .ok none :=
      staleClaims_of_stands htotal hscan hne (.inr (hheld _ he hmem))
    have hdrop : ix.dropStaleClaims r entity name value holds s = (.ok false, s) := by
      rw [dropStaleClaims,
        Update.bind_liftM_of_ok (Query.scanPartition_eq h.sound.reverse _),
        Update.bind_liftM_of_ok hstale]
      rfl
    rw [claimUnique, Update.bind_of_ok htry]
    dsimp only
    rw [if_neg (by simp), Update.bind_of_ok hdrop]
    rfl
  · intro hfree
    rw [if_neg fun hocc => hfree (hiff.mp hocc)] at htry
    rw [claimUnique, Update.bind_of_ok htry]
    rfl

theorem releaseClaim_eq (h : ix.Sound s) (r entity name value : String) :
    (discard (ix.releaseClaim r entity name value) : Update Unit) s =
      (.ok (), ix.release s r entity name value) :=
  Update.discard_of_ok (Update.delete_eq _ h.reverse)

theorem commitUnique_eq (h : ix.Sound s) (r entity name : String) (value : Option String) :
    ix.commitUnique r entity name value none s =
      (.ok (), match value with
        | none => ix.clear s r entity name
        | some v => ix.settle s r entity name v) := by
  cases value with
  | none => exact Update.discard_of_ok (removeAttribute_eq h _ _ _)
  | some v =>
    rw [commitUnique, Update.bind_liftM_of_ok (valuesOf_eq h _ _ _),
      Update.bind_of_ok (putForward_eq h _ _ _ _ _), withdraw_eq h.writeForward]
    rfl

structure Rewritten (ix : AttributeIndex) (s s' : RowStore) (r entity name : String)
    (values : List String) : Prop where
  within : ix.Within s s'
  valuesAt : ∀ scope' entity' name' time, Plain scope' → NulFree entity' →
    ix.valuesAt s' scope' entity' name' time =
      if scope' = r ∧ entity' = entity ∧ name' = name then values
      else ix.valuesAt s scope' entity' name' time

theorem rewritten_settle (hr : Plain r) (he : NulFree entity) :
    ix.Rewritten s (ix.settle s r entity name value) r entity name [value] where
  within := within_settle
  valuesAt _ _ _ _ hs' he' := by
    rw [settle, valuesAt_unlist, valuesAt_writeForward hr he hs' he']
    rfl

theorem rewritten_clear (hr : Plain r) (he : NulFree entity) :
    ix.Rewritten s (ix.clear s r entity name) r entity name [] where
  within := within_clear
  valuesAt _ _ _ _ hs' he' := valuesAt_clear hr he hs' he'

theorem rewritten_set (hr : Plain r) (he : NulFree entity) :
    ix.Rewritten s (ix.set s r entity name values none) r entity name (distinct values) where
  within := within_set
  valuesAt _ _ _ _ hs' he' := valuesAt_set hr he hs' he'

theorem distinct_toList (value : Option String) : distinct value.toList = value.toList :=
  distinct_of_nodup (by cases value <;> simp)

section Settled

variable (hM : ∀ name, M name → Plain name) (hPM : Distinguishes P M) (hr : Plain r)
  (he : NulFree entity) (hp : P name) (h : ix.Claiming s P M r entity claims)
  {field : Option String}
include hM hPM hr he hp h

theorem commitUnique_settles (hv : ∀ v ∈ field, NulFree v)
    (hclaims : ∀ v, claims name v ↔ field = some v) :
    ∃ s', ix.commitUnique r entity name field none s = (.ok (), s') ∧
      ix.Claiming s' P M r entity (fun n v => claims n v ∧ n ≠ name) ∧
      ix.Rewritten s s' r entity name field.toList := by
  rw [commitUnique_eq h.sound]
  cases field with
  | none =>
    have hnone : ∀ v, ¬ claims name v := fun v hc => by cases (hclaims v).mp hc
    exact ⟨_, rfl, (h.clear hM hPM hr he hp hnone).leaveOut hnone, rewritten_clear hr he⟩
  | some v =>
    refine ⟨_, rfl, ?_, rewritten_settle hr he⟩
    apply h.settle hM hPM hr he hp (hv v rfl) ((hclaims v).mpr rfl)
    intro v' hc
    exact (Option.some.inj ((hclaims v').mp hc)).symm

theorem setAttribute_settles (hv : ∀ v ∈ field, NulFree v) (hclaims : ∀ v, ¬ claims name v) :
    ∃ s', ix.setAttribute r entity name field.toList none s = (.ok (), s') ∧
      ix.Claiming s' P M r entity (fun n v => claims n v ∧ n ≠ name) ∧
      ix.Rewritten s s' r entity name field.toList := by
  have hvs : ∀ v ∈ field.toList, NulFree v := fun v hmem => hv v (Option.mem_toList.mp hmem)
  have hrewritten : ix.Rewritten s (ix.set s r entity name field.toList none) r entity name _ :=
    rewritten_set hr he
  rw [distinct_toList] at hrewritten
  have hset : ix.Claiming (ix.set s r entity name field.toList none) P M r entity claims :=
    h.set hM hPM hr he hp hclaims fun _ => hvs
  exact ⟨_, setAttribute_eq h.sound _ _ _ _ _, hset.leaveOut hclaims, hrewritten⟩

end Settled

end IdentityDirectory.AttributeIndex
