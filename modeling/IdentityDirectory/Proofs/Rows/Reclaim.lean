import IdentityDirectory.Proofs.Rows.Contents

/-!
What the entries of an expiry index take, be they malformed, or of no row, or several of one row, or
of a deadline that the row does not have. Main statements: `Swept.trans`, `Swept.length_lost` and
`reclaimAll_cases`.
-/

namespace IdentityDirectory

theorem Row.isLive_eq_false_iff {r : Row} {now : Int} :
    r.isLive now = false ↔ ∃ instant, r.expiresAt = some instant ∧ instant ≤ now := by
  cases h : r.expiresAt <;> simp [isLive, h]

namespace RowStore

variable {s s' s₁ : RowStore} {t u : Table} {key key' entry : String} {entries rest : List String}

def places (s : RowStore) : List (Table × String) :=
  Table.all.flatMap fun t => (s.table t).keys.map (t, ·)

def lost (s s' : RowStore) : List (Table × String) := s.places.filter fun p => p.2 ∉ s'.table p.1

theorem mem_places_iff : (t, key) ∈ s.places ↔ key ∈ s.table t := by
  simp only [places, List.mem_flatMap, List.mem_map, Prod.mk.injEq, StringMap.mem_keys_iff]
  constructor
  · rintro ⟨u, -, key', hmem, rfl, rfl⟩
    exact hmem
  · exact fun hmem => ⟨t, Table.mem_all t, key, hmem, rfl, rfl⟩

theorem places_nodup (s : RowStore) : s.places.Nodup := by
  rw [places, List.nodup_iff_pairwise_ne, List.pairwise_flatMap]
  constructor
  · intro t _
    rw [List.pairwise_map]
    refine (List.nodup_iff_pairwise_ne.mp (s.table t).entries_nodup).imp ?_
    exact fun hne heq => hne (Prod.mk.inj heq).2
  · have hall : Table.all.Pairwise (· ≠ ·) := by decide
    refine hall.imp fun {t u} hne a ha b hb heq => ?_
    obtain ⟨_, -, rfl⟩ := List.mem_map.mp ha
    obtain ⟨_, -, rfl⟩ := List.mem_map.mp hb
    exact hne (Prod.mk.inj heq).1

theorem mem_lost_iff : (t, key) ∈ lost s s' ↔ key ∈ s.table t ∧ key ∉ s'.table t := by
  rw [lost, List.mem_filter, mem_places_iff, decide_eq_true_iff]

theorem lost_nodup (s s' : RowStore) : (lost s s').Nodup := (places_nodup s).filter _

theorem lost_self (s : RowStore) : lost s s = [] := by
  refine List.eq_nil_iff_forall_not_mem.mpr fun ⟨t, key⟩ h => ?_
  exact (mem_lost_iff.mp h).2 (mem_lost_iff.mp h).1

def Dead (s : RowStore) (t : Table) (key : String) : Prop :=
  ∃ r instant, (s.table t).get? key = some (.row r) ∧ r.expiresAt = some instant ∧ instant ≤ s.now

def Names (entries : List String) (t : Table) (key : String) : Prop :=
  ∃ entry ∈ entries, ∃ instant, Deadline.decode? entry = some ⟨instant, t, key⟩

def Blocked (s : RowStore) (entries : List String) : Prop :=
  ∃ t key, Names entries t key ∧ (s.table t).get? key = some .unreadable

theorem Dead.mem (h : s.Dead t key) : key ∈ s.table t := by
  obtain ⟨r, -, hcell, -⟩ := h
  rw [StringMap.mem_iff, hcell]
  rfl

theorem dead_congr (hnow : s'.now = s.now)
    (hcell : (s'.table t).get? key = (s.table t).get? key) : s'.Dead t key ↔ s.Dead t key := by
  rw [Dead, Dead, hnow, hcell]

theorem not_names_nil : ¬ Names [] t key := fun ⟨_, hmem, _⟩ => List.not_mem_nil hmem

theorem names_iff_of_decode? {d : Deadline} (hd : Deadline.decode? entry = some d) :
    Names [entry] t key ↔ t = d.table ∧ key = d.rowKey := by
  simp only [Names, List.mem_singleton, exists_eq_left, hd, Option.some.injEq]
  constructor
  · rintro ⟨instant, rfl⟩
    exact ⟨rfl, rfl⟩
  · rintro ⟨rfl, rfl⟩
    exact ⟨d.instant, rfl⟩

theorem not_names_of_decode? (hd : Deadline.decode? entry = none) : ¬ Names [entry] t key := by
  simp [Names, hd]

theorem names_cons_iff : Names (entry :: rest) t key ↔ Names [entry] t key ∨ Names rest t key := by
  simp only [Names, List.mem_cons, List.not_mem_nil, or_false, or_and_right, exists_or]

structure Swept (entries : List String) (s s' : RowStore) : Prop where
  now : s'.now = s.now
  gone : ∀ {t key}, s.Dead t key → Names entries t key → (s'.table t).get? key = none
  kept : ∀ {t key}, ¬ (s.Dead t key ∧ Names entries t key) →
    (s'.table t).get? key = (s.table t).get? key
  index : ∀ {entry}, entry ∈ s'.deadlines ↔ entry ∈ s.deadlines ∧ entry ∉ entries

namespace Swept

theorem nil (s : RowStore) : Swept [] s s where
  now := rfl
  gone _ hnames := absurd hnames not_names_nil
  kept _ := rfl
  index := by simp

theorem mem_lost_iff (h : Swept entries s s') :
    (t, key) ∈ lost s s' ↔ s.Dead t key ∧ Names entries t key := by
  rw [RowStore.mem_lost_iff]
  constructor
  · rintro ⟨hmem, hnot⟩
    refine Classical.byContradiction fun hkept => hnot ?_
    rwa [StringMap.mem_iff, h.kept hkept]
  · rintro ⟨hdead, hnames⟩
    refine ⟨hdead.mem, fun hmem => ?_⟩
    rw [StringMap.mem_iff, h.gone hdead hnames] at hmem
    cases hmem

theorem dead_iff (h : Swept entries s s') :
    s'.Dead t key ↔ s.Dead t key ∧ ¬ Names entries t key := by
  by_cases htaken : s.Dead t key ∧ Names entries t key
  · refine iff_of_false (fun hdead => ?_) fun hdead => hdead.2 htaken.2
    have hmem := hdead.mem
    rw [StringMap.mem_iff, h.gone htaken.1 htaken.2] at hmem
    cases hmem
  · rw [dead_congr h.now (h.kept htaken)]
    exact ⟨fun hdead => ⟨hdead, fun hnames => htaken ⟨hdead, hnames⟩⟩, And.left⟩

theorem unreadable (h : Swept entries s s')
    (hcell : (s'.table t).get? key = some .unreadable) :
    (s.table t).get? key = some .unreadable := by
  by_cases htaken : s.Dead t key ∧ Names entries t key
  · rw [h.gone htaken.1 htaken.2] at hcell
    cases hcell
  · rwa [← h.kept htaken]

theorem trans (h : Swept [entry] s s₁) (h' : Swept rest s₁ s') : Swept (entry :: rest) s s' where
  now := h'.now.trans h.now
  gone {t key} hdead hnames := by
    by_cases hfirst : Names [entry] t key
    · rw [h'.kept fun htaken => (h.dead_iff.mp htaken.1).2 hfirst]
      exact h.gone hdead hfirst
    · have hrest := (names_cons_iff.mp hnames).resolve_left hfirst
      exact h'.gone (h.dead_iff.mpr ⟨hdead, hfirst⟩) hrest
  kept {t key} hkept := by
    rw [h'.kept fun htaken =>
      hkept ⟨(h.dead_iff.mp htaken.1).1, names_cons_iff.mpr (.inr htaken.2)⟩]
    exact h.kept fun htaken => hkept ⟨htaken.1, names_cons_iff.mpr (.inl htaken.2)⟩
  index := by
    simp only [h'.index, h.index, List.mem_cons, List.not_mem_nil, or_false, not_or, and_assoc,
      implies_true]

theorem length_lost (h : Swept [entry] s s₁) (h' : Swept rest s₁ s') :
    (lost s s').length = (lost s s₁).length + (lost s₁ s').length := by
  have hnodup : (lost s s₁ ++ lost s₁ s').Nodup := by
    refine List.nodup_append.mpr ⟨lost_nodup .., lost_nodup .., fun p hp q hq heq => ?_⟩
    exact (RowStore.mem_lost_iff.mp hp).2 (heq ▸ (RowStore.mem_lost_iff.mp hq).1)
  have hmem : ∀ p, p ∈ lost s s' ↔ p ∈ lost s s₁ ++ lost s₁ s' := by
    rintro ⟨t, key⟩
    rw [List.mem_append, (h.trans h').mem_lost_iff, h.mem_lost_iff, h'.mem_lost_iff, h.dead_iff,
      names_cons_iff]
    by_cases hfirst : Names [entry] t key <;> simp [hfirst]
  rw [← List.length_append]
  exact ((List.perm_ext_iff_of_nodup (lost_nodup s s') hnodup).mpr hmem).length_eq

end Swept

theorem get?_setTable_erase (s : RowStore) (t u : Table) (key key' : String) :
    ((s.setTable t ((s.table t).erase key)).table u).get? key' =
      if u = t ∧ key' = key then none else (s.table u).get? key' := by
  rw [table_setTable]
  by_cases hu : u = t
  · subst hu
    simp [StringMap.get?_erase]
  · simp [hu]

theorem length_lost_erase (hmem : key ∈ s.table t) :
    (lost s (s.setTable t ((s.table t).erase key))).length = 1 := by
  have hsame : ∀ p, p ∈ lost s (s.setTable t ((s.table t).erase key)) ↔ p ∈ [(t, key)] := by
    rintro ⟨u, key'⟩
    rw [mem_lost_iff, StringMap.mem_iff, StringMap.mem_iff, get?_setTable_erase,
      List.mem_singleton, Prod.mk.injEq]
    split
    · next hsame =>
      obtain ⟨rfl, rfl⟩ := hsame
      simpa using StringMap.mem_iff.mp hmem
    · next hother =>
      rw [and_not_self_iff, false_iff]
      exact hother
  have hone : [(t, key)].Nodup := List.nodup_cons.mpr ⟨List.not_mem_nil, List.nodup_nil⟩
  exact ((List.perm_ext_iff_of_nodup (lost_nodup ..) hone).mpr hsame).length_eq

theorem swept_of_not_dead (h : ∀ t key, Names [entry] t key → ¬ s.Dead t key) :
    Swept [entry] s { s with deadlines := s.deadlines.erase entry } where
  now := rfl
  gone hdead hnames := absurd hdead (h _ _ hnames)
  kept _ := rfl
  index := by simp [StringMap.mem_erase, and_comm]

theorem swept_erase {d : Deadline} (hd : Deadline.decode? entry = some d)
    (h : s.Dead d.table d.rowKey) :
    Swept [entry] s { s.setTable d.table ((s.table d.table).erase d.rowKey) with
      deadlines := s.deadlines.erase entry } where
  now := rfl
  gone {t key} _ hnames := by
    refine (get?_setTable_erase s d.table t d.rowKey key).trans (if_pos ?_)
    exact (names_iff_of_decode? hd).mp hnames
  kept {t key} hkept := by
    refine (get?_setTable_erase s d.table t d.rowKey key).trans (if_neg ?_)
    rintro ⟨rfl, rfl⟩
    exact hkept ⟨h, (names_iff_of_decode? hd).mpr ⟨rfl, rfl⟩⟩
  index := by simp [StringMap.mem_erase, and_comm]

theorem reclaim_cases (s : RowStore) (entry : String) :
    s.reclaim entry = .error .decode ∧ s.Blocked [entry] ∨
    ∃ s', s.reclaim entry = .ok ((lost s s').length, s') ∧
      Swept [entry] s { s' with deadlines := s'.deadlines.erase entry } := by
  rw [reclaim]
  split
  · next hd =>
    refine .inr ⟨s, by rw [lost_self]; rfl, swept_of_not_dead fun t key hnames => ?_⟩
    exact absurd hnames (not_names_of_decode? hd)
  · next d hd =>
    have idle (hdead : ¬ s.Dead d.table d.rowKey) :
        Swept [entry] s { s with deadlines := s.deadlines.erase entry } := by
      refine swept_of_not_dead fun t key hnames => ?_
      obtain ⟨rfl, rfl⟩ := (names_iff_of_decode? hd).mp hnames
      exact hdead
    cases hcell : (s.table d.table).get? d.rowKey with
    | none =>
      simp only [row?, hcell]
      exact .inr ⟨s, by rw [lost_self]; rfl, idle fun hdead => by simp [Dead, hcell] at hdead⟩
    | some cell =>
      cases cell with
      | unreadable =>
        simp only [row?, hcell]
        refine .inl ⟨rfl, d.table, d.rowKey, (names_iff_of_decode? hd).mpr ⟨rfl, rfl⟩, hcell⟩
      | row r =>
        have hdead_iff : s.Dead d.table d.rowKey ↔ r.isLive s.now = false := by
          simp [Dead, hcell, Row.isLive_eq_false_iff]
        simp only [row?, hcell, Cell.read, Except.map, bind, Except.bind]
        split
        · next hlive =>
          refine .inr ⟨s, by rw [lost_self]; rfl, idle fun hdead => ?_⟩
          rw [hdead_iff.mp hdead] at hlive
          cases hlive
        · next hlive =>
          have hdead := hdead_iff.mpr (Bool.eq_false_iff.mpr hlive)
          exact .inr ⟨_, by rw [length_lost_erase hdead.mem]; rfl, swept_erase hd hdead⟩

theorem reclaimAll_cases (s : RowStore) (entries : List String) :
    s.reclaimAll entries = .error .decode ∧ s.Blocked entries ∨
    ∃ s', s.reclaimAll entries = .ok ((lost s s').length, s') ∧ Swept entries s s' := by
  induction entries generalizing s with
  | nil => exact .inr ⟨s, by rw [lost_self]; rfl, .nil s⟩
  | cons entry rest ih =>
    rw [reclaimAll]
    rcases reclaim_cases s entry with ⟨herror, t, key, hnames, hcell⟩ | ⟨s₁, hone, hswept⟩
    · rw [herror]
      exact .inl ⟨rfl, t, key, names_cons_iff.mpr (.inl hnames), hcell⟩
    · rw [hone]
      simp only [bind, Except.bind]
      rcases ih { s₁ with deadlines := s₁.deadlines.erase entry } with
        ⟨herror, t, key, hnames, hcell⟩ | ⟨s', hrest, hswept'⟩
      · rw [herror]
        exact .inl ⟨rfl, t, key, names_cons_iff.mpr (.inr hnames), hswept.unreadable hcell⟩
      · rw [hrest]
        refine .inr ⟨s', ?_, hswept.trans hswept'⟩
        rw [hswept.length_lost hswept']
        rfl

end RowStore

end IdentityDirectory
