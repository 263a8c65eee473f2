import IdentityDirectory.Proofs.Index.Backing
import IdentityDirectory.Proofs.Isolation.Footprint
import IdentityDirectory.Proofs.Session.Listing

/-!
User sessions with the index rows that are theirs. Main statements: every change of sessions leaves no
index row without its session, and all other tables as they are (`steady_backed`), so that an index row
that is seen belongs to a session (`session_of_seen`).
-/

namespace IdentityDirectory.UserSessions

open AttributeIndex (userSessions)

variable {s s' : RowStore} {r id : String} {session : UserSession}

def sessionTables : List Table :=
  [.userSessions, .clientSessions, userSessions.forward, userSessions.reverse]

abbrev Confined : RowStore → RowStore → Prop := RowStore.OnlyIn sessionTables

theorem confined_of_within (h : userSessions.Within s s') : Confined s s' := by
  refine ⟨h.now, fun t ht => h.table t ?_ ?_⟩
  · rintro rfl
    exact ht (by decide)
  · rintro rfl
    exact ht (by decide)

theorem confined_of_withinClients (h : WithinClients s s') : Confined s s' := by
  refine ⟨h.now, fun t ht => h.table t ?_⟩
  rintro rfl
  exact ht (by decide)

theorem confined_store : Confined s (store s r session) := by
  have hwritten : Confined s (s.write .userSessions
      (key r (entity session.id session.offline)).encode (Storable.payload session)
      (Lifetime.of session s.now)) := by
    refine ⟨rfl, fun t ht => s.table_write_of_ne ?_ _ _ _⟩
    rintro rfl
    exact ht (by decide)
  exact hwritten.trans (confined_of_within AttributeIndex.within_setEach)

theorem confined_erase {key entity : String} (h : WithinClients (s.remove .userSessions key) s') :
    Confined s (userSessions.clearAll s' r entity) := by
  have hremoved : Confined s (s.remove .userSessions key) := by
    refine ⟨s.now_remove _ _, fun t ht => s.table_remove_of_ne ?_ _⟩
    rintro rfl
    exact ht (by decide)
  exact (hremoved.trans (confined_of_withinClients h)).trans
    (confined_of_within AttributeIndex.within_clearAll)

theorem confined_eraseAll {entities : List String} : Confined s (eraseAll s r entities) := by
  refine .trans (confined_of_within AttributeIndex.within_clearEach)
    ⟨now_eraseAll.trans AttributeIndex.within_clearEach.now.symm, fun t ht => table_eraseAll ?_ ?_⟩
  · rintro rfl
    exact ht (by decide)
  · rintro rfl
    exact ht (by decide)

theorem Indexed.elsewhere {tables : List Table} (h : Indexed s) (ho : RowStore.OnlyIn tables s s')
    (hne : ∀ t ∈ sessionTables, t ∉ tables) : Indexed s' := by
  have ht : ∀ t ∈ sessionTables, s'.table t = s.table t := fun t hmem => ho.table t (hne t hmem)
  constructor
  · exact RowStore.holds_congr (ht _ (by decide)) h.sessions
  · exact RowStore.holds_congr (ht _ (by decide)) h.clients
  · exact h.regular.congr_tables (ht _ (by decide)) (ht _ (by decide)) ho.now
  · intro r e session hr hsome
    rw [sessionAt_congr (ht _ (by decide)), ho.now] at hsome
    exact h.placed r e session hr hsome
  · intro r e name time hr he hle
    rw [ho.now] at hle
    rw [sessionAt_congr (ht _ (by decide)), AttributeIndex.valuesAt_congr (ht _ (by decide))]
    exact h.values r e name time hr he hle

abbrev Backed (s : RowStore) : Prop :=
  userSessions.Backed s (· ∈ attributeNames) fun _ _ _ => True

theorem backed_store (h : Backed s) (hr : Plain r) (hid : NulFree session.id) :
    Backed (store s r session) := by
  have hwritten : Backed (s.write .userSessions
      (key r (entity session.id session.offline)).encode (Storable.payload session)
      (Lifetime.of session s.now)) :=
    h.congr_tables (s.table_write_of_ne (by decide) _ _ _) (s.table_write_of_ne (by decide) _ _ _)
      (s.now_write _ _ _ _)
  exact hwritten.setEach hr (entity_nulFree hid session.offline) fun _ _ => trivial

theorem backed_clearAll {entity : String} (h : Backed s) (hsound : userSessions.Sound s) (hr : Plain r)
    (he : NulFree entity) : Backed (userSessions.clearAll s r entity) :=
  (h.clearAll hsound hr (.inl he)).mono fun _ _ _ _ _ _ => trivial

theorem nulFree_clusterings (h : Indexed s) (hr : Plain r) :
    ∀ e ∈ (s.scan .userSessions r).map (·.1.clustering), NulFree e := by
  intro e he
  obtain ⟨session, hsome⟩ := (mem_clusterings_iff hr h).mp he
  obtain ⟨rfl, hid⟩ := h.placed r e session hr hsome
  exact entity_nulFree hid.1 session.offline

theorem backed_eraseAll (h : Backed s) (hindexed : Indexed s) (hr : Plain r) :
    Backed (eraseAll s r ((s.scan .userSessions r).map (·.1.clustering))) := by
  have hcleared := (h.clearEach hindexed.regular.sound hr
    (.inl (nulFree_clusterings hindexed hr))).mono fun _ _ _ _ _ _ => trivial
  exact hcleared.congr_tables (table_eraseAll (by decide) (by decide))
    (table_eraseAll (by decide) (by decide))
    (now_eraseAll.trans AttributeIndex.within_clearEach.now.symm)

theorem steady_backed {J : RowStore → Prop} (hJ : ∀ s s', J s → Confined s s' → J s') :
    Steady (fun s => (Indexed s ∧ Backed s) ∧ J s) fun _ => True where
  indexed _ h := h.1.1
  store s r session h hr hsane hadmits := by
    refine ⟨⟨steady_indexed.store s r session h.1.1 hr hsane hadmits, ?_⟩, ?_⟩
    · exact backed_store h.1.2 hr hsane.1.1
    · exact hJ s _ h.2 confined_store
  erase s s' r id offline h hr hid hadmits hw := by
    refine ⟨⟨steady_indexed.erase s s' r id offline h.1.1 hr hid hadmits hw, ?_⟩, ?_⟩
    · have hforward := (hw.table userSessions.forward (by decide)).trans
        (s.table_remove_of_ne (by decide) _)
      have hreverse := (hw.table userSessions.reverse (by decide)).trans
        (s.table_remove_of_ne (by decide) _)
      have hremoved := h.1.2.congr_tables hforward hreverse (hw.now.trans (s.now_remove _ _))
      exact backed_clearAll hremoved (h.1.1.regular.sound.congr hforward hreverse) hr
        (entity_nulFree hid.1 offline)
    · exact hJ s _ h.2 (confined_erase hw)
  eraseAll hadmits s r h hr := by
    refine ⟨⟨steady_indexed.eraseAll hadmits s r h.1.1 hr, ?_⟩, ?_⟩
    · exact backed_eraseAll h.1.2 h.1.1 hr
    · exact hJ s _ h.2 confined_eraseAll
  clients s s' h hw := by
    refine ⟨⟨steady_indexed.clients s s' h.1.1 hw, ?_⟩, hJ s s' h.2 (confined_of_withinClients hw)⟩
    exact h.1.2.congr_tables (hw.table _ (by decide)) (hw.table _ (by decide)) hw.now

theorem session_of_seen (h : Backed s) (hindexed : Indexed s) {t : Table} {key : String}
    (ht : t = userSessions.forward ∨ t = userSessions.reverse)
    (hseen : (s.seen t key s.now).isSome) :
    ∃ r e session, Plain r ∧ AttributeIndex.Scoped r key ∧ sessionAt s r e s.now = some session := by
  obtain ⟨r, e, name, hr, he, -, hne, hkey⟩ := h.attribute_of_seen hindexed.regular ht hseen
  rw [hindexed.values r e name s.now hr he (Int.le_refl _)] at hne
  cases hsession : sessionAt s r e s.now with
  | none =>
    rw [hsession] at hne
    exact absurd rfl hne
  | some session =>
    refine ⟨r, e, session, hr, ?_, hsession⟩
    rcases hkey with ⟨-, rfl⟩ | ⟨-, value, rfl⟩
    · exact AttributeIndex.scoped_forwardKey r e name
    · exact AttributeIndex.scoped_reverseKey r e name value

end IdentityDirectory.UserSessions
