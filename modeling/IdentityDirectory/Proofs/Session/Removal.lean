import IdentityDirectory.Proofs.Session.Rows

/-!
Removal of user sessions, with the client sessions that belong to them. Main statements:
`Indexed.erase` for one session and `Indexed.eraseAll` for those of a realm.
-/

namespace IdentityDirectory.UserSessions

open AttributeIndex (userSessions)

variable {s s' s'' : RowStore} {r : String}

structure WithinClients (s s' : RowStore) : Prop where
  now : s'.now = s.now
  table : ∀ t, t ≠ .clientSessions → s'.table t = s.table t
  clients : s.Holds ClientSession .clientSessions → s'.Holds ClientSession .clientSessions

theorem WithinClients.refl (s : RowStore) : WithinClients s s := ⟨rfl, fun _ _ => rfl, id⟩

theorem WithinClients.trans (h : WithinClients s s') (h' : WithinClients s' s'') :
    WithinClients s s'' where
  now := h'.now.trans h.now
  table t ht := (h'.table t ht).trans (h.table t ht)
  clients := h'.clients ∘ h.clients

theorem withinClients_remove (s : RowStore) (key : String) :
    WithinClients s (s.remove .clientSessions key) where
  now := s.now_remove _ _
  table _ ht := s.table_remove_of_ne ht _
  clients h := h.remove _ _

theorem withinClients_write (s : RowStore) (key : String) (session : ClientSession)
    (lifetime : Option Int) :
    WithinClients s (s.write .clientSessions key (Storable.payload session) lifetime) where
  now := rfl
  table _ ht := s.table_write_of_ne ht _ _ _
  clients h := h.write _ _ _

def dropClients (s : RowStore) (r : String) (ids : List String) : RowStore :=
  ids.foldl (fun s id => s.remove .clientSessions (clientSessionKey r id).encode) s

theorem withinClients_dropClients (s : RowStore) (r : String) (ids : List String) :
    WithinClients s (dropClients s r ids) := by
  induction ids generalizing s with
  | nil => exact .refl s
  | cons id ids ih => exact (withinClients_remove s _).trans (ih _)

theorem Intact.of_withinClients (h : Intact s) (hw : WithinClients s s') : Intact s' :=
  ⟨RowStore.holds_congr (hw.table _ (by decide)) h.sessions, hw.clients h.clients,
    h.index.congr (hw.table _ (by decide)) (hw.table _ (by decide))⟩

theorem Indexed.of_withinClients (h : Indexed s) (hw : WithinClients s s') : Indexed s' where
  sessions := RowStore.holds_congr (hw.table _ (by decide)) h.sessions
  clients := hw.clients h.clients
  regular := h.regular.congr_tables (hw.table _ (by decide)) (hw.table _ (by decide)) hw.now
  placed r e session hr hsome := by
    rw [sessionAt_congr (hw.table _ (by decide)), hw.now] at hsome
    exact h.placed r e session hr hsome
  values r e name time hr he hle := by
    rw [hw.now] at hle
    rw [sessionAt_congr (hw.table _ (by decide)),
      AttributeIndex.valuesAt_congr (hw.table _ (by decide))]
    exact h.values r e name time hr he hle

theorem sessionAt_remove {r' e e' : String} {time : Int} (hr : Plain r) (hr' : Plain r') :
    sessionAt (s.remove .userSessions (key r e).encode) r' e' time =
      if r' = r ∧ e' = e then none else sessionAt s r' e' time := by
  rw [sessionAt, RowStore.recordAt_remove]
  simp only [true_and, key_encode_inj hr' hr]
  rfl

theorem sessionAt_erase {r' e e' : String} {time : Int} (hr : Plain r) (hr' : Plain r')
    (hw : WithinClients (s.remove .userSessions (key r e).encode) s') :
    sessionAt (userSessions.clearAll s' r e) r' e' time =
      if r' = r ∧ e' = e then none else sessionAt s r' e' time := by
  rw [sessionAt_congr (table_ne_of_within AttributeIndex.within_clearAll (.inl rfl)),
    sessionAt_congr (hw.table _ (by decide)), sessionAt_remove hr hr']

theorem Intact.erase {e : String} (h : Intact s)
    (hw : WithinClients (s.remove .userSessions (key r e).encode) s') :
    Intact (userSessions.clearAll s' r e) := by
  have hremoved : Intact (s.remove .userSessions (key r e).encode) :=
    ⟨h.sessions.remove _ _, h.clients.remove _ _, h.index.remove _ _⟩
  have hcleared : userSessions.Within s' (userSessions.clearAll s' r e) :=
    AttributeIndex.within_clearAll
  refine ⟨?_, ?_, AttributeIndex.sound_clearAll (hremoved.of_withinClients hw).index⟩
  · exact RowStore.holds_congr (table_ne_of_within hcleared (.inl rfl))
      (hremoved.of_withinClients hw).sessions
  · exact RowStore.holds_congr (table_ne_of_within hcleared (.inr rfl))
      (hremoved.of_withinClients hw).clients

theorem Indexed.erase {e : String} (h : Indexed s) (hr : Plain r) (he : NulFree e)
    (hw : WithinClients (s.remove .userSessions (key r e).encode) s') :
    Indexed (userSessions.clearAll s' r e) := by
  have hnow : s'.now = s.now := hw.now.trans (s.now_remove _ _)
  have hforward : s'.table userSessions.forward = s.table userSessions.forward :=
    (hw.table _ (by decide)).trans (s.table_remove_of_ne (by decide) _)
  have hreverse : s'.table userSessions.reverse = s.table userSessions.reverse :=
    (hw.table _ (by decide)).trans (s.table_remove_of_ne (by decide) _)
  refine ⟨(h.intact.erase hw).sessions, (h.intact.erase hw).clients, ?_,
    fun r' e' session hr' hsome => ?_, fun r' e' name time hr' he' hle => ?_⟩
  · apply AttributeIndex.Regular.clearAll attributeNames_plain distinguishes_attributeNames hr
    exact h.regular.congr_tables hforward hreverse hnow
  · rw [sessionAt_erase hr hr' hw, AttributeIndex.now_clearAll, hnow] at hsome
    split at hsome
    · cases hsome
    · exact h.placed r' e' session hr' hsome
  · rw [AttributeIndex.now_clearAll, hnow] at hle
    rw [AttributeIndex.valuesAt_clearAll hr he hr' he', sessionAt_erase hr hr' hw,
      AttributeIndex.valuesAt_congr hforward]
    split
    · rfl
    · exact h.values r' e' name time hr' he' hle

def eraseAll (s : RowStore) (r : String) (entities : List String) : RowStore :=
  ((userSessions.clearEach s r entities).removePartition .userSessions r).removePartition
    .clientSessions r

variable {entities : List String}

@[simp] theorem now_eraseAll : (eraseAll s r entities).now = s.now := by
  rw [eraseAll, RowStore.now_removePartition, RowStore.now_removePartition,
    AttributeIndex.within_clearEach.now]

theorem table_eraseAll {t : Table} (ht : t ≠ .userSessions) (ht' : t ≠ .clientSessions) :
    (eraseAll s r entities).table t = (userSessions.clearEach s r entities).table t := by
  rw [eraseAll, RowStore.table_removePartition_of_ne ht', RowStore.table_removePartition_of_ne ht]

theorem sessionAt_eraseAll {r' e : String} {time : Int} (hr : Plain r) (hr' : Plain r') :
    sessionAt (eraseAll s r entities) r' e time =
      if r' = r then none else sessionAt s r' e time := by
  have hlead : (RowKey.lead r).toList <+: (key r' e).encode.toList ↔ r' = r :=
    RowKey.lead_prefix_encode_iff (k := key r' e) hr'.1 hr.1
  rw [eraseAll, sessionAt_congr (RowStore.table_removePartition_of_ne (by decide) _), sessionAt,
    RowStore.recordAt_removePartition]
  simp only [hlead, true_and]
  rw [RowStore.recordAt_congr (table_ne_of_within AttributeIndex.within_clearEach (.inl rfl))]
  rfl

theorem Indexed.eraseAll (h : Indexed s) (hr : Plain r) (hentities : ∀ e ∈ entities, NulFree e)
    (hall : ∀ e session, sessionAt s r e s.now = some session → e ∈ entities) :
    Indexed (eraseAll s r entities) := by
  have hw : userSessions.Within s (userSessions.clearEach s r entities) :=
    AttributeIndex.within_clearEach
  have hforward : (UserSessions.eraseAll s r entities).table userSessions.forward = _ :=
    table_eraseAll (by decide) (by decide)
  have hreverse : (UserSessions.eraseAll s r entities).table userSessions.reverse = _ :=
    table_eraseAll (by decide) (by decide)
  refine ⟨?_, ?_, ?_, fun r' e session hr' hsome => ?_, fun r' e name time hr' he hle => ?_⟩
  · refine RowStore.Holds.removePartition (RowStore.Holds.removePartition ?_ _ _) _ _
    exact RowStore.holds_congr (table_ne_of_within hw (.inl rfl)) h.sessions
  · refine RowStore.Holds.removePartition (RowStore.Holds.removePartition ?_ _ _) _ _
    exact RowStore.holds_congr (table_ne_of_within hw (.inr rfl)) h.clients
  · exact (h.regular.clearEach attributeNames_plain distinguishes_attributeNames hr).congr_tables
      hforward hreverse (now_eraseAll.trans hw.now.symm)
  · rw [sessionAt_eraseAll hr hr', now_eraseAll] at hsome
    split at hsome
    · cases hsome
    · exact h.placed r' e session hr' hsome
  · rw [now_eraseAll] at hle
    rw [AttributeIndex.valuesAt_congr hforward, AttributeIndex.valuesAt_clearEach hr hentities hr' he,
      sessionAt_eraseAll hr hr']
    by_cases hrealm : r' = r
    · subst hrealm
      rw [if_pos rfl]
      by_cases hmem : e ∈ entities
      · rw [if_pos ⟨rfl, hmem⟩]
        rfl
      · -- Without a session now there is none later, and so no values are left.
        have hnone : sessionAt s r' e time = none := by
          cases hsome : sessionAt s r' e time with
          | none => rfl
          | some session => exact absurd (hall e session (RowStore.recordAt_of_le hle hsome)) hmem
        rw [if_neg fun hboth => hmem hboth.2, h.values r' e name time hr' he hle, hnone]
    · rw [if_neg fun hboth => hrealm hboth.1, if_neg hrealm]
      exact h.values r' e name time hr' he hle

end IdentityDirectory.UserSessions
