import IdentityDirectory.Proofs.Directory.Upkeep
import IdentityDirectory.Proofs.Registry.Extent
import IdentityDirectory.Proofs.Session.Passes

/-!
What is left in the rows of a client or a user that has been removed, sessions and client sessions
included. Main statements: `ClientErased.of_passed` and `UserErased.of_passed`, each for a pass over
the sessions that is followed by the removal of the record.
-/

namespace IdentityDirectory.Directory

open AttributeIndex (userSessions)
open RowStore (ChangesOnly)
open UserSessions (Live OfSession OfSessions Passed clientSessionKey clientSessionOf detached entity
  sessionAt sessionTables)

variable {s s' s'' : RowStore} {r r' e e' id id' key : String} {t : Table} {a : UserSession}
  {which : UserSession → Prop} {named : UserSession → List String} {time : Int}
  {outcome : UserSession → Int → Option UserSession}

theorem mem_tables_of_ofRecord {α : Type} [Storable α] {R : Registry α} (h : R.OfRecord r id t key) :
    t ∈ R.tables := by
  rw [Registry.mem_tables_iff]
  rcases h with ⟨rfl, -⟩ | ⟨rfl, -⟩ | ⟨rfl, -⟩
  · exact .inl rfl
  · exact .inr (.inl rfl)
  · exact .inr (.inr rfl)

theorem mem_tables_of_ofSession (h : OfSession r e t key) : t ∈ sessionTables := by
  rcases h with ⟨rfl, -⟩ | ⟨rfl, -⟩ | ⟨rfl, -⟩ <;> decide

theorem mem_tables_of_ofSessions (h : OfSessions r which named t key) : t ∈ sessionTables := by
  obtain ⟨a, -, hown | ⟨rfl, -⟩⟩ := h
  · exact mem_tables_of_ofSession hown
  · decide

theorem ofSession_unique (h : OfSession r e t key) (h' : OfSession r' e' t key) (hr : Plain r)
    (he : NulFree e) (hr' : Plain r') (he' : NulFree e') : r = r' ∧ e = e' := by
  rcases h with ⟨rfl, hkey⟩ | hindex
  · rcases h' with ⟨-, hkey'⟩ | hindex'
    · exact (UserSessions.key_encode_inj hr hr').mp (hkey.symm.trans hkey')
    · exact absurd rfl (UserSessions.ofEntity_index hindex').1
  · rcases h' with ⟨rfl, -⟩ | hindex'
    · exact absurd rfl (UserSessions.ofEntity_index hindex).1
    · exact hindex.unique hindex' hr he hr' he'

theorem not_ofSessions (h : UserSessions.Indexed s) (hr : Plain r) (hr' : Plain r')
    (hlive : Live s r' a) (hwhich : ∀ b, which b → Live s r b) (hnot : r' = r → ¬ which a)
    (hkey : OfSession r' (entity a.id a.offline) t key) : ¬ OfSessions r which named t key := by
  have hfree : ∀ {r b}, Plain r → Live s r b → NulFree (entity b.id b.offline) := fun hr hb =>
    UserSessions.entity_nulFree (h.placed _ _ _ hr hb).2.1 _
  rintro ⟨b, hb, hown | ⟨rfl, -⟩⟩
  · obtain ⟨rfl, heq⟩ :=
      ofSession_unique hkey hown hr' (hfree hr' hlive) hr (hfree hr (hwhich b hb))
    exact hnot rfl (hlive.eq (hwhich b hb) heq ▸ hb)
  · rcases hkey with ⟨htable, -⟩ | hindex
    · cases htable
    · exact (UserSessions.ofEntity_index hindex).2 rfl

theorem unseen_of_no_session (h : Consistent s) (hr : Plain r) (he : NulFree e)
    (hnone : sessionAt s r e s.now = none) (hkey : OfSession r e t key) :
    s.seen t key s.now = none := by
  rcases hkey with ⟨rfl, rfl⟩ | hindex
  · have hseen := h.indexed.sessions.seen_eq (UserSessions.key r e) s.now
    rw [show s.recordAt UserSession .userSessions _ s.now = none from hnone] at hseen
    exact hseen
  · refine h.backed.unseen h.indexed.regular hr he (fun name _ => ?_) hindex
    rw [h.indexed.values r e name s.now hr he (Int.le_refl _), hnone]
    rfl

theorem session_of_passed (h : UserSessions.Indexed s) (hr : Plain r)
    (hpassed : Passed r which named outcome s s') (hsession : sessionAt s' r e s.now = some a) :
    (∃ b, which b ∧ outcome b s.now = some a) ∨ Live s r a ∧ ¬ which a := by
  by_cases hhit : ∃ b, which b ∧ e = entity b.id b.offline
  · obtain ⟨b, hb, rfl⟩ := hhit
    exact .inl ⟨b, hb, (hpassed.outcome b hb s.now).symm.trans hsession⟩
  · rw [hpassed.sessionAt_of_ne fun b hb heq => hhit ⟨b, hb, heq⟩] at hsession
    obtain ⟨rfl, -⟩ := h.placed r e a hr hsession
    exact .inr ⟨hsession, fun ha => hhit ⟨a, ha, rfl⟩⟩

section Erased

variable {α : Type} [Storable α] {R : Registry α} {attached : Table → String → Prop} {N : String → Prop}
  {U : String → String → Prop}

/-- A record is gone, and so are client sessions of some sessions; nothing else has changed but the rows
of these sessions and what is `attached` to the record. -/
structure Erased (R : Registry α) (r id : String) (which : UserSession → Prop)
    (named : UserSession → List String) (attached : Table → String → Prop) (s s' : RowStore) : Prop where
  clientSessions : ∀ a, which a → ∀ c ∈ named a,
    (s'.table .clientSessions).get? (clientSessionKey r c).encode = none
  unseen : ∀ t key, R.OfRecord r id t key → ∀ time, s.now ≤ time → s'.seen t key time = none
  others : ChangesOnly (fun t key => OfSessions r which named t key ∨ attached t key ∨
    R.OfRecord r id t key) s s'
  otherSessions : ∀ r' a, Plain r' → Live s r' a → (r' = r → ¬ which a) →
    ∀ t key, OfSession r' (entity a.id a.offline) t key →
      (s'.table t).get? key = (s.table t).get? key
  otherRecords : ∀ r' id', R.Scope r' → NulFree id' → ¬ (r' = r ∧ id' = id) →
    ∀ t key, R.OfRecord r' id' t key → (s'.table t).get? key = (s.table t).get? key

section Tables

variable (hattached : ∀ t key, attached t key → t ∉ sessionTables ∧ t ∉ R.tables)
  (hapart : ∀ t ∈ R.tables, t ∉ sessionTables) (hs : ChangesOnly attached s s')
include hattached hapart hs

theorem table_erase_of_session (ht : t ∈ sessionTables) :
    (R.erase s' r id).table t = s.table t := by
  -- Once the pass is over, no session changes any more.
  refine StringMap.ext_get? fun key => ?_
  have hrecord : ¬ R.OfRecord r id t key := fun hof => hapart t (mem_tables_of_ofRecord hof) ht
  rw [Registry.changesOnly_erase.cell hrecord, hs.cell fun hof => (hattached t key hof).1 ht]

theorem Erased.of_passed (h : Consistent s'') (hr : R.Scope r) (hid : NulFree id)
    (hwhich : ∀ a, which a → Live s'' r a) (hpassed : Passed r which named outcome s'' s)
    (hbacked : R.Backed N (R.erase s' r id)) (hkept : R.Kept U (R.erase s' r id)) :
    Erased R r id which named attached s'' (R.erase s' r id) := by
  have hothers : ChangesOnly (fun t key => OfSessions r which named t key ∨ attached t key ∨
      R.OfRecord r id t key) s'' (R.erase s' r id) :=
    ((hpassed.changes.widen fun _ _ => .inl).trans (hs.widen fun _ _ h => .inr (.inl h))).trans
      (Registry.changesOnly_erase.widen fun _ _ h => .inr (.inr h))
  constructor
  · intro a ha c hc
    rw [table_erase_of_session hattached hapart hs (by decide)]
    exact hpassed.dropped a ha c hc
  · intro t key hkey time hle
    apply hbacked.unseen_erase hkept hr hid hkey
    rw [hs.now, hpassed.changes.now]
    exact hle
  · exact hothers
  · intro r' a hr' hlive hnot t key hkey
    have htable := mem_tables_of_ofSession hkey
    refine hothers.cell fun hof => ?_
    rcases hof with hof | hof | hof
    · exact not_ofSessions h.indexed (R.scope_plain r hr) hr' hlive hwhich hnot hkey hof
    · exact (hattached t key hof).1 htable
    · exact hapart t (mem_tables_of_ofRecord hof) htable
  · intro r' id' hr' hid' hne t key hkey
    have htable := mem_tables_of_ofRecord hkey
    refine hothers.cell fun hof => ?_
    rcases hof with hof | hof | hof
    · exact hapart t htable (mem_tables_of_ofSessions hof)
    · exact (hattached t key hof).2 htable
    · exact hne (hkey.unique hof hr' hid' hr hid)

end Tables

end Erased

def Naming (s : RowStore) (r id : String) (a : UserSession) : Prop :=
  Live s r a ∧ id ∈ a.clientSessions

structure ClientErased (realm : Realm) (id : String) (s s' : RowStore) : Prop extends
    Erased Clients.registry realm.id id (Naming s realm.id id) (clientSessionOf id)
      (fun _ _ => False) s s' where
  sessions : ∀ e a, sessionAt s' realm.id e s'.now = some a → id ∉ a.clientSessions
  detached : ∀ a, Naming s realm.id id a → ∀ time,
    sessionAt s' realm.id (entity a.id a.offline) time = detached realm id s.now a time

theorem notMem_of_detached {realm : Realm} {b : UserSession} {now : Int}
    (h : detached realm id now b time = some a) : id ∉ a.clientSessions := by
  rw [detached] at h
  split at h
  · obtain rfl := Option.some.inj h
    exact fun hmem => (StringMap.mem_erase.mp hmem).1 rfl
  · cases h

theorem ClientErased.of_passed {s₁ : RowStore} {realm : Realm} (h : Consistent s) (hr : Plain realm.id)
    (hid : NulFree id) (hpassed : Passed realm.id (Naming s realm.id id) (clientSessionOf id)
      (UserSessions.detached realm id s.now) s s₁)
    (herased : s' = Clients.registry.erase s₁ realm.id id) (hconsistent : Consistent s') :
    ClientErased realm id s s' := by
  rw [herased] at hconsistent ⊢
  have hnone : ∀ (t : Table) (key : String), False →
      t ∉ sessionTables ∧ t ∉ Clients.registry.tables := nofun
  have hapart : ∀ t ∈ Clients.registry.tables, t ∉ sessionTables := by decide
  have hrest : ChangesOnly (fun _ _ => False) s₁ s₁ := .refl s₁
  have herased := Erased.of_passed hnone hapart hrest h hr hid (fun _ ha => ha.1) hpassed
    hconsistent.tended.clients hconsistent.tended.upheld.clients
  have hsession : ∀ e time, sessionAt (Clients.registry.erase s₁ realm.id id) realm.id e time =
      sessionAt s₁ realm.id e time :=
    UserSessions.sessionAt_congr (table_erase_of_session hnone hapart hrest (by decide)) realm.id
  refine { herased with sessions := fun e a ha => ?_, detached := fun a ha time => ?_ }
  · rw [herased.others.now, hsession] at ha
    rcases session_of_passed h.indexed hr hpassed ha with ⟨b, -, hb⟩ | ⟨hlive, hnot⟩
    · exact notMem_of_detached hb
    · exact fun hmem => hnot ⟨hlive, hmem⟩
  · rw [hsession]
    exact hpassed.outcome a ha time

def Owning (s : RowStore) (r id : String) (a : UserSession) : Prop := Live s r a ∧ a.userId = id

def OfFailures (r id : String) (t : Table) (key : String) : Prop :=
  t = .loginFailures ∧ key = (LoginFailures.key r id).encode

structure UserErased (r id : String) (s s' : RowStore) : Prop extends
    Erased Users.registry r id (Owning s r id) (·.clientSessions.values) (OfFailures r id) s s' where
  sessions : ∀ e a, sessionAt s' r e s'.now = some a → a.userId ≠ id
  cleared : ∀ a, Owning s r id a → ∀ t key, OfSession r (entity a.id a.offline) t key →
    s'.seen t key s'.now = none
  failures : ∀ t key, OfFailures r id t key → (s'.table t).get? key = none
  otherFailures : ∀ r' id', Plain r' → ¬ (r' = r ∧ id' = id) → ∀ t key, OfFailures r' id' t key →
    (s'.table t).get? key = (s.table t).get? key

theorem UserErased.of_passed {s₁ s₂ : RowStore} (h : Consistent s) (hr : Plain r) (hid : NulFree id)
    (hpassed : Passed r (Owning s r id) (·.clientSessions.values) (fun _ _ => none) s s₁)
    (hrest : s₂ = s₁.remove .loginFailures (LoginFailures.key r id).encode)
    (herased : s' = Users.registry.erase s₂ r id) (hconsistent : Consistent s') :
    UserErased r id s s' := by
  rw [herased] at hconsistent ⊢
  have hattached : ∀ t key, OfFailures r id t key →
      t ∉ sessionTables ∧ t ∉ Users.registry.tables := by
    rintro _ _ ⟨rfl, -⟩
    decide
  have hapart : ∀ t ∈ Users.registry.tables, t ∉ sessionTables := by decide
  have hremoved : ChangesOnly (OfFailures r id) s₁ s₂ :=
    hrest ▸ RowStore.changesOnly_remove ⟨rfl, rfl⟩
  have herased := Erased.of_passed hattached hapart hremoved h hr hid (fun _ ha => ha.1) hpassed
    hconsistent.tended.users hconsistent.tended.upheld.users
  have hsession : ∀ e time,
      sessionAt (Users.registry.erase s₂ r id) r e time = sessionAt s₁ r e time :=
    UserSessions.sessionAt_congr (table_erase_of_session hattached hapart hremoved (by decide)) r
  have hreadable : s₁.Readable .loginFailures := by
    intro key
    rw [hpassed.changes.cell fun hof => absurd (mem_tables_of_ofSessions hof) (by decide)]
    exact h.readable .loginFailures (by decide) key
  have hfailures : ∀ key, ((Users.registry.erase s₂ r id).table .loginFailures).get? key =
      (s₂.table .loginFailures).get? key := fun key =>
    Registry.changesOnly_erase.cell fun hof => absurd (mem_tables_of_ofRecord hof) (by decide)
  refine { herased with
    sessions := fun e a ha => ?_
    cleared := fun a ha t key hkey => ?_
    failures := ?_
    otherFailures := ?_ }
  · rw [herased.others.now, hsession] at ha
    rcases session_of_passed h.indexed hr hpassed ha with ⟨b, -, hb⟩ | ⟨hlive, hnot⟩
    · cases hb
    · exact fun hsame => hnot ⟨hlive, hsame⟩
  · have hfree := (h.indexed.placed r _ a hr ha.1).2.1
    refine unseen_of_no_session hconsistent hr (UserSessions.entity_nulFree hfree _) ?_ hkey
    rw [hsession]
    exact hpassed.outcome a ha _
  · rintro _ _ ⟨rfl, rfl⟩
    rw [hfailures, hrest]
    exact RowStore.get?_remove_of_readable hreadable _
  · rintro r' id' hr' hne _ _ ⟨rfl, rfl⟩
    refine herased.others.cell fun hof => ?_
    rcases hof with hof | ⟨-, hkey⟩ | hof
    · exact absurd (mem_tables_of_ofSessions hof) (by decide)
    · exact hne (RowKey.mk.inj ((RowKey.encode_inj hr'.1 hr.1).mp hkey))
    · exact absurd (mem_tables_of_ofRecord hof) (by decide)

end IdentityDirectory.Directory
