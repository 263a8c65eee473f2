import IdentityDirectory.Proofs.Directory.Upkeep
import IdentityDirectory.Proofs.Index.Extent

/-!
The rows of a realm, in all tables. Main statements: no row belongs to two realms (`Belongs.realm_eq`),
and what is left of a realm once its records have been removed, kind by kind (`vacant_sessions`,
`vacant_eraseAll`, `vacant_realm`).
-/

namespace IdentityDirectory.Directory

open AttributeIndex (Scoped entityPartition entity_eq_of_reverseKey reverseKey userSessions)
open UserSessions (sessionTables)

variable {s s' : RowStore} {t : Table} {r r' key : String} {time : Int}

/-- The key of a row is that of the realm itself, of what is kept for it as a whole, or of something in
it; nobody owns a token. -/
def Belongs (r : String) : Table → String → Prop
  | .realms, key | .realmRoles, key | .realmGroups, key | .realmClientScopes, key =>
    key = (RowKey.single r).encode
  | .realmAttributes, key => (RowKey.lead (entityPartition Realms.scope r)).toList <+: key.toList
  | .attributeRealms, key => ∃ name value, key = (reverseKey Realms.scope r name value).encode
  | .clients, key | .users, key | .userSessions, key | .clientSessions, key | .authSessions, key
  | .loginFailures, key => (RowKey.lead r).toList <+: key.toList
  | .clientAttributes, key | .attributeClients, key | .userAttributes, key | .attributeUsers, key
  | .userSessionAttributes, key | .attributeUserSessions, key => Scoped r key
  | .singleUseObjects, _ => False

theorem Belongs.owned (h : Belongs r t key) (ht : t.ofTenants) : Owned r key := by
  have hlead : ∀ {key : String}, (RowKey.lead r).toList <+: key.toList → Owned r key :=
    fun hprefix => owned_lead.of_prefix hprefix
  have hsingle : key = (RowKey.single r).encode → Owned r key := by
    rintro rfl
    exact RowKey.ofRealm r ""
  cases t with
  | realms | realmAttributes | attributeRealms | singleUseObjects => cases ht
  | realmRoles | realmGroups | realmClientScopes => exact hsingle h
  | clients | users | userSessions | clientSessions | authSessions | loginFailures => exact hlead h
  | clientAttributes | attributeClients | userAttributes | attributeUsers | userSessionAttributes
  | attributeUserSessions => exact .inr h

theorem plain_scope : Plain Realms.scope := by decide

theorem Belongs.realm_eq (h : Belongs r t key) (h' : Belongs r' t key) (hr : Plain r)
    (hr' : Plain r') : r = r' := by
  cases ht : t.ofTenants with
  | true => exact (h.owned ht).realm_eq (h'.owned ht) hr hr'
  | false =>
    cases t with
    | realms => exact Coordinator.encode_key_inj ((show key = _ from h).symm.trans h')
    | realmAttributes =>
      obtain ⟨name, rfl⟩ := RowKey.lead_prefix_iff.mp h
      have hlead : (RowKey.lead (entityPartition Realms.scope r')).toList <+:
          (AttributeIndex.forwardKey Realms.scope r name).encode.toList := h'
      rw [AttributeIndex.lead_prefix_forwardKey_iff plain_scope hr'.1 plain_scope hr.1] at hlead
      exact hlead.2
    | attributeRealms =>
      obtain ⟨name, value, rfl⟩ := h
      obtain ⟨name', value', heq⟩ := h'
      exact entity_eq_of_reverseKey hr.1 hr'.1 heq
    | singleUseObjects => exact h.elim
    | _ => cases ht

def erasing (r : String) (_ : Int) (t : Table) (key : String) (cell : Option Cell) : Prop :=
  cell = none ∧ Belongs r t key

def sparing (r : String) (_ : Int) (t : Table) (key : String) (_ : Option Cell) : Prop :=
  ¬ Belongs r t key

def Vacant (r : String) (t : Table) (s : RowStore) : Prop :=
  ∀ key time, s.now ≤ time → Belongs r t key → s.seen t key time = none

theorem vacant_of_now (h : ∀ key, Belongs r t key → s.seen t key s.now = none) : Vacant r t s := by
  intro key time hle hkey
  rw [Option.eq_none_iff_forall_not_mem]
  intro payload hseen
  have hnow := RowStore.seen_of_le hle hseen
  rw [h key hkey] at hnow
  cases hnow

theorem vacant_tokens : Vacant r .singleUseObjects s := fun _ _ _ hkey => hkey.elim

theorem Vacant.of_cells (h : Vacant r t s) (hnow : s'.now = s.now)
    (hcells : ∀ key, Belongs r t key →
      (s'.table t).get? key = (s.table t).get? key ∨ (s'.table t).get? key = none) :
    Vacant r t s' := by
  intro key time hle hkey
  have hbefore := h key time (hnow ▸ hle) hkey
  rw [RowStore.seen, RowStore.rowAt] at hbefore ⊢
  rcases hcells key hkey with hsame | hnone
  · rw [hsame]
    exact hbefore
  · rw [hnone]
    rfl

theorem Vacant.erased (h : Vacant r t s) (hw : RowStore.Wrote (erasing r) s s') : Vacant r t s' :=
  h.of_cells hw.now fun key _ => (hw.cells t key).imp_right And.left

theorem Vacant.spared (h : Vacant r t s) (hw : RowStore.Wrote (sparing r) s s') : Vacant r t s' :=
  h.of_cells hw.now fun key hkey => (hw.cells t key).imp_right fun hnot => absurd hkey hnot

theorem vacant_removePartition
    (hlead : ∀ key, Belongs r t key → (RowKey.lead r).toList <+: key.toList) :
    Vacant r t (s.removePartition t r) := by
  intro key time _ hkey
  rw [RowStore.seen_removePartition, if_pos ⟨rfl, hlead key hkey⟩]

theorem vacant_remove (hkey : ∀ key, Belongs r t key → key = (RowKey.single r).encode) :
    Vacant r t (s.remove t (RowKey.single r).encode) := by
  intro key time _ hbelongs
  rw [RowStore.seen_remove, if_pos ⟨rfl, hkey key hbelongs⟩]

theorem vacant_sessions {entities : List String} (hr : Plain r)
    (h : Consistent (UserSessions.eraseAll s r entities)) (ht : t ∈ sessionTables) :
    Vacant r t (UserSessions.eraseAll s r entities) := by
  have hindex : ∀ {t}, t = userSessions.forward ∨ t = userSessions.reverse →
      (∀ key, Belongs r t key → Scoped r key) →
        Vacant r t (UserSessions.eraseAll s r entities) := by
    intro t ht hscoped
    refine vacant_of_now fun key hkey => Option.not_isSome_iff_eq_none.mp fun hseen => ?_
    obtain ⟨r', e, session, hr', hkey', hsession⟩ :=
      UserSessions.session_of_seen h.backed h.indexed ht hseen
    obtain rfl := Owned.realm_eq (.inr (hscoped key hkey)) (.inr hkey') hr hr'
    rw [UserSessions.sessionAt_eraseAll hr hr, if_pos rfl] at hsession
    cases hsession
  have hsessions : Vacant r .userSessions
      ((userSessions.clearEach s r entities).removePartition .userSessions r) :=
    vacant_removePartition fun _ hkey => hkey
  simp only [sessionTables, List.mem_cons, List.not_mem_nil, or_false] at ht
  rcases ht with rfl | rfl | rfl | rfl
  · exact hsessions.of_cells (RowStore.now_removePartition r) fun key _ =>
      .inl (by rw [UserSessions.eraseAll, RowStore.table_removePartition_of_ne (by decide)])
  · exact vacant_removePartition fun _ hkey => hkey
  · exact hindex (.inl rfl) fun _ hkey => hkey
  · exact hindex (.inr rfl) fun _ hkey => hkey

section Records

variable {α : Type} [Storable α] {R : Registry α} {N : String → Prop} {U : String → String → Prop}

theorem unseen_index (h : R.Backed N s) (hkept : R.Kept U s) (hr : Plain r)
    (hnone : ∀ id, ¬ R.Has s r id) (ht : t = R.index.forward ∨ t = R.index.reverse)
    (hkey : Scoped r key) : s.seen t key s.now = none := by
  refine Option.not_isSome_iff_eq_none.mp fun hseen => ?_
  obtain ⟨scope, id, name, hscope, -, ⟨-, -, hhas⟩, -, heq⟩ :=
    h.index.attribute_of_seen hkept.regular ht hseen
  have hscoped : Scoped scope key := by
    rcases heq with ⟨-, rfl⟩ | ⟨-, value, rfl⟩
    · exact AttributeIndex.scoped_forwardKey scope id name
    · exact AttributeIndex.scoped_reverseKey scope id name value
  obtain rfl := Owned.realm_eq (.inr hkey) (.inr hscoped) hr hscope
  exact hnone id hhas

theorem vacant_eraseAll (hkey : ∀ r id, R.Scope r → R.key r id = ⟨r, id⟩) (hr : R.Scope r)
    (h : R.Backed N (R.eraseAll s r)) (hkept : R.Kept U (R.eraseAll s r))
    (hrecords : ∀ key, Belongs r R.table key → (RowKey.lead r).toList <+: key.toList)
    (hindex : ∀ t key, t = R.index.forward ∨ t = R.index.reverse → Belongs r t key → Scoped r key)
    (ht : t ∈ R.tables) : Vacant r t (R.eraseAll s r) := by
  rcases Registry.mem_tables_iff.mp ht with rfl | ht
  · exact vacant_removePartition hrecords
  · refine vacant_of_now fun key hbelongs => ?_
    exact unseen_index h hkept (R.scope_plain r hr)
      (fun id hhas => ((Registry.has_eraseAll_iff hkey hr hr).mp hhas).1 rfl) ht
      (hindex t key ht hbelongs)

end Records

theorem vacant_realm (hr : Plain r)
    (h : Realms.Backed (Realms.registry.erase s Realms.scope r)) {U : String → String → Prop}
    (hkept : Realms.registry.Kept U (Realms.registry.erase s Realms.scope r))
    (ht : t ∈ Realms.registry.tables) : Vacant r t (Realms.registry.erase s Realms.scope r) := by
  have hgone : ¬ Realms.registry.Has (Realms.registry.erase s Realms.scope r) Realms.scope r :=
    fun hhas => ((Registry.has_erase_iff rfl rfl).mp hhas).1 ⟨rfl, rfl⟩
  rcases Registry.mem_tables_iff.mp ht with rfl | ht
  · have hremoved : Vacant r .realms (s.remove .realms (RowKey.single r).encode) :=
      vacant_remove fun _ hkey => hkey
    have htable : (Realms.registry.erase s Realms.scope r).table .realms =
        (s.remove .realms (RowKey.single r).encode).table .realms :=
      Registry.table_of_within (R := Realms.registry) AttributeIndex.within_clearAll
    exact hremoved.of_cells AttributeIndex.now_clearAll fun key _ => .inl (by rw [htable])
  · refine vacant_of_now fun key hbelongs => Option.not_isSome_iff_eq_none.mp fun hseen => ?_
    obtain ⟨scope, id, name, -, hid, ⟨-, hscope, hhas⟩, -, heq⟩ :=
      h.index.attribute_of_seen hkept.regular ht hseen
    obtain rfl : scope = Realms.scope := hscope
    -- The row that is seen names a realm that is there, and so another one.
    suffices hsame : id = r by
      rw [hsame] at hhas
      exact hgone hhas
    rcases heq with ⟨rfl, rfl⟩ | ⟨rfl, value, rfl⟩
    · have hlead : (RowKey.lead (entityPartition Realms.scope r)).toList <+:
          (AttributeIndex.forwardKey Realms.scope id name).encode.toList := hbelongs
      rw [AttributeIndex.lead_prefix_forwardKey_iff plain_scope hr.1 plain_scope hid] at hlead
      exact hlead.2
    · obtain ⟨name', value', hkey⟩ := hbelongs
      exact entity_eq_of_reverseKey hid hr.1 hkey

end IdentityDirectory.Directory
