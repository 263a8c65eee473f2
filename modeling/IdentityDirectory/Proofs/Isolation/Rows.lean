import IdentityDirectory.Proofs.Rows.Partitions

/-!
The rows of one realm. A key that belongs to a realm starts with its id and one of the two
separators, and whatever is looked up, scanned or written under such keys depends on no other row
and changes no other row. Main statements: `Agree.partitionRows_eq` and, for each change of the
store, that it is `Confined`.
-/

namespace IdentityDirectory

/-- The tables in which every row belongs to a realm. -/
def Table.ofTenants : Table → Bool
  | realms | realmAttributes | attributeRealms | singleUseObjects => false
  | clients | clientAttributes | attributeClients | users | userAttributes | attributeUsers
  | userSessions | userSessionAttributes | attributeUserSessions | clientSessions | authSessions
  | loginFailures | realmRoles | realmGroups | realmClientScopes => true

/-- A key starts with the id of a realm and a separator. -/
def Owned (b key : String) : Prop :=
  b.toList ++ ['\x00'] <+: key.toList ∨ b.toList ++ ['\x1f'] <+: key.toList

instance (b key : String) : Decidable (Owned b key) := inferInstanceAs (Decidable (_ ∨ _))

def Owns (b : String) (t : Table) (key : String) : Prop := t.ofTenants ∧ Owned b key

variable {b : String}

theorem Owned.of_prefix {key key' : String} (h : Owned b key) (hp : key.toList <+: key'.toList) :
    Owned b key' :=
  h.imp (·.trans hp) (·.trans hp)

theorem owned_lead : Owned b (RowKey.lead b) := by
  left
  rw [RowKey.toList_lead]
  exact List.prefix_refl _

theorem owned_lead_entity (entity : String) :
    Owned b (RowKey.lead (AttributeIndex.entityPartition b entity)) := by
  right
  rw [RowKey.toList_lead, AttributeIndex.entityPartition, RowKey.toList_composite_two]
  exact ⟨entity.toList ++ [RowKey.partitionEnd], by simp⟩

theorem owned_lead_value (name value : String) :
    Owned b (RowKey.lead (AttributeIndex.valuePartition b name value)) := by
  right
  rw [RowKey.toList_lead, AttributeIndex.valuePartition, RowKey.toList_composite_three]
  exact ⟨name.toList ++ '\x1f' :: value.toList ++ [RowKey.partitionEnd], by simp⟩

def RowKey.OfRealm (key : RowKey) (b : String) : Prop := Owned b key.encode

theorem RowKey.ofRealm_of_lead {key : RowKey} (h : Owned b (lead key.partition)) :
    key.OfRealm b :=
  h.of_prefix (lead_prefix_iff.mpr ⟨key.clustering, rfl⟩)

theorem RowKey.ofRealm (b clustering : String) : OfRealm ⟨b, clustering⟩ b :=
  ofRealm_of_lead owned_lead

theorem AttributeIndex.forwardKey_ofRealm (entity name : String) :
    (forwardKey b entity name).OfRealm b :=
  RowKey.ofRealm_of_lead (owned_lead_entity entity)

theorem AttributeIndex.reverseKey_ofRealm (entity name value : String) :
    (reverseKey b entity name value).OfRealm b :=
  RowKey.ofRealm_of_lead (owned_lead_value name value)

theorem Owned.takeWhile_eq {key : String} (h : Owned b key) (hb : Plain b) :
    key.toList.takeWhile (fun c => c ≠ '\x00' ∧ c ≠ '\x1f') = b.toList := by
  have hall : ∀ c ∈ b.toList, (decide (c ≠ '\x00' ∧ c ≠ '\x1f')) = true := by
    intro c hc
    apply decide_eq_true
    constructor
    · rintro rfl
      exact hb.1 hc
    · rintro rfl
      exact hb.2 hc
  rcases h with ⟨rest, hkey⟩ | ⟨rest, hkey⟩
  · rw [← hkey, List.append_assoc, List.takeWhile_append_of_pos hall]
    simp
  · rw [← hkey, List.append_assoc, List.takeWhile_append_of_pos hall]
    simp

theorem Owned.realm_eq {other key : String} (h : Owned b key) (h' : Owned other key)
    (hb : Plain b) (hother : Plain other) : b = other :=
  String.toList_inj.mp ((h.takeWhile_eq hb).symm.trans (h'.takeWhile_eq hother))

namespace RowStore

variable {s s' s'' : RowStore} {t : Table} {α β : Type}

/-- Two stores have the same rows of a realm, and the same time. -/
structure Agree (b : String) (s s' : RowStore) : Prop where
  now : s.now = s'.now
  cells : ∀ t key, Owns b t key → (s.table t).get? key = (s'.table t).get? key

/-- Only rows of a realm have changed. -/
structure Spares (b : String) (s s' : RowStore) : Prop where
  now : s'.now = s.now
  cells : ∀ t key, ¬ Owns b t key → (s'.table t).get? key = (s.table t).get? key

theorem Agree.refl (b : String) (s : RowStore) : Agree b s s := ⟨rfl, fun _ _ _ => rfl⟩

theorem Agree.symm (h : Agree b s s') : Agree b s' s :=
  ⟨h.now.symm, fun t key ho => (h.cells t key ho).symm⟩

theorem Spares.refl (b : String) (s : RowStore) : Spares b s s := ⟨rfl, fun _ _ _ => rfl⟩

theorem Spares.trans (h : Spares b s s') (h' : Spares b s' s'') : Spares b s s'' :=
  ⟨h'.now.trans h.now, fun t key ho => (h'.cells t key ho).trans (h.cells t key ho)⟩

theorem Spares.agree {other : String} (h : Spares b s s') (hb : Plain b) (hother : Plain other)
    (hne : other ≠ b) : Agree other s s' where
  now := h.now.symm
  cells t key ho :=
    (h.cells t key fun hb' => hne (ho.2.realm_eq hb'.2 hother hb)).symm

theorem row?_congr {key : String} (h : (s.table t).get? key = (s'.table t).get? key) :
    s.row? t key = s'.row? t key := by
  rw [row?, row?, h]

theorem get_congr {key : RowKey} (hnow : s.now = s'.now)
    (h : (s.table t).get? key.encode = (s'.table t).get? key.encode) :
    s.get t key = s'.get t key := by
  rw [get, get, row?_congr h, hnow]

section Partition

variable {partition : String}
  (h : ∀ key : String, (RowKey.lead partition).toList <+: key.toList →
    (s.table t).get? key = (s'.table t).get? key)
include h

theorem partitionRows_congr : s.partitionRows t partition = s'.partitionRows t partition := by
  rw [partitionRows, partitionRows, StringMap.startingWith_congr h]

theorem scanPartition_congr (hnow : s.now = s'.now) :
    s.scanPartition t partition = s'.scanPartition t partition := by
  rw [scanPartition, scanPartition, partitionRows_congr h]
  cases s'.partitionRows t partition with
  | error fault => rfl
  | ok rows =>
    refine congrArg Except.ok ?_
    rw [live, live, hnow]

end Partition

theorem Agree.row?_eq {key : RowKey} (h : Agree b s s') (ht : t.ofTenants)
    (hk : key.OfRealm b) : s.row? t key.encode = s'.row? t key.encode :=
  row?_congr (h.cells t _ ⟨ht, hk⟩)

theorem Agree.partition {partition : String} (h : Agree b s s') (ht : t.ofTenants)
    (hp : Owned b (RowKey.lead partition)) :
    ∀ key : String, (RowKey.lead partition).toList <+: key.toList →
      (s.table t).get? key = (s'.table t).get? key :=
  fun key hkey => h.cells t key ⟨ht, hp.of_prefix hkey⟩

theorem Agree.partitionRows_eq {partition : String} (h : Agree b s s') (ht : t.ofTenants)
    (hp : Owned b (RowKey.lead partition)) :
    s.partitionRows t partition = s'.partitionRows t partition :=
  partitionRows_congr (h.partition ht hp)

theorem Agree.get_eq {key : RowKey} (h : Agree b s s') (ht : t.ofTenants)
    (hk : key.OfRealm b) : s.get t key = s'.get t key :=
  get_congr h.now (h.cells t _ ⟨ht, hk⟩)

theorem Agree.scanPartition_eq {partition : String} (h : Agree b s s') (ht : t.ofTenants)
    (hp : Owned b (RowKey.lead partition)) :
    s.scanPartition t partition = s'.scanPartition t partition :=
  scanPartition_congr (h.partition ht hp) h.now

theorem keys_rowsOf {l : List (String × Cell)} {rows : List (String × Row)}
    (h : rowsOf l = .ok rows) : rows.map (·.1) = l.map (·.1) := by
  induction l generalizing rows with
  | nil =>
    obtain rfl := Except.ok.inj h
    rfl
  | cons e l ih =>
    obtain ⟨key, cell⟩ := e
    rw [rowsOf, List.mapM_cons, ← rowsOf] at h
    cases cell with
    | unreadable => cases h
    | row row =>
      cases hrest : rowsOf l with
      | error fault =>
        rw [hrest] at h
        cases h
      | ok rest =>
        rw [hrest] at h
        obtain rfl := Except.ok.inj h
        exact congrArg (key :: ·) (ih hrest)

theorem owned_of_partitionRows {partition : String} {rows : List (String × Row)}
    (hp : Owned b (RowKey.lead partition)) (h : s.partitionRows t partition = .ok rows) :
    ∀ e ∈ rows, Owned b e.1 := by
  intro e he
  have hkey : e.1 ∈ rows.map (·.1) := List.mem_map.mpr ⟨e, he, rfl⟩
  rw [keys_rowsOf h, StringMap.startingWith_eq_filter] at hkey
  obtain ⟨entry, hentry, heq⟩ := List.mem_map.mp hkey
  rw [← heq]
  exact hp.of_prefix (List.isPrefixOf_iff_prefix.mp (List.mem_filter.mp hentry).2)

theorem ofRealm_of_scanPartition {partition : String} {rows : List (RowKey × Row)}
    (hp : Owned b (RowKey.lead partition)) (h : s.scanPartition t partition = .ok rows) :
    ∀ e ∈ rows, e.1.OfRealm b := by
  rw [scanPartition] at h
  cases hrows : s.partitionRows t partition with
  | error fault =>
    rw [hrows] at h
    cases h
  | ok found =>
    rw [hrows] at h
    obtain rfl := Except.ok.inj h
    intro e he
    obtain ⟨entry, hentry, hsome⟩ := List.mem_filterMap.mp he
    split at hsome
    · obtain ⟨key, hkey, rfl⟩ := Option.map_eq_some_iff.mp hsome
      rw [RowKey.OfRealm, ← (RowKey.eq_of_decode? hkey).1]
      exact owned_of_partitionRows hp hrows entry hentry
    · cases hsome

theorem Agree.replaceRow (h : Agree b s s') (t : Table) (key : String) (previous : Option Row)
    (row : Row) : Agree b (s.replaceRow t key previous row) (s'.replaceRow t key previous row) where
  now := h.now
  cells u key' ho := by
    rw [table_replaceRow, table_replaceRow]
    split
    · next hu =>
      rw [StringMap.get?_insert, StringMap.get?_insert, h.cells t key' (hu ▸ ho)]
    · exact h.cells u key' ho

theorem Agree.removeRow (h : Agree b s s') (t : Table) (key : String) (row : Row) :
    Agree b (s.removeRow t key row) (s'.removeRow t key row) where
  now := h.now
  cells u key' ho := by
    rw [table_removeRow, table_removeRow]
    split
    · next hu =>
      rw [StringMap.get?_erase, StringMap.get?_erase, h.cells t key' (hu ▸ ho)]
    · exact h.cells u key' ho

theorem spares_replaceRow {key : String} (hk : Owns b t key) (previous : Option Row) (row : Row) :
    Spares b s (s.replaceRow t key previous row) where
  now := rfl
  cells u key' ho := by
    rw [table_replaceRow]
    split
    · next hu =>
      have hne : key' ≠ key := fun heq => ho (hu ▸ heq ▸ hk)
      rw [StringMap.get?_insert, if_neg hne, hu]
    · rfl

theorem spares_removeRow {key : String} (hk : Owns b t key) (row : Row) :
    Spares b s (s.removeRow t key row) where
  now := rfl
  cells u key' ho := by
    rw [table_removeRow]
    split
    · next hu =>
      have hne : key' ≠ key := fun heq => ho (hu ▸ heq ▸ hk)
      rw [StringMap.get?_erase, if_neg hne, hu]
    · rfl

theorem Agree.removeRows (h : Agree b s s') (t : Table) (rows : List (String × Row)) :
    Agree b (rows.foldl (fun s e => s.removeRow t e.1 e.2) s)
      (rows.foldl (fun s e => s.removeRow t e.1 e.2) s') := by
  induction rows generalizing s s' with
  | nil => exact h
  | cons e rows ih => exact ih (h.removeRow t e.1 e.2)

theorem spares_removeRows {rows : List (String × Row)} (hrows : ∀ e ∈ rows, Owns b t e.1) :
    Spares b s (rows.foldl (fun s e => s.removeRow t e.1 e.2) s) := by
  induction rows generalizing s with
  | nil => exact .refl b s
  | cons e rows ih =>
    have hrest := fun f hf => hrows f (List.mem_cons_of_mem _ hf)
    exact (spares_removeRow (hrows e List.mem_cons_self) e.2).trans (ih hrest)

theorem Agree.successor_eq (h : Agree b s s') (previous : Option Row) (payload : Payload)
    (lifetime : Option Int) :
    s.successor previous payload lifetime = s'.successor previous payload lifetime := by
  simp only [successor, h.now]

theorem Agree.write {key : String} (h : Agree b s s') (previous : Option Row) (payload : Payload)
    (lifetime : Option Int) :
    Agree b (s.replaceRow t key previous (s.successor previous payload lifetime))
      (s'.replaceRow t key previous (s'.successor previous payload lifetime)) := by
  rw [h.successor_eq]
  exact h.replaceRow t key previous _

def Confined (b : String) (f : RowStore → Except StorageFault (α × RowStore)) : Prop :=
  ∀ s s', Agree b s s' →
    (∃ fault, f s = .error fault ∧ f s' = .error fault) ∨
    ∃ a s₁ s₁', f s = .ok (a, s₁) ∧ f s' = .ok (a, s₁') ∧ Agree b s₁ s₁' ∧ Spares b s s₁

namespace Confined

variable {f g : RowStore → Except StorageFault (α × RowStore)}

theorem bind {r : RowStore → Except StorageFault β}
    {f : β → RowStore → Except StorageFault (α × RowStore)}
    (hr : ∀ s s', Agree b s s' → r s = r s') (hf : ∀ c s, r s = .ok c → Confined b (f c)) :
    Confined b fun s => r s >>= fun c => f c s := by
  intro s s' h
  dsimp only
  rw [hr s s' h]
  cases hc : r s' with
  | error fault => exact .inl ⟨fault, rfl, rfl⟩
  | ok c => exact hf c s' hc s s' h

theorem ret {a : RowStore → α} {f : RowStore → RowStore}
    (ha : ∀ s s', Agree b s s' → a s = a s')
    (hf : ∀ s s', Agree b s s' → Agree b (f s) (f s') ∧ Spares b s (f s)) :
    Confined b fun s => .ok (a s, f s) :=
  fun s s' h => .inr ⟨a s, f s, f s', rfl, by rw [ha s s' h], hf s s' h⟩

theorem ite {c : RowStore → Prop} [∀ s, Decidable (c s)] (hc : ∀ s s', Agree b s s' → (c s ↔ c s'))
    (hf : Confined b f) (hg : Confined b g) : Confined b fun s => if c s then f s else g s := by
  intro s s' h
  by_cases hs : c s
  · simp only [if_pos hs, if_pos ((hc s s' h).mp hs)]
    exact hf s s' h
  · simp only [if_neg hs, if_neg fun hs' => hs ((hc s s' h).mpr hs')]
    exact hg s s' h

end Confined

section Key

variable {key : RowKey} (ht : t.ofTenants) (hk : key.OfRealm b)
include ht hk

theorem confined_write (a : Row → α) (previous : Option Row) (payload : Payload)
    (lifetime : Option Int) :
    Confined b fun s => .ok (a (s.successor previous payload lifetime),
      s.replaceRow t key.encode previous (s.successor previous payload lifetime)) := by
  apply Confined.ret
  · intro s s' h
    rw [h.successor_eq]
  · intro s s' h
    exact ⟨h.write previous payload lifetime, spares_replaceRow ⟨ht, hk⟩ previous _⟩

theorem confined_put (payload : Payload) (lifetime : Option Int) :
    Confined b (·.put t key payload lifetime) :=
  .bind (fun _ _ h => h.row?_eq ht hk) fun previous _ _ =>
    confined_write ht hk Row.version previous payload lifetime

theorem confined_take : Confined b (·.take t key) := by
  refine .bind (fun _ _ h => h.row?_eq ht hk) fun previous _ _ => ?_
  cases previous with
  | none =>
    apply Confined.ret
    · exact fun _ _ _ => rfl
    · exact fun s _ h => ⟨h, .refl b s⟩
  | some row =>
    apply Confined.ret
    · intro s s' h
      rw [h.now]
    · intro s s' h
      exact ⟨h.removeRow t key.encode row, spares_removeRow ⟨ht, hk⟩ row⟩

theorem confined_putIfVersion (payload : Payload) (expected : Option Nat)
    (lifetime : Option Int) : Confined b (·.putIfVersion t key payload expected lifetime) := by
  refine .bind (fun _ _ h => h.row?_eq ht hk) fun previous _ _ => ?_
  apply Confined.ite
  · intro s s' h
    rw [h.now]
  · exact confined_write ht hk (fun row => ConditionalWrite.applied row.version) previous payload
      lifetime
  · apply Confined.ret
    · intro s s' h
      rw [h.now]
    · exact fun s _ h => ⟨h, .refl b s⟩

omit hk in
theorem confined_putIfPartitionVacant (hp : Owned b (RowKey.lead key.partition))
    (payload : Payload) (lifetime : Option Int) :
    Confined b (·.putIfPartitionVacant t key payload lifetime) := by
  have hk := RowKey.ofRealm_of_lead hp
  refine .bind (fun _ _ h => h.partitionRows_eq ht hp) fun rows _ _ => ?_
  apply Confined.ite
  · intro s s' h
    rw [h.now]
  · apply Confined.ret
    · exact fun _ _ _ => rfl
    · exact fun s _ h => ⟨h, .refl b s⟩
  · exact confined_write ht hk (fun _ => true) (rows.lookup key.encode) payload lifetime

end Key

theorem confined_delete {key : RowKey} (ht : t.ofTenants)
    (hk : key.OfRealm b) : Confined b (·.delete t key) := by
  intro s s' h
  rcases confined_take ht hk s s' h with ⟨fault, heq, heq'⟩ | ⟨row, s₁, s₁', heq, heq', hrest⟩
  · exact .inl ⟨fault, by simp only [delete, heq]; rfl, by simp only [delete, heq']; rfl⟩
  · exact .inr ⟨row.isSome, s₁, s₁', by simp only [delete, heq]; rfl,
      by simp only [delete, heq']; rfl, hrest⟩

theorem confined_deletePartition {partition : String} (ht : t.ofTenants)
    (hp : Owned b (RowKey.lead partition)) : Confined b (·.deletePartition t partition) := by
  refine .bind (fun _ _ h => h.partitionRows_eq ht hp) fun rows s hrows => ?_
  have howned := owned_of_partitionRows hp hrows
  apply Confined.ret
  · intro s s' h
    rw [h.now]
  · intro s s' h
    exact ⟨h.removeRows t rows, spares_removeRows fun e he => ⟨ht, howned e he⟩⟩

end RowStore

end IdentityDirectory
