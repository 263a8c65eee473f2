import IdentityDirectory.AttributeIndex
import IdentityDirectory.Proofs.Isolation.Rules

/-!
Single accesses to the rows of one realm, and its attribute indexes. Names, values and entities are
whatever they are: none of them takes an index key out of the realm.
-/

namespace IdentityDirectory

variable {α σ : Type} {b : String} {t : Table}

section Rows

variable {key : RowKey} {partition : String} (ht : t.ofTenants)
include ht

theorem Query.local_row (hk : key.OfRealm b) :
    Query.Local b (Query.row t key) :=
  .ofRows fun _ _ h => h.get_eq ht hk

theorem Query.local_record [Storable α] (hk : key.OfRealm b) :
    Query.Local b (Query.record t key : Query (Option α)) := by
  refine .ofRows fun s s' h => ?_
  rw [h.get_eq ht hk]

theorem Query.local_scanPartition (hp : Owned b (RowKey.lead partition)) :
    Query.Local b (Query.scanPartition t partition) :=
  .ofRows fun _ _ h => h.scanPartition_eq ht hp

theorem Query.local_records [Storable α] (hp : Owned b (RowKey.lead partition)) :
    Query.Local b (Query.records α t partition) := by
  refine .ofRows fun s s' h => ?_
  rw [h.scanPartition_eq ht hp]

theorem Update.isolated_put [Storable α] (hk : key.OfRealm b) (a : α)
    (lifetime : Option Int) : Update.Isolated b (Update.put t key a lifetime) :=
  (RowStore.confined_put ht hk _ lifetime).update

theorem Update.isolated_putExpirable [Storable α] [Expirable α]
    (hk : key.OfRealm b) (a : α) :
    Update.Isolated b (Update.putExpirable t key a) := by
  refine .bind Query.Local.now.update fun now => ?_
  exact .bind (isolated_put ht hk a _) fun _ => .pure _

theorem Update.isolated_putIfVersion [Storable α] (hk : key.OfRealm b)
    (a : α) (expected : Option Nat) :
    Update.Isolated b (Update.putIfVersion t key a expected) :=
  (RowStore.confined_putIfVersion ht hk _ expected none).update

theorem Update.isolated_take (hk : key.OfRealm b) :
    Update.Isolated b (Update.take t key) :=
  (RowStore.confined_take ht hk).update

theorem Update.isolated_delete (hk : key.OfRealm b) :
    Update.Isolated b (Update.delete t key) :=
  (RowStore.confined_delete ht hk).update

theorem Update.isolated_deletePartition (hp : Owned b (RowKey.lead partition)) :
    Update.Isolated b (Update.deletePartition t partition) :=
  (RowStore.confined_deletePartition ht hp).update

end Rows

theorem Query.ofRealm_of_scanPartition {partition : String} {rows : List (RowKey × Row)}
    {s : RowStore} (hp : Owned b (RowKey.lead partition))
    (h : Query.scanPartition t partition s = .ok rows) : ∀ e ∈ rows, e.1.OfRealm b := by
  rw [Query.scanPartition, Query.ofRows] at h
  cases hscan : s.scanPartition t partition with
  | error fault =>
    rw [hscan] at h
    cases h
  | ok found =>
    rw [hscan] at h
    obtain rfl := Except.ok.inj h
    exact RowStore.ofRealm_of_scanPartition hp hscan

namespace AttributeIndex

variable {ix : AttributeIndex} (hix : ix ≠ .realms) (entity name value : String)

include hix in
theorem forward_ofTenants : ix.forward.ofTenants := by
  cases ix <;> first | rfl | exact absurd rfl hix

include hix in
theorem reverse_ofTenants : ix.reverse.ofTenants := by
  cases ix <;> first | rfl | exact absurd rfl hix

include hix

theorem local_valuesOf : Query.Local b (ix.valuesOf b entity name) :=
  .bind (Query.local_record (forward_ofTenants hix) (forwardKey_ofRealm entity name))
    fun _ => .pure _

theorem local_findBy : Query.Local b (ix.findBy b name value) :=
  .bind (Query.local_scanPartition (reverse_ofTenants hix) (owned_lead_value name value))
    fun _ => .pure _

theorem local_findUnique : Query.Local b (ix.findUnique b name value) := by
  refine .bind (local_findBy hix name value) fun owners => ?_
  split
  · exact .pure none
  · exact .pure _
  · exact .const _

theorem local_attributesOf : Query.Local b (ix.attributesOf b entity) := by
  refine .bind (Query.local_scanPartition (forward_ofTenants hix) (owned_lead_entity entity)) ?_
  intro rows
  exact .bind (.ofRows fun _ _ _ => rfl) fun _ => .pure _

theorem isolated_withdraw (values : List String) :
    Update.Isolated b (ix.withdraw b entity name values) :=
  .forM fun v _ =>
    .discard (Update.isolated_delete (reverse_ofTenants hix) (reverseKey_ofRealm entity name v))

theorem isolated_putForward (values : List String) (lifetime : Option Int) :
    Update.Isolated b (ix.putForward b entity name values lifetime) := by
  apply Boundary.Isolates.discard
  exact Update.isolated_put (forward_ofTenants hix) (forwardKey_ofRealm entity name) values lifetime

theorem isolated_removeAttribute : Update.Isolated b (ix.removeAttribute b entity name) := by
  refine .bind (local_valuesOf hix entity name).update fun previous => ?_
  refine .bind (Update.isolated_delete (forward_ofTenants hix) (forwardKey_ofRealm entity name)) ?_
  intro removed
  exact .bind (isolated_withdraw hix entity name previous) fun _ => .pure _

theorem isolated_setAttribute (values : List String) (lifetime : Option Int) :
    Update.Isolated b (ix.setAttribute b entity name values lifetime) := by
  rw [setAttribute]
  split
  · exact .discard (isolated_removeAttribute hix entity name)
  · refine .bind (local_valuesOf hix entity name).update fun previous => ?_
    refine .bind (isolated_putForward hix entity name _ lifetime) fun _ => ?_
    refine .bind (isolated_withdraw hix entity name _) fun _ => .forM fun v _ => ?_
    refine .discard (RowStore.Confined.update ?_)
    apply RowStore.confined_put (reverse_ofTenants hix)
    exact reverseKey_ofRealm entity name v

theorem isolated_removeAttributesOf : Update.Isolated b (ix.removeAttributesOf b entity) := by
  refine .bind (local_attributesOf hix entity).update fun attributes => ?_
  refine .bind (.forM fun e _ => isolated_withdraw hix entity e.1 e.2) fun _ => ?_
  refine .bind ?_ fun _ => .pure _
  exact Update.isolated_deletePartition (forward_ofTenants hix) (owned_lead_entity entity)

omit hix in
theorem local_staleClaims {holds : String → Query Bool}
    (hholds : ∀ owner, Query.Local b (holds owner)) (claims : List (RowKey × Row)) :
    Query.Local b (staleClaims entity holds claims) := by
  induction claims with
  | nil => exact .pure _
  | cons claim claims ih =>
    rw [staleClaims]
    split
    · exact ih
    · refine .bind .now fun now => ?_
      split
      · exact .pure none
      · refine .bind (hholds _) fun held => ?_
        split
        · exact .pure none
        · exact .bind ih fun _ => .pure _

omit hix in
theorem mem_of_staleClaims {holds : String → Query Bool} {s : RowStore}
    {claims : List (RowKey × Row)} {stale : List RowKey}
    (h : staleClaims entity holds claims s = .ok (some stale)) :
    ∀ key ∈ stale, ∃ row, (key, row) ∈ claims := by
  induction claims generalizing stale with
  | nil =>
    obtain rfl := Option.some.inj (Except.ok.inj h)
    nofun
  | cons claim claims ih =>
    obtain ⟨key, row⟩ := claim
    have hrest : ∀ {stale}, staleClaims entity holds claims s = .ok (some stale) →
        ∀ key' ∈ stale, ∃ row', (key', row') ∈ (key, row) :: claims := by
      intro stale hstale key' hkey'
      obtain ⟨row', hmem⟩ := ih hstale key' hkey'
      exact ⟨row', List.mem_cons_of_mem _ hmem⟩
    rw [staleClaims] at h
    split at h
    · exact hrest h
    · rw [Query.bind_of_ok (Query.now_apply s)] at h
      split at h
      · cases h
      · cases hheld : holds key.clustering s with
        | error e =>
          rw [Query.bind_of_error hheld] at h
          cases h
        | ok held =>
          rw [Query.bind_of_ok hheld] at h
          split at h
          · cases h
          · cases hstale : staleClaims entity holds claims s with
            | error e =>
              rw [Query.bind_of_error hstale] at h
              cases h
            | ok found =>
              rw [Query.bind_of_ok hstale] at h
              obtain ⟨rest, rfl, rfl⟩ := Option.map_eq_some_iff.mp (Except.ok.inj h)
              intro key' hkey'
              rcases List.mem_cons.mp hkey' with rfl | hkey'
              · exact ⟨row, List.mem_cons_self⟩
              · exact hrest hstale key' hkey'

theorem isolated_dropStaleClaims {holds : String → Query Bool}
    (hholds : ∀ owner, Query.Local b (holds owner)) :
    Update.Isolated b (ix.dropStaleClaims b entity name value holds) := by
  refine Update.Isolated.bind_query
    (Query.local_scanPartition (reverse_ofTenants hix) (owned_lead_value name value)) ?_
  intro claims s hclaims
  refine Update.Isolated.bind_query (local_staleClaims entity hholds claims) ?_
  intro found s' hfound
  cases found with
  | none => exact .pure false
  | some stale =>
    refine .bind (.forM fun key hkey => .discard ?_) fun _ => .pure true
    obtain ⟨row, hmem⟩ := mem_of_staleClaims entity hfound key hkey
    apply Update.isolated_delete (reverse_ofTenants hix)
    exact Query.ofRealm_of_scanPartition (owned_lead_value name value) hclaims (key, row) hmem

theorem isolated_tryClaim (lifetime : Option Int) :
    Update.Isolated b (ix.tryClaim b entity name value lifetime) := by
  refine .bind Query.Local.now.update fun now => RowStore.Confined.update ?_
  apply RowStore.confined_putIfPartitionVacant (reverse_ofTenants hix)
  exact owned_lead_value name value

theorem isolated_claimUnique (kind : UniqueKind) (lifetime : Option Int)
    {holds : String → Query Bool} (hholds : ∀ owner, Query.Local b (holds owner)) :
    Update.Isolated b (ix.claimUnique b entity name kind value lifetime holds) := by
  refine .bind (isolated_tryClaim hix entity name value lifetime) fun claimed => ?_
  split
  · exact .pure ()
  · refine .bind (isolated_dropStaleClaims hix entity name value hholds) fun dropped => ?_
    split
    · refine .bind (isolated_tryClaim hix entity name value lifetime) fun claimed => ?_
      split
      · exact .pure ()
      · exact .throw _
    · exact .throw _

theorem isolated_releaseClaim : Update.Isolated b (ix.releaseClaim b entity name value) :=
  Update.isolated_delete (reverse_ofTenants hix) (reverseKey_ofRealm entity name value)

theorem isolated_commitUnique (value : Option String) (lifetime : Option Int) :
    Update.Isolated b (ix.commitUnique b entity name value lifetime) := by
  cases value with
  | none => exact .discard (isolated_removeAttribute hix entity name)
  | some v =>
    refine .bind (local_valuesOf hix entity name).update fun previous => ?_
    refine .bind (isolated_putForward hix entity name [v] lifetime) fun _ => ?_
    exact isolated_withdraw hix entity name _

end AttributeIndex

end IdentityDirectory
