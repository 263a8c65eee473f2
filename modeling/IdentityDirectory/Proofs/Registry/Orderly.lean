import IdentityDirectory.Proofs.Isolation.Reads
import IdentityDirectory.Proofs.Registry.Attributes

/-!
What holds of the users and of their attributes at all times, for any usernames, emails, links and
attributes and for any identifiers that calls are made with: users are where they belong, and every
attribute that is found has a name of the directory's own or one that callers may use. Main statements:
`Orderly.effect` and `Durable.effect`.
-/

namespace IdentityDirectory

namespace Registries.Operation

def userRealm? : Operation → Option String
  | createUser realm _ | updateUser realm _ => some realm.id
  | removeUser r _ | removeUsers r | joinGroup r _ _ | leaveGroup r _ _ | grantRole r _ _
  | revokeRole r _ _ | addRequiredAction r _ _ | removeRequiredAction r _ _
  | setAttribute r _ _ _ | removeAttribute r _ _ => some r
  | createRealm .. | updateRealm _ | removeRealm _ | createClient .. | updateClient _
  | removeClient .. | removeClients _ => none

def InPlainRealm (op : Operation) : Prop := ∀ r ∈ op.userRealm?, Plain r

instance (op : Operation) : Decidable op.InPlainRealm :=
  inferInstanceAs (Decidable (∀ r ∈ op.userRealm?, Plain r))

theorem onlyIn_effect {op : Operation} (h : op.userRealm? = none) (drawn : String) (s : RowStore) :
    RowStore.OnlyIn (Realms.registry.tables ++ Clients.registry.tables) s (op.effect drawn s).2 := by
  have hrealms : ∀ {u : Update Unit}, Update.Writes (RowStore.within Realms.registry.tables) u →
      RowStore.OnlyIn (Realms.registry.tables ++ Clients.registry.tables) s (u s).2 :=
    fun hu => (hu.wrote s).onlyIn fun _ _ _ _ ht => List.mem_append_left _ ht
  have hclients : ∀ {u : Update Unit}, Update.Writes (RowStore.within Clients.registry.tables) u →
      RowStore.OnlyIn (Realms.registry.tables ++ Clients.registry.tables) s (u s).2 :=
    fun hu => (hu.wrote s).onlyIn fun _ _ _ _ ht => List.mem_append_right _ ht
  cases op with
  | createRealm id name =>
    exact hrealms (.discard (Realms.writes_insert Realms.registry.writable_within _))
  | updateRealm realm =>
    exact hrealms (.discard (Realms.writes_replace Realms.registry.writable_within realm))
  | removeRealm id =>
    exact hrealms (.discard (Realms.writes_delete Realms.registry.writable_within id))
  | createClient realmId clientId =>
    exact hclients (.discard (Clients.writes_insert Clients.registry.writable_within _))
  | updateClient client =>
    exact hclients (.discard (Clients.writes_replace Clients.registry.writable_within client))
  | removeClient realmId id =>
    exact hclients (.discard (Clients.writes_delete Clients.registry.writable_within realmId id))
  | removeClients realmId =>
    exact hclients (.discard (Clients.writes_deleteAll Clients.registry.writable_within realmId))
  | _ => cases h

end Registries.Operation

namespace Users

open Registries (Operation)
open RowStore (LastingIn OnlyIn Wrote)

variable {s s' : RowStore} {r id name : String} {user : User}

/-- A name of the directory's own, or one that callers may use. -/
def Settled (name : String) : Prop := name ∈ fields ∨ isInternal name = false

structure Orderly (s : RowStore) : Prop extends Placed s where
  sound : AttributeIndex.users.Sound s
  named : ∀ r, Plain r → AttributeIndex.users.Named s r Settled

theorem orderly_empty (now : Int) : Orderly (.empty now) where
  toPlaced := placed_empty now
  sound := AttributeIndex.sound_empty _ now
  named r _ := AttributeIndex.named_empty _ now r Settled

theorem Orderly.later (h : Orderly s) {now : Int} (hle : s.now ≤ now) : Orderly { s with now } where
  toPlaced := h.toPlaced.congr rfl
  sound := AttributeIndex.Sound.congr (s := s) rfl rfl h.sound
  named r hr := (h.named r hr).later hle

theorem Orderly.reclaimed (h : Orderly s) (hs : RowStore.Reclaimed s s') : Orderly s' where
  toPlaced := h.toPlaced.reclaimed hs
  sound := h.sound.reclaimed hs
  named r hr := (h.named r hr).reclaimed hs

theorem Orderly.of_placed (h : Orderly s) (hplaced : Placed s') (hnow : s'.now = s.now)
    (hf : s'.table AttributeIndex.users.forward = s.table AttributeIndex.users.forward)
    (hr : s'.table AttributeIndex.users.reverse = s.table AttributeIndex.users.reverse) :
    Orderly s' where
  toPlaced := hplaced
  sound := h.sound.congr hf hr
  named r hplain := (h.named r hplain).congr_table hf hnow

theorem Orderly.onlyIn {tables : List Table} (h : Orderly s) (ho : OnlyIn tables s s')
    (hne : ∀ t ∈ registry.tables, t ∉ tables) : Orderly s' := by
  refine h.of_placed (h.toPlaced.congr ?_) ho.now ?_ ?_ <;>
    exact ho.table _ (hne _ (by decide))

theorem Orderly.remove (h : Orderly s) (key : String) : Orderly (s.remove .users key) :=
  h.of_placed (h.toPlaced.remove .users key) (s.now_remove .users key)
    (s.table_remove_of_ne (by decide) key) (s.table_remove_of_ne (by decide) key)

theorem Orderly.removePartition (h : Orderly s) (partition : String) :
    Orderly (s.removePartition .users partition) :=
  h.of_placed (h.toPlaced.removePartition .users partition) (RowStore.now_removePartition partition)
    (RowStore.table_removePartition_of_ne (by decide) partition)
    (RowStore.table_removePartition_of_ne (by decide) partition)

theorem Orderly.wrote (h : Orderly s) (hw : Wrote Proper s s') : Orderly s' where
  toPlaced := h.toPlaced.wrote hw
  sound := sound_wrote h.sound hw
  named r hr := named_wrote hr (fun _ hf => .inl hf) (h.named r hr) hw

theorem Orderly.set (h : Orderly s) (hr : Plain r) (hid : NulFree id) (hname : Settled name)
    (values : List String) : Orderly (AttributeIndex.users.set s r id name values none) where
  toPlaced := h.toPlaced.within AttributeIndex.within_set
  sound := AttributeIndex.sound_set h.sound
  named r' hr' := (h.named r' hr').set hr' hr hid fun _ => hname

theorem Orderly.clear (h : Orderly s) (r id name : String) :
    Orderly (AttributeIndex.users.clear s r id name) where
  toPlaced := h.toPlaced.within AttributeIndex.within_clear
  sound := AttributeIndex.sound_clear h.sound
  named r' hr' := (h.named r' hr').clear

theorem Orderly.clearAll (h : Orderly s) (r id : String) :
    Orderly (AttributeIndex.users.clearAll s r id) where
  toPlaced := h.toPlaced.within AttributeIndex.within_clearAll
  sound := AttributeIndex.sound_clearAll h.sound
  named r' hr' := (h.named r' hr').clearAll

theorem Orderly.clearEach (h : Orderly s) (r : String) (ids : List String) :
    Orderly (AttributeIndex.users.clearEach s r ids) := by
  induction ids generalizing s with
  | nil => exact h
  | cons id ids ih => exact ih (h.clearAll r id)

theorem Orderly.putAttribute (h : Orderly s) (hr : Plain r) (id : String) (hname : Settled name)
    (values : List String) : Orderly (putAttribute r id name values s).2 := by
  rw [Users.putAttribute, Update.bind_liftM_of_ok (h.load_eq r id)]
  cases hrecord : registry.record s r id s.now with
  | none => exact h
  | some user =>
    have hid := (h.of_record hr hrecord).2.2
    rw [if_neg (by simp), Update.bind_of_ok (AttributeIndex.setAttribute_eq h.sound _ _ _ _ _)]
    exact h.set hr hid hname values

theorem Orderly.erase (h : Orderly s) (r id : String) : Orderly (registry.erase s r id) :=
  (h.remove (key r id).encode).clearAll r id

theorem Orderly.eraseAll (h : Orderly s) (r : String) : Orderly (registry.eraseAll s r) :=
  (h.clearEach r _).removePartition r

theorem Orderly.delete_eq (h : Orderly s) (r id : String) :
    ∃ removed, delete r id s = (.ok removed, registry.erase s r id) :=
  Registry.erase_eq (R := registry) h.holds h.sound r id

theorem Orderly.deleteAll_eq (h : Orderly s) (r : String) :
    ∃ n, deleteAll r s = (.ok n, registry.eraseAll s r) :=
  ⟨_, Registry.eraseAll_eq (R := registry) h.holds h.sound r⟩

theorem Orderly.unlessInternal {u : Update Bool} (h : Orderly s)
    (hu : isInternal name = false → Orderly (u s).2) :
    Orderly (Operation.unlessInternal name u s).2 := by
  rw [Operation.unlessInternal]
  split
  · exact h
  · next hname => exact hu (by simpa using hname)

theorem Orderly.effect (h : Orderly s) {op : Operation} (hop : op.InPlainRealm) {drawn : String}
    (hdrawn : NulFree drawn) : Orderly (op.effect drawn s).2 := by
  have halter {r : String} (hr : Plain r) (id : String) {change : User → Option User}
      (hchange : KeepsPlace change) : Orderly ((discard (alter r id change) : Update Unit) s).2 := by
    rw [Update.discard_rows]
    exact h.wrote (h.wrote_alter hr id hchange)
  cases op with
  | createUser realm username =>
    have hwrites : Update.Writes Proper (Operation.insertUser realm username drawn) :=
      .bind (Update.writes_query _) fun _ => writes_insert (writable_proper (hop _ rfl) hdrawn)
    rw [Operation.effect, Update.discard_rows]
    exact h.wrote (hwrites.wrote s)
  | updateUser realm user =>
    rw [Operation.effect, Update.discard_rows]
    exact h.wrote (h.wrote_replace (hop _ rfl) user)
  | removeUser r id =>
    obtain ⟨removed, heq⟩ := h.delete_eq r id
    rw [Operation.effect, Update.discard_rows, heq]
    dsimp only
    exact h.erase r id
  | removeUsers r =>
    obtain ⟨n, heq⟩ := h.deleteAll_eq r
    rw [Operation.effect, Update.discard_rows, heq]
    dsimp only
    exact h.eraseAll r
  | joinGroup r id _ | leaveGroup r id _ => exact halter (hop _ rfl) id (keepsPlace_withGroups _)
  | grantRole r id _ | revokeRole r id _ => exact halter (hop _ rfl) id (keepsPlace_withRoles _)
  | addRequiredAction r id _ | removeRequiredAction r id _ =>
    exact halter (hop _ rfl) id (keepsPlace_withActions _)
  | setAttribute r id name values =>
    rw [Operation.effect, Update.discard_rows]
    exact h.unlessInternal fun hname => h.putAttribute (hop _ rfl) id (.inr hname) values
  | removeAttribute r id name =>
    rw [Operation.effect, Update.discard_rows]
    refine h.unlessInternal fun hname => ?_
    rw [AttributeIndex.removeAttribute_eq h.sound]
    exact h.clear r id name
  | createRealm | updateRealm | removeRealm | createClient | updateClient | removeClient
  | removeClients => exact h.onlyIn (Operation.onlyIn_effect rfl drawn s) (by decide)

structure Durable (s : RowStore) : Prop extends Orderly s where
  lasting : LastingIn registry.tables s

theorem durable_empty (now : Int) : Durable (.empty now) where
  toOrderly := orderly_empty now
  lasting := RowStore.lastingIn_empty _ now

theorem Durable.later (h : Durable s) {now : Int} (hle : s.now ≤ now) : Durable { s with now } where
  toOrderly := h.toOrderly.later hle
  lasting := h.lasting

theorem Durable.reclaimed (h : Durable s) (hs : RowStore.Reclaimed s s') : Durable s' where
  toOrderly := h.toOrderly.reclaimed hs
  lasting := h.lasting.reclaimed hs

theorem Durable.effect (h : Durable s) {op : Operation} (hop : op.InPlainRealm) {drawn : String}
    (hdrawn : NulFree drawn) : Durable (op.effect drawn s).2 where
  toOrderly := h.toOrderly.effect hop hdrawn
  lasting :=
    have hwrites : Update.Writes (RowStore.durably registry.tables) (op.effect drawn) :=
      op.writes (Registry.writable_durably _ _) (Registry.writable_durably _ _)
        (Registry.writable_durably _ _) drawn
    h.lasting.wrote (hwrites.wrote s)

end Users

end IdentityDirectory
