import IdentityDirectory.Proofs.Directory.Standalone
import IdentityDirectory.Proofs.Registry.Upkeep
import IdentityDirectory.Proofs.Session.Backing

/-!
Everything that can be asked of units of work, in any order. Main statements: every valid operation
keeps the rows `Consistent` (`Consistent.perform`), and so does a whole run (`Consistent.run`).
-/

namespace IdentityDirectory.Directory

open Registries (Tends registryTables drawn)
open UserSessions (sessionTables Steady)
open UnitOfWork (rolesPart)

variable {α σ : Type} {s s' : RowStore} {r id : String}

/-- No index row without its record or its session, and all rows readable. -/
structure Consistent (s : RowStore) : Prop where
  indexed : UserSessions.Indexed s
  backed : UserSessions.Backed s
  tended : Registries.Tended s
  readable : ∀ t ∈ standaloneTables, s.Readable t

theorem consistent_empty (now : Int) : Consistent (.empty now) where
  indexed := UserSessions.indexed_empty now
  backed := AttributeIndex.backed_empty _ now _ _
  tended := Registries.tended_empty now
  readable t _ := RowStore.readable_empty now t

theorem Consistent.sweep (h : Consistent s) : Consistent s.sweep.2 where
  indexed := h.indexed.sweep
  backed := h.backed.reclaimed s.reclaimed_sweep
  tended := h.tended.sweep
  readable t ht := (h.readable t ht).sweep

theorem Consistent.later (h : Consistent s) {now : Int} (hle : s.now ≤ now) :
    Consistent { s with now } where
  indexed := h.indexed.later hle
  backed := h.backed.later hle
  tended := h.tended.later hle
  readable t ht := (RowStore.readable_congr (s := s) rfl).mpr (h.readable t ht)

theorem Consistent.tends (h : Consistent s) (ht : Tends s s') : Consistent s' := by
  constructor
  · exact h.indexed.elsewhere ht.onlyIn (by decide)
  · exact h.backed.congr_tables (ht.onlyIn.table _ (by decide)) (ht.onlyIn.table _ (by decide))
      ht.onlyIn.now
  · exact ht.tended
  · intro t hmem
    have hnot : t ∉ registryTables := (by decide : ∀ t ∈ standaloneTables, t ∉ registryTables) t hmem
    exact (RowStore.readable_congr (ht.onlyIn.table t hnot)).mpr (h.readable t hmem)

theorem Consistent.wrote (h : Consistent s) (hw : RowStore.Wrote standalone s s') : Consistent s' := by
  have honly := onlyIn_standalone hw
  constructor
  · exact h.indexed.elsewhere honly (by decide)
  · exact h.backed.congr_tables (honly.table _ (by decide)) (honly.table _ (by decide)) honly.now
  · exact h.tended.elsewhere honly (by decide)
  · exact fun t hmem => readable_standalone hw (h.readable t hmem)

theorem steady_consistent : Steady Consistent fun _ => True := by
  have hsplit : Consistent = fun s => (UserSessions.Indexed s ∧ UserSessions.Backed s) ∧
      Registries.Tended s ∧ ∀ t ∈ standaloneTables, s.Readable t := by
    funext s
    exact propext ⟨fun h => ⟨⟨h.indexed, h.backed⟩, h.tended, h.readable⟩,
      fun h => ⟨h.1.1, h.1.2, h.2.1, h.2.2⟩⟩
  rw [hsplit]
  refine UserSessions.steady_backed fun s s' h hc => ⟨?_, fun t hmem => ?_⟩
  · exact h.1.elsewhere hc (by decide)
  · have hnot : t ∉ sessionTables := (by decide : ∀ t ∈ standaloneTables, t ∉ sessionTables) t hmem
    exact (RowStore.readable_congr (hc.table t hnot)).mpr (h.2 t hmem)

theorem keeps_standalone {work : Work σ α} (h : WritesStandalone work) :
    Work.Keeps Consistent work fun _ => True :=
  fun d hd => ⟨hd.wrote (h.wrote d), fun _ _ => trivial⟩

theorem keeps_tends {u : Update α} (h : ∀ s, Registries.Tended s → Tends s (u s).2) :
    Work.Keeps Consistent (liftM u : Work σ α) fun _ => True :=
  .update fun s hs => ⟨hs.tends (h s hs.tended), fun _ _ => trivial⟩

theorem keeps_removeUsers (hr : Plain r) : Work.Keeps Consistent (Users.removeAll r) fun _ => True :=
  .bind (.modifyHeld _) fun _ _ => keeps_tends fun _ hs => hs.deleteUsers hr

theorem keeps_removeClients (hr : Plain r) :
    Work.Keeps Consistent (Clients.removeAll r) fun _ => True :=
  .bind (.modifyHeld _) fun _ _ => keeps_tends fun _ hs => hs.deleteClients hr

theorem keeps_removeRealmRecord (id : String) :
    Work.Keeps Consistent (Realms.remove id) fun _ => True :=
  .bind (.modifyHeld _) fun _ _ => keeps_tends fun _ hs => hs.deleteRealm id

theorem keeps_removeSessions (hr : Plain r) :
    Work.Keeps Consistent (UserSessions.removeAll r) fun _ => True :=
  UserSessions.keeps_removeAll steady_consistent hr fun _ => trivial

theorem keeps_deleteContainer (k : ContainerKind) (r : String) :
    Work.Keeps Consistent (Work.on (UnitOfWork.part k) (Coordinator.delete r)) fun _ => True :=
  keeps_standalone ((Coordinator.Request.delete (k := k)).standalone r |>.on _)

theorem keeps_removeRealm (hr : Plain r) :
    Work.Keeps Consistent (UnitOfWork.removeRealm r) fun _ => True := by
  have hpartition : ∀ t ∈ standaloneTables, Work.Keeps Consistent
      (liftM (Update.deletePartition t r) : Work UnitOfWork Nat) fun _ => True :=
    fun t ht => keeps_standalone (Work.writes_update (standalone_deletePartition ht r))
  refine .bind (keeps_standalone ((Work.writes_cached _ _ _).on _)) fun found _ => ?_
  cases found with
  | none => exact .pure trivial
  | some realm =>
    refine .bind (keeps_removeSessions hr).on fun _ _ => ?_
    refine .bind (hpartition .authSessions (by decide)) fun _ _ => ?_
    refine .bind (hpartition .loginFailures (by decide)) fun _ _ => ?_
    refine .bind (keeps_removeUsers hr).on fun _ _ => ?_
    refine .bind (keeps_removeClients hr).on fun _ _ => ?_
    refine .bind (keeps_deleteContainer .roles r) fun _ _ => ?_
    refine .bind (keeps_deleteContainer .groups r) fun _ _ => ?_
    refine .bind (keeps_deleteContainer .clientScopes r) fun _ _ => ?_
    exact .bind (keeps_removeRealmRecord r).on fun _ _ => .pure trivial

theorem keeps_removeClient {realm : Realm} (hr : Plain realm.id) (id : String) :
    Work.Keeps Consistent (UnitOfWork.removeClient realm id) fun _ => True := by
  refine .bind (keeps_standalone ((Work.writes_cached _ _ _).on _)) fun found _ => ?_
  cases found with
  | none => exact .pure trivial
  | some client =>
    refine .bind (keeps_standalone ?_) fun _ _ => ?_
    · exact ((Coordinator.Editing.update realm.id _).writes (k := .roles)).on rolesPart
    have hdetached :
        Work.Keeps Consistent (UserSessions.detachClientEverywhere realm id) fun _ => True :=
      UserSessions.keeps_detachEverywhere steady_consistent hr (fun _ => trivial) id
    have hrecord : Work.Keeps Consistent (Clients.remove realm.id id) fun _ => True :=
      .bind (.modifyHeld _) fun _ _ => keeps_tends fun _ hs => hs.deleteClient hr id
    exact .bind hdetached.on fun _ _ => hrecord.on

theorem keeps_removeUser (hr : Plain r) (hid : NulFree id) :
    Work.Keeps Consistent (UnitOfWork.removeUser r id) fun _ => True := by
  have hsessions : Work.Keeps Consistent (UserSessions.removeByUser r id) fun _ => True :=
    UserSessions.keeps_removeByUser steady_consistent hr (fun _ => trivial) id
  refine .bind hsessions.on fun _ _ => ?_
  have hfailure := (LoginFailures.Request.remove id).standalone r
  refine .bind (keeps_standalone (Work.writes_update hfailure)) fun _ _ => ?_
  have hrecord : Work.Keeps Consistent (Users.remove r id) fun _ => True :=
    .bind (.modifyHeld _) fun _ _ => keeps_tends fun _ hs => hs.deleteUser hr hid
  exact hrecord.on

inductive Operation where
  | registry (op : Registries.Operation)
  | session (op : UserSessions.Operation)
  | removeRealm (id : String)
  | removeClient (realm : Realm) (id : String)
  | removeUser (realmId id : String)
  | standalone (work : Work UnitOfWork Unit) (h : WritesStandalone work)

namespace Operation

def ofStandalone {work : Work UnitOfWork α} (h : WritesStandalone work) : Operation :=
  .standalone (Functor.discard work) (.discard h)

def perform : Operation → Work UnitOfWork Unit
  | registry op => op.perform
  | session op => op.perform
  | removeRealm id => discard (UnitOfWork.removeRealm id)
  | removeClient realm id => discard (UnitOfWork.removeClient realm id)
  | removeUser realmId id => discard (UnitOfWork.removeUser realmId id)
  | standalone work _ => work

/-- Keys can be told apart, values can be indexed, and a drawn identifier is new. -/
def Valid (s : RowStore) (drawn : String) : Operation → Prop
  | registry op => op.Valid s drawn ∧ op.Addressed
  | session op => op.WellFormed
  | removeRealm id => Plain id
  | removeClient realm _ => Plain realm.id
  | removeUser realmId id => Plain realmId ∧ NulFree id
  | standalone .. => True

instance (s : RowStore) (drawn : String) : (op : Operation) → Decidable (op.Valid s drawn)
  | registry _ | removeUser .. => inferInstanceAs (Decidable (_ ∧ _))
  | session op => inferInstanceAs (Decidable op.WellFormed)
  | removeRealm _ | removeClient .. => inferInstanceAs (Decidable (Plain _))
  | standalone .. => inferInstanceAs (Decidable True)

end Operation

theorem Consistent.perform {d : Desk UnitOfWork} (h : Consistent d.rows) {op : Operation}
    (hv : op.Valid d.rows (Identifier.hyphenated (d.draws.value d.draws.next))) :
    Consistent (op.perform d).2.rows := by
  cases op with
  | registry op =>
    have hacts : (_, (op.perform d).2.rows) = op.effect _ d.rows := op.acts_effect d
    have htends := h.tended.effect (Identifier.hyphenated_plain _).1 hv.1 hv.2
    rw [← hacts] at htends
    exact h.tends htends
  | session op => exact (op.keeps steady_consistent hv (fun _ _ => trivial) d h).1
  | removeRealm id => exact ((keeps_removeRealm hv).discard d h).1
  | removeClient realm id => exact ((keeps_removeClient hv id).discard d h).1
  | removeUser realmId id => exact ((keeps_removeUser hv.1 hv.2).discard d h).1
  | standalone work hstandalone => exact (keeps_standalone hstandalone d h).1

def Proper (w : World) : List (World.Event Operation) → Prop
  | [] => True
  | e :: events => e.Forall (·.Valid w.rows (drawn w)) ∧ Proper (w.step Operation.perform e) events

instance decidableProper (w : World) :
    (events : List (World.Event Operation)) → Decidable (Proper w events)
  | [] => inferInstanceAs (Decidable True)
  | e :: events =>
    have : Decidable (Proper (w.step Operation.perform e) events) := decidableProper _ events
    inferInstanceAs (Decidable (_ ∧ _))

theorem Consistent.run {w : World} (h : Consistent w.rows) {events : List (World.Event Operation)}
    (hv : Proper w events) : Consistent (w.run Operation.perform events).rows := by
  induction events generalizing w with
  | nil => exact h
  | cons e events ih =>
    obtain ⟨hvalid, hrest⟩ := hv
    have hnext : Consistent (w.step Operation.perform e).rows := by
      cases e with
      | start unit => exact h
      | call unit op => exact Consistent.perform (d := w.desk unit) h hvalid
      | sweep => exact h.sweep
      | advance millis => exact h.later (by omega)
    exact ih hnext hrest

end IdentityDirectory.Directory
