import IdentityDirectory.Proofs.Isolation.Reads
import IdentityDirectory.Proofs.Memory.Rules
import IdentityDirectory.Proofs.Registry.Footprint

/-!
Realms and clients with and without a memory of what was looked up. What is remembered of them is what
would be loaded now, since everything is forgotten before a change; so the answers are the same either
way, on any rows and for all strings. Main statements: `QueryCache.Faithful`, `Realms.Request.oblivious`
and `Clients.Request.oblivious`.
-/

namespace IdentityDirectory

open Work (Oblivious)

variable {α κ ν σ : Type} {s s' : RowStore}

namespace QueryCache

variable [BEq κ] {load : κ → Query ν} {c : QueryCache κ ν}

def Faithful (load : κ → Query ν) (s : RowStore) (c : QueryCache κ ν) : Prop :=
  ∀ key found, c.find? key = some found → load key s = .ok found

def Blank (c : QueryCache κ ν) : Prop := ∀ key, c.find? key = none

theorem blank_forget (c : QueryCache κ ν) : Blank c.forget := c.find?_forget

theorem blank_started (enabled : Bool) : Blank ({ enabled } : QueryCache κ ν) := by
  intro key
  rw [find?]
  split <;> rfl

theorem Blank.faithful (h : Blank c) (load : κ → Query ν) (s : RowStore) : Faithful load s c := by
  intro key found hfound
  rw [h key] at hfound
  cases hfound

theorem Faithful.remember [LawfulBEq κ] {key : κ} {found : ν} (h : Faithful load s c)
    (hload : load key s = .ok found) : Faithful load s (c.remember key found) := by
  intro key' found' hfound
  rcases of_find?_remember hfound with ⟨rfl, rfl⟩ | hold
  · exact hload
  · exact h key' found' hold

theorem Faithful.sameIn {tables : List Table} (h : Faithful load s c)
    (hreads : ∀ key, Query.ReadsOnly tables (load key)) (hs : RowStore.SameIn tables s s') :
    Faithful load s' c :=
  fun key found hfound => (hreads key s s' hs).trans (h key found hfound)

end QueryCache

open QueryCache (Blank Faithful)

theorem Work.Oblivious.faithful [BEq κ] [LawfulBEq κ] {p : Part σ (QueryCache κ ν)}
    {I : RowStore → σ → Prop} {blank : σ → Prop} {load : κ → Query ν}
    (hdisabled : ∀ c, blank c → (p.get c).enabled = false)
    (hfaithful : ∀ s c, I s c → (p.get c).Faithful load s)
    (hset : ∀ s c c', I s c → c'.Faithful load s → I s (p.set c' c)) (key : κ) :
    Oblivious I blank (Work.cached p key (load key)) :=
  .cached hdisabled (fun s c _ hI hload => hset s c _ hI ((hfaithful s c hI).remember hload))
    fun s c _ hI => hfaithful s c hI key _

namespace Realms

def answer : RealmLookup → Query (Option Realm)
  | .byId id => load id
  | .byName name => loadByName name

def Remembering (s : RowStore) (c : RealmCache) : Prop := c.Faithful answer s

def Disabled (c : RealmCache) : Prop := c.enabled = false

theorem reads_load (id : String) : Query.ReadsOnly registry.tables (load id) :=
  .record (by decide) _

theorem reads_answer (key : RealmLookup) : Query.ReadsOnly registry.tables (answer key) := by
  cases key with
  | byId id => exact reads_load id
  | byName name =>
    refine .bind (AttributeIndex.reads_findUnique (by decide) _ _ _) fun owner => ?_
    cases owner with
    | none => exact .pure none
    | some id => exact .bind (reads_load id) fun _ => .pure _

theorem oblivious_lookup (key : RealmLookup) :
    Oblivious Remembering Disabled (Work.cached whole key (answer key)) :=
  Oblivious.faithful (p := whole) (I := Remembering) (fun _ hc => hc) (fun _ _ hI => hI)
    (fun _ _ _ _ hc' => hc') key

theorem oblivious_forgetting {work : Work RealmCache α}
    (h : Oblivious (fun _ => Blank) Disabled work) :
    Oblivious Remembering Disabled (invalidate >>= fun _ => work) :=
  .forgetting (fun _ c _ => QueryCache.blank_forget c) (fun _ hc => hc)
    (fun s _ hblank => hblank.faithful answer s) h

theorem oblivious_update {u : Update α} :
    Oblivious (fun _ => Blank) Disabled (liftM u : Work RealmCache α) :=
  .update fun _ _ hblank => hblank

theorem Request.oblivious (request : Request α) :
    Oblivious Remembering Disabled request.perform := by
  cases request with
  | create id name =>
    have hinsert : ∀ id, Oblivious Remembering Disabled (do
        invalidate
        liftM (insert { id, name, enabled := true }) : Work RealmCache Realm) := fun id =>
      oblivious_forgetting oblivious_update
    cases id with
    | none => exact .bind Oblivious.newId hinsert
    | some id => exact hinsert id
  | findById id => exact oblivious_lookup (.byId id)
  | findByName name => exact oblivious_lookup (.byName name)
  | list => exact Oblivious.query _
  | update realm => exact oblivious_forgetting oblivious_update
  | remove id => exact oblivious_forgetting oblivious_update

end Realms

namespace Clients

def answer : ClientLookup → Query (Option Client)
  | .byId r id => load r id
  | .byClientId r clientId => loadByClientId r clientId

structure Remembering (s : RowStore) (c : ClientCache) : Prop where
  lookups : c.lookups.Faithful answer s
  lists : c.lists.Faithful loadAll s

structure Forgotten (c : ClientCache) : Prop where
  lookups : c.lookups.Blank
  lists : c.lists.Blank

def Disabled (c : ClientCache) : Prop := c.lookups.enabled = false ∧ c.lists.enabled = false

theorem Forgotten.remembering {c : ClientCache} (h : Forgotten c) (s : RowStore) :
    Remembering s c :=
  ⟨h.lookups.faithful answer s, h.lists.faithful loadAll s⟩

theorem reads_load (r id : String) : Query.ReadsOnly registry.tables (load r id) :=
  .record (by decide) _

theorem reads_answer (key : ClientLookup) : Query.ReadsOnly registry.tables (answer key) := by
  cases key with
  | byId r id => exact reads_load r id
  | byClientId r clientId =>
    refine .bind (AttributeIndex.reads_findUnique (by decide) _ _ _) fun owner => ?_
    cases owner with
    | none => exact .pure none
    | some id => exact .bind (reads_load r id) fun _ => .pure _

theorem reads_loadAll (r : String) : Query.ReadsOnly registry.tables (loadAll r) :=
  .bind (.records (by decide) r) fun _ => .pure _

theorem Remembering.sameIn {c : ClientCache} (h : Remembering s c)
    (hs : RowStore.SameIn registry.tables s s') : Remembering s' c :=
  ⟨h.lookups.sameIn reads_answer hs, h.lists.sameIn reads_loadAll hs⟩

theorem oblivious_lookup (key : ClientLookup) :
    Oblivious Remembering Disabled (Work.cached lookups key (answer key)) :=
  .faithful (fun _ hc => hc.1) (fun _ _ hI => hI.lookups) (fun _ _ _ hI hc' => ⟨hc', hI.lists⟩) key

theorem oblivious_all (r : String) : Oblivious Remembering Disabled (all r) :=
  .faithful (fun _ hc => hc.2) (fun _ _ hI => hI.lists) (fun _ _ _ hI hc' => ⟨hI.lookups, hc'⟩) r

theorem oblivious_forgetting {work : Work ClientCache α}
    (h : Oblivious (fun _ => Forgotten) Disabled work) :
    Oblivious Remembering Disabled (invalidate >>= fun _ => work) :=
  .forgetting (fun _ c _ => ⟨c.lookups.blank_forget, c.lists.blank_forget⟩) (fun _ hc => hc)
    (fun s _ hI => hI.remembering s) h

theorem oblivious_update {u : Update α} :
    Oblivious (fun _ => Forgotten) Disabled (liftM u : Work ClientCache α) :=
  .update fun _ _ hI => hI

theorem Request.oblivious {r : String} (request : Request r α) :
    Oblivious Remembering Disabled request.perform := by
  cases request with
  | create clientId =>
    exact oblivious_forgetting (.bind Oblivious.newId fun _ => oblivious_update)
  | findById id => exact oblivious_lookup (.byId r id)
  | findByClientId clientId => exact oblivious_lookup (.byClientId r clientId)
  | list page => exact .bind (oblivious_all r) fun _ => .pure _
  | search fragment page => exact .bind (oblivious_all r) fun _ => .pure _
  | count => exact .bind (oblivious_all r) fun _ => .pure _
  | update client h => exact oblivious_forgetting oblivious_update
  | remove id => exact oblivious_forgetting oblivious_update
  | removeAll => exact oblivious_forgetting oblivious_update

end Clients

end IdentityDirectory
