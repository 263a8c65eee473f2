import IdentityDirectory.Client.Repository
import IdentityDirectory.Proofs.Registry.Listing
import IdentityDirectory.Proofs.Registry.Storing
import IdentityDirectory.Realm.Repository

/-!
Realms and clients, each of which goes by one name. Main statements: one lemma for each change of
rows, by which it keeps the registry and is refused exactly if another record has the name.
-/

namespace IdentityDirectory

open Registry (Always)

variable {s : RowStore}

namespace Realms

def registry : Registry Realm where
  table := .realms
  index := .realms
  Scope r := r = scope
  key _ id := key id
  idOf := Realm.id
  fields := [nameAttribute]
  field _ realm := some realm.name
  scope_plain := by
    rintro _ rfl
    decide
  key_inj := by
    rintro _ _ id id' rfl rfl
    have happend : (key id).encode = (key id').encode ↔ id = id' := by
      rw [← String.toList_inj, RowKey.toList_encode, RowKey.toList_encode]
      simp [key, RowKey.single, String.toList_inj]
    simp [happend]
  table_ne := by decide
  fields_internal := by decide

theorem load_eq (h : registry.Kept Always s) (id : String) :
    load id s = .ok (registry.record s scope id s.now) :=
  Registry.record_eq h scope id

theorem holdsName_eq (hs : s.Holds Realm .realms) (name owner : String) :
    holdsName name owner s =
      .ok ((registry.record s scope owner s.now).any fun realm => some realm.name = some name) := by
  rw [holdsName, Query.bind_of_ok (show load owner s = _ from Query.record_eq hs _)]
  simp only [Option.some.injEq]
  rfl

theorem row_eq (h : registry.Kept Always s) (id : String) :
    Query.row .realms (key id) s =
      .ok ((s.rowAt .realms (key id).encode).filter (·.isLive s.now)) :=
  Query.row_eq h.holds.readable _

theorem isSome_row_iff (h : registry.Kept Always s) (id : String) :
    ((s.rowAt .realms (key id).encode).filter (·.isLive s.now)).isSome =
      (registry.record s scope id s.now).isSome := by
  have hseen : s.seen .realms (key id).encode s.now = _ := h.holds.seen_eq (key id) s.now
  rw [RowStore.seen] at hseen
  have hsome := congrArg Option.isSome hseen
  rwa [Option.isSome_map, Option.isSome_map] at hsome

theorem listing (h : registry.Kept Always s) :
    registry.Listing s scope (s.recordsOf Realm .realms) := by
  have hkey : ∀ k : RowKey, ∀ realm, s.recordAt Realm .realms k s.now = some realm →
      ∃ id, k.encode = (key id).encode ∧ registry.record s scope id s.now = some realm := by
    intro k realm hrealm
    obtain ⟨p, hp, ha⟩ := Option.bind_eq_some_iff.mp hrealm
    obtain ⟨row, hrow, -, -⟩ := RowStore.seen_eq_some_iff.mp hp
    obtain ⟨r, id, -, hencode⟩ := h.keyed k.encode row hrow
    have hencode : k.encode = (key id).encode := hencode
    refine ⟨id, hencode, ?_⟩
    rw [Registry.record, RowStore.recordAt]
    rw [hencode] at hp
    exact Option.bind_eq_some_iff.mpr ⟨p, hp, ha⟩
  constructor
  · intro realm
    rw [RowStore.mem_recordsOf_iff]
    constructor
    · rintro ⟨k, -, hrealm⟩
      obtain ⟨id, -, hrecord⟩ := hkey k realm hrealm
      exact ⟨id, hrecord⟩
    · rintro ⟨id, hrecord⟩
      exact ⟨key id, (h.placed scope id realm rfl hrecord).2, hrecord⟩
  · apply RowStore.pairwise_recordsOf
    intro k k' realm realm' hne hrealm hrealm'
    obtain ⟨id, hencode, hrecord⟩ := hkey k realm hrealm
    obtain ⟨id', hencode', hrecord'⟩ := hkey k' realm' hrealm'
    rw [(h.placed scope id realm rfl hrecord).1, (h.placed scope id' realm' rfl hrecord').1]
    rintro rfl
    exact hne (hencode.trans hencode'.symm)

section Changes

variable {realm : Realm} (h : registry.Kept Always s) (hid : NulFree realm.id)
  (hname : NulFree realm.name)
include h hid hname

theorem claimName_eq (hfree : ¬ registry.Taken s scope realm.id nameAttribute realm.name) :
    ∃ s₁ s₂, claimName realm.id realm.name s = (.ok (), s₁) ∧
      registry.Pending Always s s₁ scope realm.id (fun n v => n = nameAttribute ∧ v = realm.name) ∧
      commitName realm.id realm.name
        (s₁.write .realms (key realm.id).encode (Storable.payload realm) none) = (.ok (), s₂) ∧
      registry.Moved Always s s₂ := by
  apply h.claimed_write (R := registry) rfl hid (by decide) hname rfl rfl
  · intro n hn hne
    exact absurd (List.mem_singleton.mp hn) hne
  · exact holdsName_eq h.holds realm.name
  · exact hfree

theorem claimName_refused (htaken : registry.Taken s scope realm.id nameAttribute realm.name) :
    claimName realm.id realm.name s = (.error (.duplicateKey .realm realm.name), s) := by
  apply (((h.pending scope realm.id).claim_eq rfl hid _ hname .realm _).1 htaken)
  · decide
  · exact holdsName_eq h.holds realm.name

theorem insert_spec :
    registry.Moved Always s (insert realm s).2 ∧
      Answers (fun kind value =>
        kind = .realmId ∧ value = realm.id ∧ (registry.record s scope realm.id s.now).isSome ∨
        kind = .realm ∧ value = realm.name ∧
          registry.Taken s scope realm.id nameAttribute realm.name) (insert realm s).1 := by
  have hrow := isSome_row_iff h realm.id
  rw [insert, Update.bind_liftM_of_ok (row_eq h realm.id), hrow]
  cases hrecord : registry.record s scope realm.id s.now with
  | some a => exact ⟨h.moved, _, _, rfl, .inl ⟨rfl, rfl, rfl⟩⟩
  | none =>
    rw [hrecord, Option.isSome_none, Option.isSome_eq_false_iff, Option.isNone_iff_eq_none] at hrow
    rw [if_neg (by simp)]
    dsimp only
    by_cases htaken : registry.Taken s scope realm.id nameAttribute realm.name
    · rw [Update.bind_of_error (claimName_refused h hid hname htaken)]
      exact ⟨h.moved, _, _, rfl, .inr ⟨rfl, rfl, htaken⟩⟩
    · obtain ⟨s₁, s₂, hclaim, hpending, hcommit, hmoved⟩ := claimName_eq h hid hname htaken
      have habsent : (s₁.rowAt .realms (key realm.id).encode).filter (·.isLive s₁.now) = none := by
        rw [hpending.now, RowStore.rowAt_congr (hpending.table .realms (by decide))]
        exact hrow
      have hreadable : s₁.Readable .realms := hpending.holds.readable
      rw [Update.bind_of_ok hclaim,
        Update.bind_of_ok (Update.putIfAbsent_eq _ hreadable realm none habsent)]
      rw [if_pos rfl, Update.bind_of_ok hcommit]
      refine ⟨hmoved, ?_⟩
      rintro kind value (⟨-, -, hsome⟩ | ⟨-, -, htaken'⟩)
      · cases hsome
      · exact htaken htaken'

theorem replace_spec :
    registry.Moved Always s (replace realm s).2 ∧
      Answers (fun kind value => kind = .realm ∧ value = realm.name ∧
        (registry.record s scope realm.id s.now).isSome ∧
          registry.Taken s scope realm.id nameAttribute realm.name) (replace realm s).1 := by
  rw [replace, Update.bind_liftM_of_ok (load_eq h realm.id)]
  cases hrecord : registry.record s scope realm.id s.now with
  | none =>
    refine ⟨h.moved, ?_⟩
    rintro kind value ⟨-, -, hsome, -⟩
    cases hsome
  | some previous =>
    have hcurrent : registry.current s scope realm.id nameAttribute = some previous.name := by
      rw [Registry.current, hrecord]
      rfl
    dsimp only
    by_cases hsame : previous.name = realm.name
    · have hreadable : s.Readable .realms := h.holds.readable
      rw [if_pos hsame, Update.bind_of_ok (Update.put_eq _ hreadable realm none)]
      refine ⟨?_, ?_⟩
      · apply h.plain_write (R := registry) rfl hid rfl
        intro n hn
        obtain rfl := List.mem_singleton.mp hn
        rw [hcurrent, hsame]
        rfl
      · rintro kind value ⟨-, -, -, htaken⟩
        exact h.unique scope realm.id nameAttribute previous _ rfl trivial (by decide) hrecord
          (congrArg some hsame) htaken
    · rw [if_neg hsame]
      by_cases htaken : registry.Taken s scope realm.id nameAttribute realm.name
      · rw [Update.bind_of_error (claimName_refused h hid hname htaken)]
        exact ⟨h.moved, _, _, rfl, rfl, rfl, rfl, htaken⟩
      · obtain ⟨s₁, s₂, hclaim, hpending, hcommit, hmoved⟩ := claimName_eq h hid hname htaken
        have hreadable : s₁.Readable .realms := hpending.holds.readable
        rw [Update.bind_of_ok hclaim, Update.bind_of_ok (Update.put_eq _ hreadable realm none),
          Update.bind_of_ok hcommit]
        refine ⟨hmoved, ?_⟩
        rintro kind value ⟨-, -, -, htaken'⟩
        exact htaken htaken'

end Changes

theorem delete_spec (h : registry.Kept Always s) (id : String) :
    ∃ removed s', delete id s = (.ok removed, s') ∧ registry.Moved Always s s' := by
  obtain ⟨removed, heq⟩ := Registry.erase_eq h.holds h.regular.sound scope id
  exact ⟨removed, _, heq, h.erase rfl id⟩

end Realms

namespace Clients

def registry : Registry Client where
  table := .clients
  index := .clients
  Scope := Plain
  key := key
  idOf := Client.id
  fields := [clientIdAttribute]
  field _ client := some client.clientId
  scope_plain _ := id
  key_inj r r' id id' hr hr' := by
    rw [RowKey.encode_inj (k := key r id) hr.1 hr'.1, key, key, RowKey.mk.injEq]
  table_ne := by decide
  fields_internal := by decide

theorem load_eq (h : registry.Kept Always s) (r id : String) :
    load r id s = .ok (registry.record s r id s.now) :=
  Registry.record_eq h r id

theorem holdsClientId_eq (hs : s.Holds Client .clients) (client : Client) (owner : String) :
    holdsClientId client owner s = .ok ((registry.record s client.realmId owner s.now).any
      fun c => some c.clientId = some client.clientId) := by
  rw [holdsClientId,
    Query.bind_of_ok (show load client.realmId owner s = _ from Query.record_eq hs _)]
  simp only [Option.some.injEq]
  rfl

section Changes

variable {client : Client} (h : registry.Kept Always s) (hr : Plain client.realmId)
  (hid : NulFree client.id) (hname : NulFree client.clientId)
include h hr hid hname

theorem claimClientId_refused
    (htaken : registry.Taken s client.realmId client.id clientIdAttribute client.clientId) :
    claimClientId client s = (.error (.duplicateKey .client client.clientId), s) :=
  ((h.pending client.realmId client.id).claim_eq hr hid (by decide) hname .client
    (holdsClientId_eq h.holds client)).1 htaken

theorem claimed_spec {β : Type} (b : β) :
    registry.Moved Always s
        ((do claimClientId client; putClaimed client; commitClientId client; return b :
          Update β) s).2 ∧
      Answers (fun kind value => kind = .client ∧ value = client.clientId ∧
        registry.Taken s client.realmId client.id clientIdAttribute client.clientId)
        ((do claimClientId client; putClaimed client; commitClientId client; return b :
          Update β) s).1 := by
  have hholds := holdsClientId_eq h.holds client
  by_cases htaken : registry.Taken s client.realmId client.id clientIdAttribute client.clientId
  · rw [Update.bind_of_error (claimClientId_refused h hr hid hname htaken)]
    exact ⟨h.moved, _, _, rfl, rfl, rfl, htaken⟩
  · obtain ⟨s₁, s₂, hclaim, hpending, hcommit, hmoved⟩ := h.claimed_write (R := registry) hr hid
      (List.mem_singleton_self clientIdAttribute) hname rfl rfl
      (fun n hn hne => absurd (List.mem_singleton.mp hn) hne) .client hholds htaken
    have hclaim : claimClientId client s = (.ok (), s₁) := hclaim
    have hput : put client s₁ = _ := hpending.put_eq client
    have hcommit : commitClientId client _ = (.ok (), s₂) := hcommit
    rw [Update.bind_of_ok hclaim, putClaimed, Update.bind_of_ok (Update.tryCatch_of_ok hput _),
      Update.bind_of_ok hcommit]
    refine ⟨hmoved, ?_⟩
    rintro kind value ⟨-, -, htaken'⟩
    exact htaken htaken'

theorem insert_spec :
    registry.Moved Always s (insert client s).2 ∧
      Answers (fun kind value => kind = .client ∧ value = client.clientId ∧
        registry.Taken s client.realmId client.id clientIdAttribute client.clientId)
        (insert client s).1 :=
  claimed_spec h hr hid hname client

omit hid in
theorem replace_spec :
    registry.Moved Always s (replace client s).2 ∧
      Answers (fun kind value => kind = .client ∧ value = client.clientId ∧
        (registry.record s client.realmId client.id s.now).isSome ∧
          registry.Taken s client.realmId client.id clientIdAttribute client.clientId)
        (replace client s).1 := by
  rw [replace, Update.bind_liftM_of_ok (load_eq h client.realmId client.id)]
  cases hrecord : registry.record s client.realmId client.id s.now with
  | none =>
    refine ⟨h.moved, ?_⟩
    rintro kind value ⟨-, -, hsome, -⟩
    cases hsome
  | some previous =>
    have hid := (h.placed client.realmId client.id previous hr hrecord).2
    dsimp only
    by_cases hsame : previous.clientId = client.clientId
    · have hput : put client s = _ := (h.pending client.realmId client.id).put_eq client
      rw [if_pos hsame, Update.bind_of_ok hput]
      refine ⟨?_, ?_⟩
      · apply h.plain_write (R := registry) hr hid rfl
        intro n hn
        rw [Registry.current, hrecord]
        exact congrArg some hsame.symm
      · rintro kind value ⟨-, -, -, htaken⟩
        exact h.unique client.realmId client.id clientIdAttribute previous _ hr trivial
          (by decide) hrecord (congrArg some hsame) htaken
    · obtain ⟨hmoved, hanswers⟩ := claimed_spec h hr hid hname true
      rw [if_neg hsame]
      refine ⟨hmoved, ?_⟩
      simp only [Option.isSome_some, true_and]
      exact hanswers

end Changes

theorem delete_spec (h : registry.Kept Always s) {r : String} (hr : Plain r) (id : String) :
    ∃ removed s', delete r id s = (.ok removed, s') ∧ registry.Moved Always s s' := by
  obtain ⟨removed, heq⟩ := Registry.erase_eq h.holds h.regular.sound r id
  exact ⟨removed, _, heq, h.erase hr id⟩

theorem deleteAll_spec (h : registry.Kept Always s) {r : String} (hr : Plain r) :
    ∃ n s', deleteAll r s = (.ok n, s') ∧ registry.Moved Always s s' :=
  ⟨_, _, Registry.eraseAll_eq h.holds h.regular.sound r, h.eraseAll (fun _ _ _ => rfl) hr⟩

end Clients

end IdentityDirectory
