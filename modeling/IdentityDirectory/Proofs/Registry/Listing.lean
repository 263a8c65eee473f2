import IdentityDirectory.Proofs.Registry.Removal

/-!
What a listing of the records of a scope tells: which values are taken, and that no two of them have
the same one.
-/

namespace IdentityDirectory.Registry

variable {α : Type} [Storable α] {R : Registry α} {s : RowStore} {r id name value : String}
  {U : String → String → Prop} {l : List α} {a : α}

structure Listing (R : Registry α) (s : RowStore) (r : String) (l : List α) : Prop where
  mem_iff : ∀ a, a ∈ l ↔ ∃ id, R.record s r id s.now = some a
  apart : l.Pairwise fun a b => R.idOf a ≠ R.idOf b

theorem listing_recordsIn (hkey : ∀ r id, R.Scope r → R.key r id = ⟨r, id⟩) (h : R.Kept U s)
    (hr : R.Scope r) : R.Listing s r (s.recordsIn α R.table r) where
  mem_iff _ := mem_recordsIn_iff hkey hr
  apart := by
    apply RowStore.pairwise_recordsIn (R.scope_plain r hr).1
    intro c c' a b hne ha hb
    rw [← hkey r c hr] at ha
    rw [← hkey r c' hr] at hb
    rw [(h.placed r c a hr ha).1, (h.placed r c' b hr hb).1]
    exact hne

section Listed

variable (hl : R.Listing s r l) (h : R.Kept U s) (hr : R.Scope r)
include hl h hr

theorem Listing.record_iff : R.record s r id s.now = some a ↔ a ∈ l ∧ R.idOf a = id := by
  rw [hl.mem_iff]
  constructor
  · intro ha
    exact ⟨⟨id, ha⟩, (h.placed r id a hr ha).1⟩
  · rintro ⟨⟨id', ha⟩, hid⟩
    obtain rfl := (h.placed r id' a hr ha).1.symm.trans hid
    exact ha

theorem Listing.isSome_iff : (R.record s r id s.now).isSome ↔ ∃ a ∈ l, R.idOf a = id := by
  rw [Option.isSome_iff_exists]
  exact exists_congr fun _ => hl.record_iff h hr

theorem Listing.taken_iff : R.Taken s r id name value ↔
    ∃ other ∈ l, R.idOf other ≠ id ∧ R.field name other = some value := by
  constructor
  · rintro ⟨id', other, hne, hsome, hfield⟩
    obtain ⟨hmem, rfl⟩ := (hl.record_iff h hr).mp hsome
    exact ⟨other, hmem, hne, hfield⟩
  · rintro ⟨other, hmem, hne, hfield⟩
    exact ⟨R.idOf other, other, hne, (hl.record_iff h hr).mpr ⟨hmem, rfl⟩, hfield⟩

theorem Listing.unique (hu : U r name) (hn : name ∈ R.fields) :
    l.Pairwise fun a b => ∀ v, R.field name a = some v → R.field name b ≠ some v := by
  refine hl.apart.imp_of_mem fun {a b} ha hb hne v hv hv' => ?_
  have hrecord := (hl.record_iff h hr).mpr ⟨ha, rfl⟩
  apply h.unique r _ name a v hr hu hn hrecord hv
  rw [hl.taken_iff h hr]
  exact ⟨b, hb, hne.symm, hv'⟩

end Listed

end IdentityDirectory.Registry
