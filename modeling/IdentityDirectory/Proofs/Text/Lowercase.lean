import IdentityDirectory.Proofs.Rows.Keys
import IdentityDirectory.Text.Lowercase

/-!
The lowercase form of a text brings in no U+0000, so that a value that can be indexed can still be
indexed in lowercase.
-/

namespace IdentityDirectory.Text

theorem toNat_ofNat_pos {n : Nat} (hpos : 0 < n) (hvalid : n.isValidChar) :
    0 < (Char.ofNat n).toNat := by
  rw [Char.ofNat, dif_pos hvalid]
  exact hpos

theorem lowercaseRuns_valid : ∀ run ∈ lowercaseRuns, 0 < run.first + run.shift ∧
    (run.last + run.shift < 0xD800 ∨
      0xDFFF < run.first + run.shift ∧ run.last + run.shift < 0x110000) := by
  decide +kernel

theorem toNat_toLower_pos {c : Char} (hc : 0 < c.toNat) : 0 < c.toLower.toNat := by
  delta Char.toLower
  split
  · next hupper =>
    show 0 < (c.val + 32).toNat
    have hlast : c.val.toNat ≤ 90 := hupper.2
    have hshift : (32 : UInt32).toNat = 32 := rfl
    rw [UInt32.toNat_add, hshift]
    omega
  · exact hc

theorem lowercaseChar_pos {c : Char} (hc : 0 < c.toNat) : ∀ d ∈ lowercaseChar c, 0 < d.toNat := by
  intro d hd
  rw [lowercaseChar] at hd
  split at hd
  · rw [List.mem_singleton.mp hd]
    exact toNat_toLower_pos hc
  split at hd
  · rcases List.mem_cons.mp hd with rfl | hd
    · decide
    · rw [List.mem_singleton.mp hd]
      decide
  split at hd
  · next run hrun =>
    rw [List.mem_singleton.mp hd]
    have hcovers := List.find?_some hrun
    simp only [CaseRun.covers, Bool.and_eq_true, decide_eq_true_eq] at hcovers
    obtain ⟨hpos, hrange⟩ := lowercaseRuns_valid run (List.mem_of_find?_eq_some hrun)
    apply toNat_ofNat_pos
    · omega
    · rcases hrange with hlow | ⟨hhigh, hlast⟩
      · exact .inl (by omega)
      · exact .inr ⟨by omega, by omega⟩
  · rw [List.mem_singleton.mp hd]
    exact hc

theorem lowercaseFrom_pos {cs : List Char} (before : List Char) (h : ∀ c ∈ cs, 0 < c.toNat) :
    ∀ d ∈ lowercaseFrom before cs, 0 < d.toNat := by
  induction cs generalizing before with
  | nil => simp [lowercaseFrom]
  | cons c cs ih =>
    intro d hd
    rw [lowercaseFrom, List.mem_append] at hd
    rcases hd with hd | hd
    · split at hd
      · rw [List.mem_singleton.mp hd]
        split <;> decide
      · exact lowercaseChar_pos (h c List.mem_cons_self) d hd
    · exact ih (c :: before) (fun c hc => h c (List.mem_cons_of_mem _ hc)) d hd

theorem nulFree_iff {s : String} : NulFree s ↔ ∀ c ∈ s.toList, 0 < c.toNat := by
  have hzero : ∀ c : Char, c.toNat = 0 ↔ c = RowKey.partitionEnd := by
    intro c
    rw [← Char.toNat_inj]
    rfl
  rw [NulFree]
  constructor
  · intro h c hc
    have hne : c ≠ RowKey.partitionEnd := fun heq => h (heq ▸ hc)
    exact Nat.pos_of_ne_zero fun h0 => hne ((hzero c).mp h0)
  · intro h hmem
    exact Nat.lt_irrefl 0 (h _ hmem)

theorem nulFree_lowercase {s : String} (h : NulFree s) : NulFree (lowercase s) := by
  rw [nulFree_iff] at h ⊢
  rw [lowercase, String.toList_ofList]
  exact lowercaseFrom_pos [] h

end IdentityDirectory.Text
