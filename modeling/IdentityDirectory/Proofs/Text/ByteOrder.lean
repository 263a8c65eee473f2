/-!
Texts are compared by their code points, and what is stored is kept in the order of its bytes. Main
statement: `bytes_lt_iff`, that the two orders are the same.
-/

namespace IdentityDirectory.Text

open String (utf8EncodeChar)

def bytes (s : String) : List UInt8 := s.toUTF8.data.toList

theorem bytes_eq (s : String) : bytes s = s.toList.flatMap utf8EncodeChar := by
  rw [bytes, String.toUTF8_eq_toByteArray, ← String.utf8Encode_toList, List.utf8Encode,
    List.data_toByteArray]

theorem toNat_val_lt (c : Char) : c.val.toNat < 0x110000 := by
  rcases c.valid with h | ⟨-, h⟩
  · exact Nat.lt_trans h (by decide)
  · exact h

theorem cons_ofNat_lt {a b : Nat} {x y : List UInt8} (ha : a < 256) (hb : b < 256) (hle : a ≤ b)
    (h : a = b → x < y) : UInt8.ofNat a :: x < UInt8.ofNat b :: y := by
  rw [List.cons_lt_cons_iff, UInt8.lt_iff_toNat_lt, ← UInt8.toNat_inj, UInt8.toNat_ofNat',
    UInt8.toNat_ofNat', Nat.mod_eq_of_lt ha, Nat.mod_eq_of_lt hb]
  rcases Nat.lt_or_eq_of_le hle with hlt | heq
  · exact .inl hlt
  · exact .inr ⟨heq, h heq⟩

theorem utf8EncodeChar_append_lt {c d : Char} (h : c < d) (x y : List UInt8) :
    utf8EncodeChar c ++ x < utf8EncodeChar d ++ y := by
  -- The first byte of a longer encoding is the larger one, and in encodings of one length the
  -- bytes are digits of the code point.
  have hlt : c.val.toNat < d.val.toNat := UInt32.lt_iff_toNat_lt.mp h
  have hmax := toNat_val_lt d
  unfold utf8EncodeChar
  generalize c.val.toNat = v at *
  generalize d.val.toNat = w at *
  simp only
  split
  · split
    · exact cons_ofNat_lt (by omega) (by omega) (by omega) (by omega)
    · split
      · exact cons_ofNat_lt (by omega) (by omega) (by omega) (by omega)
      · split <;> exact cons_ofNat_lt (by omega) (by omega) (by omega) (by omega)
  · rw [if_neg (by omega : ¬ w ≤ 0x7f)]
    split
    · split
      · refine cons_ofNat_lt (by omega) (by omega) (by omega) fun hfirst => ?_
        exact cons_ofNat_lt (by omega) (by omega) (by omega) (by omega)
      · split <;> exact cons_ofNat_lt (by omega) (by omega) (by omega) (by omega)
    · rw [if_neg (by omega : ¬ w ≤ 0x7ff)]
      split
      · split
        · refine cons_ofNat_lt (by omega) (by omega) (by omega) fun hfirst => ?_
          refine cons_ofNat_lt (by omega) (by omega) (by omega) fun hsecond => ?_
          exact cons_ofNat_lt (by omega) (by omega) (by omega) (by omega)
        · exact cons_ofNat_lt (by omega) (by omega) (by omega) (by omega)
      · rw [if_neg (by omega : ¬ w ≤ 0xffff)]
        refine cons_ofNat_lt (by omega) (by omega) (by omega) fun hfirst => ?_
        refine cons_ofNat_lt (by omega) (by omega) (by omega) fun hsecond => ?_
        refine cons_ofNat_lt (by omega) (by omega) (by omega) fun hthird => ?_
        exact cons_ofNat_lt (by omega) (by omega) (by omega) (by omega)

theorem flatMap_utf8EncodeChar_lt {l m : List Char} (h : l < m) :
    l.flatMap utf8EncodeChar < m.flatMap utf8EncodeChar := by
  induction l generalizing m with
  | nil =>
    cases m with
    | nil => exact absurd h (List.lt_irrefl [])
    | cons d m =>
      rw [List.flatMap_nil, List.flatMap_cons]
      cases hd : utf8EncodeChar d with
      | nil => exact absurd hd String.utf8EncodeChar_ne_nil
      | cons b rest => exact List.nil_lt_cons _ _
  | cons c l ih =>
    cases m with
    | nil => exact absurd h (List.not_lt_nil _)
    | cons d m =>
      rw [List.flatMap_cons, List.flatMap_cons]
      rcases List.cons_lt_cons_iff.mp h with hlt | ⟨rfl, hlt⟩
      · exact utf8EncodeChar_append_lt hlt _ _
      · exact List.append_left_lt (ih hlt)

theorem bytes_lt_iff {s t : String} : bytes s < bytes t ↔ s < t := by
  have mono : ∀ {s t : String}, s < t → bytes s < bytes t := by
    intro s t h
    rw [bytes_eq, bytes_eq]
    exact flatMap_utf8EncodeChar_lt h
  refine ⟨fun h => Decidable.byContradiction fun hnot => ?_, mono⟩
  by_cases heq : s = t
  · exact List.lt_irrefl _ (heq ▸ h)
  · have hback : t < s := Decidable.byContradiction fun hnot' =>
      heq (String.le_antisymm (String.not_lt.mp hnot') (String.not_lt.mp hnot))
    exact List.lt_asymm h (mono hback)

end IdentityDirectory.Text
