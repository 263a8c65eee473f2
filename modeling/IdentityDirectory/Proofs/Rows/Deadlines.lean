import IdentityDirectory.Proofs.Rows.Keys
import Mathlib.Algebra.Group.Nat.Defs

/-!
Entries of the expiry index, read and compared. Deadlines that fit the clock have twenty digits, so
the order of entries is the order of their deadlines. Main statements: `Deadline.decode?_encode`,
`Deadline.encode_inj`, `Deadline.encode_lt`, `Deadline.instant_le_of_encode_lt`.
-/

namespace IdentityDirectory

namespace Text

theorem digit?_digitChar {d : Nat} (h : d < 10) : digit? (Nat.digitChar d) = some d := by
  have all : ∀ d : Fin 10, digit? (Nat.digitChar d) = some d.val := by decide
  exact all ⟨d, h⟩

theorem digitsFrom_append (value : Nat) (a b : List Char) :
    digitsFrom value (a ++ b) = (digitsFrom value a).bind fun v => digitsFrom v b := by
  induction a generalizing value with
  | nil => rfl
  | cons c a ih =>
    rw [List.cons_append, digitsFrom, digitsFrom]
    cases digit? c with
    | none => rfl
    | some d => exact ih _

theorem length_fixedDigits (width n : Nat) : (fixedDigits width n).length = width := by
  induction width generalizing n with
  | zero => rfl
  | succ width ih => rw [fixedDigits, List.length_append, ih, List.length_singleton]

theorem mem_fixedDigits {c : Char} {width n : Nat} (h : c ∈ fixedDigits width n) :
    ∃ d : Fin 10, c = Nat.digitChar d := by
  induction width generalizing n with
  | zero => cases h
  | succ width ih =>
    rw [fixedDigits, List.mem_append, List.mem_singleton] at h
    rcases h with h | rfl
    · exact ih h
    · exact ⟨⟨n % 10, Nat.mod_lt n (by decide)⟩, rfl⟩

theorem digitsFrom_fixedDigits {width n : Nat} (h : n < 10 ^ width) (value : Nat) :
    digitsFrom value (fixedDigits width n) = some (value * 10 ^ width + n) := by
  induction width generalizing n with
  | zero =>
    obtain rfl : n = 0 := by simpa using h
    simp [fixedDigits, digitsFrom]
  | succ width ih =>
    have hn : n / 10 < 10 ^ width := by
      rw [Nat.pow_succ] at h
      omega
    rw [fixedDigits, digitsFrom_append, ih hn, Option.bind_some, digitsFrom,
      digit?_digitChar (Nat.mod_lt n (by decide)), Option.bind_some, digitsFrom, Nat.pow_succ]
    have hpow : 10 * (value * 10 ^ width) = value * (10 ^ width * 10) := by
      rw [Nat.mul_comm, Nat.mul_assoc]
    congr 1
    omega

theorem append_lt_append {a b : List Char} (hlt : a < b) (hlen : a.length = b.length)
    (c d : List Char) : a ++ c < b ++ d := by
  induction a generalizing b with
  | nil =>
    cases b with
    | nil => exact absurd hlt (List.lt_irrefl [])
    | cons y b => cases hlen
  | cons x a ih =>
    cases b with
    | nil => cases hlen
    | cons y b =>
      rw [List.cons_append, List.cons_append, List.cons_lt_cons_iff]
      rcases List.cons_lt_cons_iff.mp hlt with hxy | ⟨hxy, hab⟩
      · exact .inl hxy
      · exact .inr ⟨hxy, ih hab (Nat.succ.inj hlen)⟩

theorem digitChar_lt {d e : Nat} (h : d < e) (he : e < 10) : Nat.digitChar d < Nat.digitChar e := by
  have all : ∀ d e : Fin 10, d < e → Nat.digitChar d < Nat.digitChar e := by decide
  exact all ⟨d, by omega⟩ ⟨e, he⟩ h

theorem fixedDigits_lt {width n m : Nat} (h : n < m) (hm : m < 10 ^ width) :
    fixedDigits width n < fixedDigits width m := by
  induction width generalizing n m with
  | zero => rw [Nat.pow_zero] at hm; omega
  | succ width ih =>
    rw [fixedDigits, fixedDigits]
    by_cases hhead : n / 10 < m / 10
    · apply append_lt_append _ (by rw [length_fixedDigits, length_fixedDigits])
      apply ih hhead
      rw [Nat.pow_succ] at hm
      omega
    · have hdiv : n / 10 = m / 10 := by omega
      have hlast : n % 10 < m % 10 := by omega
      rw [hdiv]
      apply List.append_left_lt
      rw [List.cons_lt_cons_iff]
      exact .inl (digitChar_lt hlast (Nat.mod_lt m (by decide)))

theorem signed64?_fixedDigits {width n : Nat} (hw : 0 < width) (h : n < 10 ^ width)
    (hn : n ≤ 0x7FFFFFFFFFFFFFFF) :
    signed64? (.ofList (fixedDigits width n)) = some (Int.ofNat n) := by
  have hdigits : digits? (fixedDigits width n) = some n := by
    have hfrom := digitsFrom_fixedDigits h 0
    rw [Nat.zero_mul, Nat.zero_add] at hfrom
    rw [← hfrom]
    cases hf : fixedDigits width n with
    | nil =>
      have := length_fixedDigits width n
      rw [hf, List.length_nil] at this
      omega
    | cons c rest => rfl
  have unsigned : ∀ c rest, fixedDigits width n = c :: rest → c ≠ '+' ∧ c ≠ '-' := by
    intro c rest hf
    have all : ∀ d : Fin 10, Nat.digitChar d ≠ '+' ∧ Nat.digitChar d ≠ '-' := by decide
    obtain ⟨d, rfl⟩ := mem_fixedDigits (hf ▸ List.mem_cons_self)
    exact all d
  rw [signed64?, String.toList_ofList]
  split
  · next rest hf => exact absurd rfl (unsigned _ _ hf).1
  · next rest hf => exact absurd rfl (unsigned _ _ hf).2
  · rw [hdigits, Option.map_some, Option.filter_some, if_pos]
    simp only [Int.ofNat_eq_natCast, Bool.and_eq_true, decide_eq_true_eq]
    omega

end Text

namespace Deadline

theorem separator_not_mem_fixedDigits (width n : Nat) : separator ∉ Text.fixedDigits width n := by
  intro h
  obtain ⟨d, hd⟩ := Text.mem_fixedDigits h
  revert d
  decide

theorem separator_not_mem_name (t : Table) : separator ∉ t.name.toList := by
  cases t <;> decide

theorem toList_encode (d : Deadline) :
    d.encode.toList = Text.fixedDigits 20 d.instant.toNat ++
      separator :: (d.table.name.toList ++ separator :: d.rowKey.toList) := by
  simp [encode]

theorem toNat_le_of_le_latest {instant : Int} (h : instant ≤ Time.latest) :
    instant.toNat ≤ 0x7FFFFFFFFFFFFFFF := by
  rw [Time.latest] at h
  omega

theorem decode?_encode {d : Deadline} (h : d.instant ≤ Time.latest) :
    decode? d.encode = some ⟨max d.instant 0, d.table, d.rowKey⟩ := by
  have hnat := toNat_le_of_le_latest h
  have hread : Text.signed64? (.ofList (Text.fixedDigits 20 d.instant.toNat)) =
      some (max d.instant 0) := by
    rw [Text.signed64?_fixedDigits (by decide) (by omega) hnat, Int.ofNat_eq_natCast,
      Int.ofNat_toNat]
  have hcut : Text.cutAt? separator d.encode = some (.ofList (Text.fixedDigits 20 d.instant.toNat),
      .ofList (d.table.name.toList ++ separator :: d.rowKey.toList)) := by
    rw [Text.cutAt?, toList_encode, RowKey.cut_append (separator_not_mem_fixedDigits _ _)]
    rfl
  have hrest : Text.cutAt? separator (.ofList (d.table.name.toList ++ separator :: d.rowKey.toList)) =
      some (d.table.name, d.rowKey) := by
    rw [Text.cutAt?, String.toList_ofList, RowKey.cut_append (separator_not_mem_name d.table)]
    simp
  simp only [decode?, hcut, hrest, hread, Table.ofName?_name, bind, Option.bind, pure]

theorem encode_inj {d d' : Deadline} (h : d.instant ≤ Time.latest) (h' : d'.instant ≤ Time.latest) :
    d.encode = d'.encode ↔
      max d.instant 0 = max d'.instant 0 ∧ d.table = d'.table ∧ d.rowKey = d'.rowKey := by
  constructor
  · intro heq
    have hdec := decode?_encode h
    rw [heq, decode?_encode h', Option.some.injEq, Deadline.mk.injEq] at hdec
    exact ⟨hdec.1.symm, hdec.2.1.symm, hdec.2.2.symm⟩
  · rintro ⟨hinstant, htable, hkey⟩
    have hnat : d.instant.toNat = d'.instant.toNat := by omega
    rw [encode, encode, hnat, htable, hkey]

theorem encode_lt {d d' : Deadline} (h' : d'.instant ≤ Time.latest)
    (hlt : max d.instant 0 < max d'.instant 0) : d.encode < d'.encode := by
  have hnat := toNat_le_of_le_latest h'
  have hdigits : Text.fixedDigits 20 d.instant.toNat < Text.fixedDigits 20 d'.instant.toNat :=
    Text.fixedDigits_lt (by omega) (by omega)
  change d.encode.toList < d'.encode.toList
  rw [toList_encode, toList_encode]
  exact Text.append_lt_append hdigits
    (by rw [Text.length_fixedDigits, Text.length_fixedDigits]) _ _

theorem instant_le_of_encode_lt {d d' : Deadline} (h : d.instant ≤ Time.latest)
    (hlt : d.encode < d'.encode) : max d.instant 0 ≤ max d'.instant 0 := by
  refine Decidable.byContradiction fun hgt => ?_
  exact String.lt_asymm hlt (encode_lt h (Int.not_le.mp hgt))

end Deadline

end IdentityDirectory
