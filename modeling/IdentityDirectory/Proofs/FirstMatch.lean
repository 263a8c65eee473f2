import IdentityDirectory.FirstMatch
import Mathlib.Data.List.Nodup

/-!
Items of a list that are told apart by a key. Main statements: the change of the first match is one of
all matches (`modifyFirst_eq_map`), and when it leaves other labels apart (`nodup_map_modifyFirst_iff`).
-/

namespace IdentityDirectory

variable {α β γ : Type} [DecidableEq β] {key : α → β} {label : α → γ} {f : α → α} {l : List α} {a : α}

theorem mem_of_find?_key_eq_some (key : α → β) {k : β} (h : l.find? (key · = k) = some a) :
    a ∈ l ∧ key a = k :=
  ⟨List.mem_of_find?_eq_some h, by simpa using List.find?_some h⟩

theorem modifyFirst_eq_map (h : (l.map key).Nodup) (k : β) :
    modifyFirst (key · = k) f l = l.map fun a => if key a = k then f a else a := by
  induction l with
  | nil => rfl
  | cons a l ih =>
    rw [List.map_cons, List.nodup_cons] at h
    by_cases ha : key a = k
    · have hrest : ∀ b ∈ l, (if key b = k then f b else b) = b := fun b hb =>
        if_neg fun hk => h.1 (List.mem_map.mpr ⟨b, hb, hk.trans ha.symm⟩)
      simp [modifyFirst, ha, List.map_congr_left hrest]
    · simp [modifyFirst, ha, ih h.2]

theorem modifyFirst_of_forall_ne {k : β} (h : ∀ a ∈ l, key a ≠ k) :
    modifyFirst (key · = k) f l = l := by
  induction l with
  | nil => rfl
  | cons a l ih =>
    rw [modifyFirst, ih fun b hb => h b (List.mem_cons_of_mem _ hb)]
    simp [h a List.mem_cons_self]

theorem map_modifyFirst (hf : ∀ a, label (f a) = label a) (p : α → Bool) (l : List α) :
    (modifyFirst p f l).map label = l.map label := by
  induction l with
  | nil => rfl
  | cons a l ih =>
    rw [modifyFirst]
    split
    · rw [List.map_cons, List.map_cons, hf]
    · rw [List.map_cons, List.map_cons, ih]

theorem nodup_map_modifyFirst_iff (hkey : (l.map key).Nodup) (hlabel : (l.map label).Nodup)
    (ha : a ∈ l) : ((modifyFirst (key · = key a) f l).map label).Nodup ↔
      ∀ b ∈ l, key b ≠ key a → label b ≠ label (f a) := by
  have heq : ∀ b ∈ l, key b = key a → b = a := fun b hb => List.inj_on_of_nodup_map hkey hb ha
  have hapart : ∀ b ∈ l, ∀ c ∈ l, label b = label c → b = c := fun b hb c hc =>
    List.inj_on_of_nodup_map hlabel hb hc
  rw [modifyFirst_eq_map hkey, List.map_map, List.nodup_map_iff_inj_on hkey.of_map]
  constructor
  · intro h b hb hne hsame
    have hfix : (label ∘ fun a' => if key a' = key a then f a' else a') b =
        (label ∘ fun a' => if key a' = key a then f a' else a') a := by
      simp [hne, hsame]
    exact hne (congrArg key (h b hb a ha hfix))
  · intro h b hb c hc hsame
    by_cases hbk : key b = key a <;> by_cases hck : key c = key a
    · rw [heq b hb hbk, heq c hc hck]
    · simp only [Function.comp_apply, hck, if_true, if_false, heq b hb hbk] at hsame
      exact absurd hsame.symm (h c hc hck)
    · simp only [Function.comp_apply, hbk, if_true, if_false, heq c hc hck] at hsame
      exact absurd hsame (h b hb hbk)
    · simp only [Function.comp_apply, hbk, hck, if_false] at hsame
      exact hapart b hb c hc hsame

theorem nodup_map_concat (h : (l.map label).Nodup) (ha : ∀ b ∈ l, label b ≠ label a) :
    ((l ++ [a]).map label).Nodup := by
  rw [List.map_append, List.nodup_append]
  refine ⟨h, by simp, ?_⟩
  simpa using fun b hb => ha b hb

end IdentityDirectory
