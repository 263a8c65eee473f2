import IdentityDirectory.Proofs.Index.Lookup

/-!
An index whose attributes go by known names. Every attribute that occurs satisfies `P`; those that
satisfy `M` are mirrored, and no other one can be taken for one of them. Each operation keeps this.
-/

namespace IdentityDirectory.AttributeIndex

structure Regular (ix : AttributeIndex) (s : RowStore) (P M : String → Prop) : Prop where
  sound : ix.Sound s
  named : ∀ scope, Plain scope → ix.Named s scope P
  mirrors : ∀ scope name, Plain scope → M name → ix.Mirrors s scope name Unclaimed

def Distinguishes (P M : String → Prop) : Prop :=
  ∀ scope entity name name', Plain scope → P name → M name' → name ≠ name' →
    Apart scope entity name scope name'

theorem distinguishes_of_plain {M : String → Prop} (h : ∀ name, M name → Plain name) :
    Distinguishes M M := by
  intro scope entity name name' hs hn hn' hne
  exact apart_of_name_ne hs (h name hn) (h name' hn') hne entity

variable {ix ix' : AttributeIndex} {s s' : RowStore} {scope entity name : String}
  {values : List String} {lifetime : Option Int} {P M : String → Prop}

theorem regular_empty (ix : AttributeIndex) (now : Int) (P M : String → Prop) :
    ix.Regular (.empty now) P M where
  sound := sound_empty ix now
  named scope _ := named_empty ix now scope P
  mirrors scope name _ _ := mirrors_empty ix now scope name

theorem Regular.congr_tables (h : ix.Regular s P M) (hf : s'.table ix.forward = s.table ix.forward)
    (hr : s'.table ix.reverse = s.table ix.reverse) (hn : s'.now = s.now) : ix.Regular s' P M where
  sound := h.sound.congr hf hr
  named scope hs := (h.named scope hs).congr_table hf hn
  mirrors scope name hs hm := mirrors_congr_table hf hr hn (h.mirrors scope name hs hm)

theorem Regular.of_within (h : ix'.Regular s P M) (hne : ix ≠ ix') (hw : ix.Within s s') :
    ix'.Regular s' P M :=
  have ⟨hff, hfr, hrf, hrr⟩ := tables_ne hne
  h.congr_tables (hw.table _ hff hfr) (hw.table _ hrf hrr) hw.now

theorem Regular.reclaimed (h : ix.Regular s P M) (hs : RowStore.Reclaimed s s') :
    ix.Regular s' P M where
  sound := h.sound.reclaimed hs
  named scope hscope := (h.named scope hscope).reclaimed hs
  mirrors scope name hscope hm := (h.mirrors scope name hscope hm).reclaimed hs

theorem Regular.later (h : ix.Regular s P M) {now : Int} (hle : s.now ≤ now) :
    ix.Regular { s with now } P M where
  sound := Sound.congr (s := s) rfl rfl h.sound
  named scope hs := (h.named scope hs).later hle
  mirrors scope name hs hm := (h.mirrors scope name hs hm).later hle

section Write

variable (hM : ∀ name, M name → Plain name) (hPM : Distinguishes P M) (hs : Plain scope)
include hPM hs

theorem apart_of_written {scope' name' : String} (hn : P name) (hs' : Plain scope') (hm : M name')
    (hne : ¬ (scope' = scope ∧ name' = name)) (entity : String) :
    Apart scope entity name scope' name' := by
  by_cases hscope : scope' = scope
  · subst hscope
    exact hPM scope' entity name name' hs hn hm fun h => hne ⟨rfl, h.symm⟩
  · exact apart_of_scope_ne hs hs' (Ne.symm hscope) entity name name'

theorem Regular.apart (h : ix.Regular s P M) (hm : M name) :
    ∀ e ∈ (ix.attributesAt s scope entity).entries, e.1 ≠ name →
      Apart scope entity e.1 scope name := by
  intro e hmem hne
  have hp : P e.1 := (h.named scope hs).mem_attributesAt h.sound hs hmem
  exact hPM scope entity e.1 name hs hp hm hne

include hM

theorem Regular.set (h : ix.Regular s P M) (he : NulFree entity) (hn : P name)
    (hvs : M name → ∀ v ∈ values, NulFree v) :
    ix.Regular (ix.set s scope entity name values lifetime) P M where
  sound := sound_set h.sound
  named scope' hs' := (h.named scope' hs').set hs' hs he fun _ => hn
  mirrors scope' name' hs' hm := by
    have hold := h.mirrors scope' name' hs' hm
    by_cases hsame : scope' = scope ∧ name' = name
    · obtain ⟨rfl, rfl⟩ := hsame
      exact hold.set hs he (hM name' hm) fun v hv => hvs hm v (mem_distinct.mp hv)
    · exact hold.set_of_apart (apart_of_written hPM hs hn hs' hm hsame entity)

theorem Regular.clear (h : ix.Regular s P M) (he : M name → NulFree entity) (hn : P name) :
    ix.Regular (ix.clear s scope entity name) P M where
  sound := sound_clear h.sound
  named scope' hs' := (h.named scope' hs').clear
  mirrors scope' name' hs' hm := by
    have hold := h.mirrors scope' name' hs' hm
    by_cases hsame : scope' = scope ∧ name' = name
    · obtain ⟨rfl, rfl⟩ := hsame
      exact hold.clear hs (he hm) (hM name' hm)
    · exact hold.clear_of_apart (apart_of_written hPM hs hn hs' hm hsame entity)

theorem Regular.clearAll (h : ix.Regular s P M) : ix.Regular (ix.clearAll s scope entity) P M where
  sound := sound_clearAll h.sound
  named scope' hs' := (h.named scope' hs').clearAll
  mirrors scope' name hs' hm := by
    have hold := h.mirrors scope' name hs' hm
    by_cases hscope : scope' = scope
    · subst hscope
      exact hold.clearAll h.sound hs (hM name hm) (h.apart hPM hs hm)
    · exact hold.clearAll_of_scope_ne hs hs' (hM name hm).1 hscope

theorem Regular.setEach {l : List (String × List String)} (h : ix.Regular s P M)
    (he : NulFree entity) (hn : ∀ e ∈ l, P e.1)
    (hvs : ∀ e ∈ l, M e.1 → ∀ v ∈ e.2, NulFree v) :
    ix.Regular (ix.setEach s scope entity l lifetime) P M := by
  induction l generalizing s with
  | nil => exact h
  | cons e l ih =>
    apply ih
    · exact h.set hM hPM hs he (hn e List.mem_cons_self) (hvs e List.mem_cons_self)
    · exact fun f hf => hn f (List.mem_cons_of_mem _ hf)
    · exact fun f hf => hvs f (List.mem_cons_of_mem _ hf)

theorem Regular.refresh (h : ix.Regular s P M) (he : NulFree entity) :
    ix.Regular (ix.refresh s scope entity lifetime) P M := by
  apply h.setEach hM hPM hs he
  · intro e hmem
    exact (h.named scope hs).mem_attributesAt h.sound hs hmem
  · intro e hmem hm v hv
    rw [← valuesAt_of_mem_attributesAt h.sound hs he hmem] at hv
    exact (h.mirrors scope e.1 hs hm).nulFree entity v s.now he (Int.le_refl _) hv

end Write

def clearEach (ix : AttributeIndex) (s : RowStore) (scope : String) (entities : List String) :
    RowStore :=
  entities.foldl (fun s e => ix.clearAll s scope e) s

variable {entities : List String}

theorem within_clearEach : ix.Within s (ix.clearEach s scope entities) := by
  induction entities generalizing s with
  | nil => exact .refl ix s
  | cons e entities ih => exact within_clearAll.trans ih

theorem Regular.clearEach (hM : ∀ name, M name → Plain name) (hPM : Distinguishes P M)
    (hs : Plain scope) (h : ix.Regular s P M) : ix.Regular (ix.clearEach s scope entities) P M := by
  induction entities generalizing s with
  | nil => exact h
  | cons e entities ih => exact ih (h.clearAll hM hPM hs)

theorem valuesAt_clearEach {scope' entity' name' : String} {time : Int} (hs : Plain scope)
    (hentities : ∀ e ∈ entities, NulFree e) (hs' : Plain scope') (he' : NulFree entity') :
    ix.valuesAt (ix.clearEach s scope entities) scope' entity' name' time =
      if scope' = scope ∧ entity' ∈ entities then []
      else ix.valuesAt s scope' entity' name' time := by
  induction entities generalizing s with
  | nil => simp [AttributeIndex.clearEach]
  | cons f entities ih =>
    rw [AttributeIndex.clearEach, List.foldl_cons, ← AttributeIndex.clearEach,
      ih fun g hg => hentities g (List.mem_cons_of_mem _ hg),
      valuesAt_clearAll hs (hentities f List.mem_cons_self) hs' he']
    simp only [List.mem_cons]
    by_cases hscope : scope' = scope <;> by_cases hf : entity' = f <;>
      by_cases hmem : entity' ∈ entities <;> simp [hscope, hf, hmem]

theorem removeAttributesOf_forM_eq (h : ix.Sound s) (scope : String) {β : Type} (f : β → String)
    (l : List β) :
    (l.forM fun a => discard (ix.removeAttributesOf scope (f a))) s =
      (.ok (), ix.clearEach s scope (l.map f)) := by
  rw [AttributeIndex.clearEach, List.foldl_map]
  exact (Update.forM_of_ok (I := ix.Sound) (fun a _ s hs =>
    ⟨Update.discard_of_ok (removeAttributesOf_eq hs _ _), sound_clearAll hs⟩) h).1

end IdentityDirectory.AttributeIndex
