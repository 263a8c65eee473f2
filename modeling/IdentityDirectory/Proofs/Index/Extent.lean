import IdentityDirectory.Proofs.Index.Backing
import IdentityDirectory.Proofs.Isolation.Footprint

/-!
The index rows of one entity. Main statements: what is done to the attributes of an entity changes no
other rows (`changesOnly_setEach`, `changesOnly_clearAll`), and none of its rows is seen once it has no
attributes (`Backed.unseen`).
-/

namespace IdentityDirectory

namespace RowStore

variable {P P' : Table → String → Prop} {s s' : RowStore} {t : Table} {key : String}

abbrev ChangesOnly (P : Table → String → Prop) : RowStore → RowStore → Prop :=
  Wrote fun _ t key _ => P t key

theorem ChangesOnly.cell (h : ChangesOnly P s s') (hnot : ¬ P t key) :
    (s'.table t).get? key = (s.table t).get? key :=
  (h.cells t key).resolve_right hnot

theorem ChangesOnly.widen (h : ChangesOnly P s s') (hle : ∀ t key, P t key → P' t key) :
    ChangesOnly P' s s' :=
  h.mono fun _ t key _ => hle t key

theorem changesOnly_write (h : P t key) (payload : Payload) (lifetime : Option Int) :
    ChangesOnly P s (s.write t key payload lifetime) :=
  wrote_replaceRow h _

theorem changesOnly_remove (h : P t key) : ChangesOnly P s (s.remove t key) := by
  rw [remove]
  split
  · exact .refl s
  · exact wrote_removeRow h _

theorem changesOnly_removePartition {partition : String}
    (h : ∀ key : String, (RowKey.lead partition).toList <+: key.toList → P t key) :
    ChangesOnly P s (s.removePartition t partition) := by
  apply wrote_removeRows
  intro e he
  exact h e.1 (mem_inPartition_iff.mp he).2

theorem get?_remove_of_readable (h : s.Readable t) (key : String) :
    ((s.remove t key).table t).get? key = none := by
  rw [remove]
  split
  · next hnone =>
    cases hcell : (s.table t).get? key with
    | none => rfl
    | some cell =>
      cases cell with
      | unreadable => exact absurd hcell (h key)
      | row row =>
        rw [rowAt, hcell] at hnone
        cases hnone
  · rw [table_removeRow, if_pos rfl, StringMap.get?_erase, if_pos rfl]

end RowStore

namespace AttributeIndex

open RowStore (ChangesOnly)

variable {ix : AttributeIndex} {s : RowStore} {scope scope' entity entity' name name' value : String}
  {value' : String} {values : List String} {lifetime : Option Int} {t : Table} {key : String}

def OfEntity (ix : AttributeIndex) (scope entity : String) (t : Table) (key : String) : Prop :=
  t = ix.forward ∧ (∃ name, key = (forwardKey scope entity name).encode) ∨
    t = ix.reverse ∧ ∃ name value, key = (reverseKey scope entity name value).encode

theorem OfEntity.scoped (h : ix.OfEntity scope entity t key) : Scoped scope key := by
  rcases h with ⟨-, name, rfl⟩ | ⟨-, name, value, rfl⟩
  · exact scoped_forwardKey scope entity name
  · exact scoped_reverseKey scope entity name value

theorem eq_of_append_cons {sep : Char} {a a' b b' : List Char} (hb : sep ∉ b) (hb' : sep ∉ b')
    (h : a ++ sep :: b = a' ++ sep :: b') : b = b' := by
  have hreversed := congrArg List.reverse h
  simp only [List.reverse_append, List.reverse_cons, List.append_assoc, List.singleton_append]
    at hreversed
  exact List.reverse_inj.mp
    ((cons_append_inj (mt List.mem_reverse.mp hb) (mt List.mem_reverse.mp hb')).mp hreversed).1

theorem entity_eq_of_reverseKey (he : NulFree entity) (he' : NulFree entity')
    (h : (reverseKey scope entity name value).encode =
      (reverseKey scope' entity' name' value').encode) : entity = entity' := by
  rw [← String.toList_inj, RowKey.toList_encode, RowKey.toList_encode] at h
  exact String.toList_inj.mp (eq_of_append_cons he he' h)

theorem OfEntity.unique (h : ix.OfEntity scope entity t key) (h' : ix.OfEntity scope' entity' t key)
    (hs : Plain scope) (he : NulFree entity) (hs' : Plain scope') (he' : NulFree entity') :
    scope = scope' ∧ entity = entity' := by
  have hscope : scope = scope' := Owned.realm_eq (.inr h.scoped) (.inr h'.scoped) hs hs'
  refine ⟨hscope, ?_⟩
  rcases h with ⟨rfl, name, rfl⟩ | ⟨rfl, name, value, rfl⟩
  · rcases h' with ⟨-, name', heq⟩ | ⟨htable, -⟩
    · exact ((forwardKey_inj hs he hs' he').mp heq).2.1
    · exact absurd htable ix.forward_ne_reverse
  · rcases h' with ⟨htable, -⟩ | ⟨-, name', value', heq⟩
    · exact absurd htable.symm ix.forward_ne_reverse
    · exact entity_eq_of_reverseKey he he' heq

theorem changesOnly_unlist :
    ChangesOnly (ix.OfEntity scope entity) s (ix.unlist s scope entity name values) := by
  induction values generalizing s with
  | nil => exact .refl s
  | cons v values ih =>
    rw [unlist, List.foldl_cons, ← unlist]
    exact .trans (RowStore.changesOnly_remove (.inr ⟨rfl, name, v, rfl⟩)) ih

theorem changesOnly_list :
    ChangesOnly (ix.OfEntity scope entity) s (ix.list s scope entity name values lifetime) := by
  induction values generalizing s with
  | nil => exact .refl s
  | cons v values ih =>
    rw [list, List.foldl_cons, ← list]
    exact .trans (RowStore.changesOnly_write (.inr ⟨rfl, name, v, rfl⟩) _ _) ih

theorem changesOnly_set :
    ChangesOnly (ix.OfEntity scope entity) s (ix.set s scope entity name values lifetime) := by
  rw [set]
  split
  · exact .trans (RowStore.changesOnly_remove (.inl ⟨rfl, name, rfl⟩)) changesOnly_unlist
  · have hwritten : ChangesOnly (ix.OfEntity scope entity) s
        (ix.writeForward s scope entity name (distinct values) lifetime) :=
      RowStore.changesOnly_write (.inl ⟨rfl, name, rfl⟩) _ _
    exact (hwritten.trans changesOnly_unlist).trans changesOnly_list

theorem changesOnly_setEach {l : List (String × List String)} :
    ChangesOnly (ix.OfEntity scope entity) s (ix.setEach s scope entity l lifetime) := by
  induction l generalizing s with
  | nil => exact .refl s
  | cons e l ih =>
    rw [setEach, List.foldl_cons, ← setEach]
    exact .trans changesOnly_set ih

theorem changesOnly_clearAll :
    ChangesOnly (ix.OfEntity scope entity) s (ix.clearAll s scope entity) := by
  have hunlisted : ∀ (l : List (String × List String)) (s : RowStore),
      ChangesOnly (ix.OfEntity scope entity) s
        (l.foldl (fun s e => ix.unlist s scope entity e.1 e.2) s) := by
    intro l
    induction l with
    | nil => exact fun s => .refl s
    | cons e l ih => exact fun s => .trans changesOnly_unlist (ih _)
  refine .trans (hunlisted _ s) (RowStore.changesOnly_removePartition fun key hkey => ?_)
  obtain ⟨name, rfl⟩ := RowKey.lead_prefix_iff.mp hkey
  exact .inl ⟨rfl, name, rfl⟩

theorem Backed.unseen {M A : String → Prop} {P : String → String → String → Prop}
    (h : ix.Backed s M P) (hregular : ix.Regular s A M) (hs : Plain scope) (he : NulFree entity)
    (hnone : ∀ name, P scope entity name → ix.valuesAt s scope entity name s.now = [])
    (hkey : ix.OfEntity scope entity t key) : s.seen t key s.now = none := by
  refine Option.not_isSome_iff_eq_none.mp fun hseen => ?_
  obtain ⟨scope', entity', name, hs', he', hP, hne, hkey'⟩ :=
    h.attribute_of_seen hregular (hkey.imp And.left And.left) hseen
  have hof : ix.OfEntity scope' entity' t key := by
    rcases hkey' with ⟨ht, heq⟩ | ⟨ht, value, heq⟩
    · exact .inl ⟨ht, name, heq⟩
    · exact .inr ⟨ht, name, value, heq⟩
  obtain ⟨rfl, rfl⟩ := hof.unique hkey hs' he' hs he
  exact hne (hnone name hP)

end AttributeIndex

end IdentityDirectory
