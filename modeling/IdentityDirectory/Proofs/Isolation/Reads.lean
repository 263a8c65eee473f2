import IdentityDirectory.Proofs.Isolation.Footprint
import Mathlib.Data.List.Basic

/-!
Queries that read the rows of some tables only. They give the same on stores that have the same rows
there, at one time or, as long as these rows carry no deadline, at different times. Main statements:
`Query.ReadsOnly` for the single accesses and the lookups of an attribute index, and the rules by which
such queries are put together.
-/

namespace IdentityDirectory

variable {α β : Type} {tables : List Table} {s s' : RowStore} {t : Table}

namespace RowStore

def LastingIn (tables : List Table) (s : RowStore) : Prop :=
  ∀ t ∈ tables, ∀ key row, (s.table t).get? key = some (.row row) → row.expiresAt = none

structure SameIn (tables : List Table) (s s' : RowStore) : Prop where
  table : ∀ t ∈ tables, s'.table t = s.table t
  time : s'.now = s.now ∨ LastingIn tables s

def durably (tables : List Table) (_ : Int) (t : Table) (_ : String) (cell : Option Cell) : Prop :=
  t ∈ tables → ∀ row, cell = some (.row row) → row.expiresAt = none

theorem lastingIn_empty (tables : List Table) (now : Int) : LastingIn tables (.empty now) := by
  intro t _ key row hcell
  rw [table_empty] at hcell
  cases hcell

theorem LastingIn.wrote (h : LastingIn tables s) (hw : Wrote (durably tables) s s') :
    LastingIn tables s' := by
  intro t ht key row hcell
  rcases hw.cells t key with hsame | hnew
  · exact h t ht key row (hsame ▸ hcell)
  · exact hnew ht row hcell

theorem LastingIn.reclaimed (h : LastingIn tables s) (hs : Reclaimed s s') : LastingIn tables s' := by
  intro t ht key row hcell
  rcases hs.cells t key with hsame | ⟨hnone, -⟩
  · exact h t ht key row (hsame ▸ hcell)
  · rw [hnone] at hcell
    cases hcell

theorem puts_durably (tables : List Table) (now : Int) (t : Table) (key : String)
    (payload : Payload) : Puts (durably tables) now t key payload none := by
  intro version _ row hcell
  obtain rfl := Cell.row.inj (Option.some.inj hcell)
  rfl

theorem Wrote.durably_of_within {others : List Table} (h : Wrote (within others) s s')
    (hne : ∀ t ∈ tables, t ∉ others) : Wrote (durably tables) s s' :=
  h.mono fun _ t _ _ hother ht => absurd hother (hne t ht)

theorem SameIn.of_onlyIn {others : List Table} (h : OnlyIn others s s')
    (hne : ∀ t ∈ tables, t ∉ others) : SameIn tables s s' :=
  ⟨fun t ht => h.table t (hne t ht), .inl h.now⟩

theorem isLive_of_lasting {row : Row} (h : row.expiresAt = none) (now : Int) :
    row.isLive now = true := by
  rw [Row.isLive, h]

theorem mem_of_rowsOf {l : List (String × Cell)} {rows : List (String × Row)}
    (h : rowsOf l = .ok rows) : ∀ e ∈ rows, (e.1, Cell.row e.2) ∈ l := by
  induction l generalizing rows with
  | nil =>
    obtain rfl := Except.ok.inj h
    intro e he
    cases he
  | cons e l ih =>
    obtain ⟨key, cell⟩ := e
    rw [rowsOf, List.mapM_cons, ← rowsOf] at h
    cases cell with
    | unreadable => cases h
    | row row =>
      cases hrest : rowsOf l with
      | error fault =>
        rw [hrest] at h
        cases h
      | ok rest =>
        rw [hrest] at h
        obtain rfl := Except.ok.inj h
        intro e he
        rcases List.mem_cons.mp he with rfl | he
        · exact List.mem_cons_self
        · exact List.mem_cons_of_mem _ (ih hrest e he)

section Access

variable (h : SameIn tables s s') (ht : t ∈ tables)
include h ht

theorem SameIn.isLive {key : String} {row : Row}
    (hrow : (s.table t).get? key = some (.row row)) : row.isLive s'.now = row.isLive s.now := by
  rcases h.time with hnow | hlasting
  · rw [hnow]
  · have hnone := hlasting t ht key row hrow
    rw [isLive_of_lasting hnone, isLive_of_lasting hnone]

theorem get_sameIn (key : RowKey) : s'.get t key = s.get t key := by
  have hsame : s'.row? t key.encode = s.row? t key.encode := by
    rw [row?, row?, h.table t ht]
  rw [get, get, hsame]
  cases hfound : s.row? t key.encode with
  | error fault => rfl
  | ok found =>
    cases found with
    | none => rfl
    | some row =>
      have hcell : (s.table t).get? key.encode = some (.row row) := by
        rw [row?] at hfound
        split at hfound
        · cases hfound
        · next cell hcell =>
          cases cell with
          | row r =>
            obtain rfl := Option.some.inj (Except.ok.inj hfound)
            exact hcell
          | unreadable => cases hfound
      simp only [bind, Except.bind, pure, Except.pure, Option.filter_some, h.isLive ht hcell]

theorem live_sameIn {rows : List (String × Row)}
    (hrows : ∀ e ∈ rows, (e.1, Cell.row e.2) ∈ (s.table t).entries) : s'.live rows = s.live rows := by
  rw [live, live]
  refine List.filterMap_congr fun e he => ?_
  rw [h.isLive ht (StringMap.mem_entries_iff.mp (hrows e he))]

theorem scanPartition_sameIn (partition : String) :
    s'.scanPartition t partition = s.scanPartition t partition := by
  have hsame : s'.partitionRows t partition = s.partitionRows t partition := by
    rw [partitionRows, partitionRows, h.table t ht]
  rw [scanPartition, scanPartition, hsame]
  cases hrows : s.partitionRows t partition with
  | error fault => rfl
  | ok rows =>
    refine congrArg Except.ok (live_sameIn h ht fun e he => ?_)
    have hmem := mem_of_rowsOf hrows e he
    rw [StringMap.startingWith_eq_filter] at hmem
    exact (List.mem_filter.mp hmem).1

end Access

end RowStore

def Query.ReadsOnly (tables : List Table) (q : Query α) : Prop :=
  ∀ s s', RowStore.SameIn tables s s' → q s' = q s

namespace Query.ReadsOnly

variable {q : Query α} {f : α → Query β}

theorem const (result : Except StoreError α) : ReadsOnly tables (fun _ => result : Query α) :=
  fun _ _ _ => rfl

theorem pure (a : α) : ReadsOnly tables (Pure.pure a : Query α) := .const (.ok a)

theorem bind (h : ReadsOnly tables q) (hf : ∀ a, ReadsOnly tables (f a)) :
    ReadsOnly tables (q >>= f) := by
  intro s s' hs
  have heq := h s s' hs
  cases hq : q s with
  | ok a =>
    rw [Query.bind_of_ok hq, Query.bind_of_ok (heq.trans hq)]
    exact hf a s s' hs
  | error e => rw [Query.bind_of_error hq, Query.bind_of_error (heq.trans hq)]

theorem mapM {f : β → Query α} {l : List β} (h : ∀ b ∈ l, ReadsOnly tables (f b)) :
    ReadsOnly tables (l.mapM f) := by
  induction l with
  | nil => exact pure []
  | cons b l ih =>
    rw [List.mapM_cons]
    have hrest := ih fun c hc => h c (List.mem_cons_of_mem _ hc)
    exact (h b List.mem_cons_self).bind fun _ => hrest.bind fun _ => pure _

theorem ofRows {f : RowStore → Except StorageFault α}
    (h : ∀ s s', RowStore.SameIn tables s s' → f s' = f s) : ReadsOnly tables (Query.ofRows f) := by
  intro s s' hs
  rw [Query.ofRows, Query.ofRows, h s s' hs]

section Access

variable (ht : t ∈ tables)
include ht

theorem record [Storable α] (key : RowKey) :
    ReadsOnly tables (Query.record t key : Query (Option α)) := by
  apply ofRows
  intro s s' hs
  simp only [RowStore.get_sameIn hs ht]

theorem scanPartition (partition : String) : ReadsOnly tables (Query.scanPartition t partition) :=
  ofRows fun _ _ hs => RowStore.scanPartition_sameIn hs ht partition

theorem records [Storable α] (partition : String) :
    ReadsOnly tables (Query.records α t partition) := by
  apply ofRows
  intro s s' hs
  simp only [RowStore.scanPartition_sameIn hs ht]

end Access

end Query.ReadsOnly

namespace AttributeIndex

variable {ix : AttributeIndex} (ht : ix.reverse ∈ tables) (scope name value : String)
include ht

theorem reads_findBy : Query.ReadsOnly tables (ix.findBy scope name value) :=
  .bind (.scanPartition ht _) fun _ => .pure _

theorem reads_findUnique : Query.ReadsOnly tables (ix.findUnique scope name value) := by
  refine .bind (reads_findBy ht scope name value) fun owners => ?_
  split
  · exact .pure none
  · exact .pure _
  · exact .const _

end AttributeIndex

end IdentityDirectory
