import IdentityDirectory.Proofs.Work.World

/-!
The three kinds of containers, and the rows that hold them. Such a row stays until it is removed,
and its version is the number of its writes since it was last absent.
-/

namespace IdentityDirectory

abbrev Container : ContainerKind → Type
  | .roles => RealmRoles
  | .groups => RealmGroups
  | .clientScopes => RealmClientScopes

instance : (k : ContainerKind) → Aggregate (Container k)
  | .roles => inferInstanceAs (Aggregate RealmRoles)
  | .groups => inferInstanceAs (Aggregate RealmGroups)
  | .clientScopes => inferInstanceAs (Aggregate RealmClientScopes)

namespace ContainerKind

def table (k : ContainerKind) : Table := Aggregate.table (Container k)

theorem kind_eq (k : ContainerKind) : Aggregate.kind (Container k) = k := by
  cases k <;> rfl

theorem table_ne {k j : ContainerKind} (h : k ≠ j) : k.table ≠ j.table := by
  cases k <;> cases j <;> first | exact absurd rfl h | decide

end ContainerKind

def Row.age : Option Row → Nat
  | none => 0
  | some r => r.version

namespace Loaded

variable {α : Type} (x : Loaded α) (row : Option Row)

def Fits : Prop := x.version = row.map (·.version)

instance : Decidable (x.Fits row) := inferInstanceAs (Decidable (_ = _))

def rowOver [Storable α] : Row := ⟨none, Row.age row + 1, Storable.payload x.value⟩

end Loaded

theorem Coordinator.encode_key_inj {tenant tenant' : String}
    (h : (key tenant).encode = (key tenant').encode) : tenant = tenant' := by
  have hchars := congrArg String.toList h
  rw [RowKey.toList_encode, RowKey.toList_encode] at hchars
  exact String.toList_inj.mp (List.append_cancel_right hchars)

namespace RowStore

variable {s s' : RowStore} {k j : ContainerKind} {tenant tenant' : String}

def containerRow (s : RowStore) (k : ContainerKind) (tenant : String) : Option Row :=
  s.rowAt k.table (Coordinator.key tenant).encode

structure Lasting (s : RowStore) (k : ContainerKind) : Prop where
  readable : s.Readable k.table
  unlimited : ∀ key r, s.rowAt k.table key = some r → r.expiresAt = none
  written : ∀ key r, s.rowAt k.table key = some r → 0 < r.version

theorem lasting_empty (now : Int) (k : ContainerKind) : (empty now).Lasting k := by
  constructor
  · exact readable_empty now k.table
  · intro key r hr
    rw [rowAt_empty] at hr
    cases hr
  · intro key r hr
    rw [rowAt_empty] at hr
    cases hr

theorem Lasting.live_eq (h : s.Lasting k) (key : String) (now : Int) :
    (s.rowAt k.table key).filter (·.isLive now) = s.rowAt k.table key := by
  cases hr : s.rowAt k.table key with
  | none => rfl
  | some r =>
    have hlive : r.isLive now := by
      rw [Row.isLive, h.unlimited key r hr]
    rw [Option.filter_some, if_pos hlive]

theorem Lasting.of_rows (h : s.Lasting k) (hreadable : s'.Readable k.table)
    (hrows : ∀ key r, s'.rowAt k.table key = some r → s.rowAt k.table key = some r) :
    s'.Lasting k := by
  constructor
  · exact hreadable
  · intro key r hr
    exact h.unlimited key r (hrows key r hr)
  · intro key r hr
    exact h.written key r (hrows key r hr)

theorem Lasting.of_table (h : s.Lasting k) (htable : s'.table k.table = s.table k.table) :
    s'.Lasting k := by
  apply h.of_rows ((readable_congr htable).mpr h.readable)
  intro key r hr
  rw [← rowAt_congr htable]
  exact hr

theorem containerRow_congr (h : s'.table k.table = s.table k.table) (tenant : String) :
    s'.containerRow k tenant = s.containerRow k tenant := rowAt_congr h _

theorem Lasting.remove (h : s.Lasting k) (t : Table) (key : String) :
    (s.remove t key).Lasting k := by
  apply h.of_rows (h.readable.remove key)
  intro key' r hr
  rw [rowAt_remove] at hr
  split at hr
  · cases hr
  · exact hr

theorem containerRow_remove (k : ContainerKind) (tenant tenant' : String) :
    (s.remove k.table (Coordinator.key tenant).encode).containerRow k tenant' =
      if tenant' = tenant then none else s.containerRow k tenant' := by
  rw [containerRow, rowAt_remove]
  by_cases h : tenant' = tenant
  · rw [if_pos ⟨rfl, congrArg (fun t => (Coordinator.key t).encode) h⟩, if_pos h]
  · rw [if_neg (fun hk => h (Coordinator.encode_key_inj hk.2)), if_neg h]
    rfl

def writeContainer (s : RowStore) (tenant : String) (x : Loaded (Container k)) : RowStore :=
  s.write k.table (Coordinator.key tenant).encode (Storable.payload x.value) none

theorem successor_eq_rowOver (x : Loaded (Container k)) (row : Option Row) :
    s.successor row (Storable.payload x.value) none = x.rowOver row := by
  cases row <;> rfl

theorem table_writeContainer {t : Table} (ht : t ≠ k.table) (x : Loaded (Container k)) :
    (s.writeContainer tenant x).table t = s.table t := s.table_write_of_ne ht _ _ _

theorem containerRow_writeContainer (x : Loaded (Container k)) :
    (s.writeContainer tenant x).containerRow k tenant' =
      if tenant' = tenant then some (x.rowOver (s.containerRow k tenant))
      else s.containerRow k tenant' := by
  rw [containerRow, writeContainer, rowAt_write, successor_eq_rowOver]
  by_cases h : tenant' = tenant
  · rw [if_pos ⟨rfl, congrArg (fun t => (Coordinator.key t).encode) h⟩, if_pos h]
    rfl
  · rw [if_neg (fun hk => h (Coordinator.encode_key_inj hk.2)), if_neg h]
    rfl

theorem Lasting.writeContainer (h : s.Lasting k) (x : Loaded (Container j)) :
    (s.writeContainer tenant x).Lasting k := by
  have hrow : ∀ key r, (s.writeContainer tenant x).rowAt k.table key = some r →
      s.rowAt k.table key = some r ∨ ∃ row, r = x.rowOver row := by
    intro key r hr
    rw [RowStore.writeContainer, rowAt_write, successor_eq_rowOver] at hr
    split at hr
    · exact .inr ⟨_, (Option.some.inj hr).symm⟩
    · exact .inl hr
  constructor
  · exact h.readable.write _ _ _
  · intro key r hr
    rcases hrow key r hr with hold | ⟨row, rfl⟩
    · exact h.unlimited key r hold
    · rfl
  · intro key r hr
    rcases hrow key r hr with hold | ⟨row, rfl⟩
    · exact h.written key r hold
    · exact Nat.succ_pos _

theorem Lasting.containerRow_sweep (h : s.Lasting k) (tenant : String) :
    s.sweep.2.containerRow k tenant = s.containerRow k tenant := by
  rcases s.reclaimed_sweep.rows k.table (Coordinator.key tenant).encode with hsame | ⟨-, r, hr, hdead⟩
  · exact hsame
  · rw [Row.isLive, h.unlimited _ r hr] at hdead
    cases hdead

theorem Lasting.sweep (h : s.Lasting k) : s.sweep.2.Lasting k := by
  apply h.of_rows h.readable.sweep
  intro key r hr
  rcases s.reclaimed_sweep.rows k.table key with hsame | ⟨hnone, -⟩
  · rw [← hsame]
    exact hr
  · rw [hnone] at hr
    cases hr

theorem Lasting.version_eq_iff (h : s.Lasting k) (h' : s'.Lasting j) :
    (s.containerRow k tenant).map (·.version) = (s'.containerRow j tenant').map (·.version) ↔
      Row.age (s.containerRow k tenant) = Row.age (s'.containerRow j tenant') := by
  -- Rows that are there have a positive version, so that ages tell them from absent ones.
  cases hr : s.containerRow k tenant with
  | none =>
    cases hr' : s'.containerRow j tenant' with
    | none => simp
    | some r' =>
      have hpos := h'.written _ r' hr'
      simp only [Option.map_none, Option.map_some, Row.age, reduceCtorEq, false_iff]
      omega
  | some r =>
    have hpos := h.written _ r hr
    cases hr' : s'.containerRow j tenant' with
    | none =>
      simp only [Option.map_none, Option.map_some, Row.age, reduceCtorEq, false_iff]
      omega
    | some r' => simp [Row.age]

end RowStore

def Containers.roleNames (row : Option Row) : Option (List String) :=
  (row.bind fun r => (Storable.ofPayload? r.payload : Option RealmRoles)).map
    (·.roles.map (·.name))

end IdentityDirectory
