import IdentityDirectory.Proofs.Index.Mirror

/-!
All attributes of an entity at once. Main statements: `valuesAt_clearAll`, `valuesAt_refresh` and
`Mirrors.clearAll`.
-/

namespace IdentityDirectory.AttributeIndex

variable {ix ix' : AttributeIndex} {s s' : RowStore} {scope scope' entity entity' : String}
  {name name' value : String} {values : List String} {lifetime : Option Int} {time : Int}
  {claimed : String → String → Prop}

def keepNew (kept : List String) (v : String) : List String :=
  if v ∈ kept then kept else kept ++ [v]

theorem distinct_eq_foldl (values : List String) : distinct values = values.foldl keepNew [] := rfl

theorem mem_keepNew {kept : List String} {v : String} :
    value ∈ keepNew kept v ↔ value ∈ kept ∨ value = v := by
  rw [keepNew]
  split
  · next hv => exact (or_iff_left_of_imp fun h => h ▸ hv).symm
  · rw [List.mem_append, List.mem_singleton]

theorem keepNew_nodup {kept : List String} (h : kept.Nodup) (v : String) :
    (keepNew kept v).Nodup := by
  rw [keepNew]
  split
  · exact h
  · next hv =>
    have hapart : ∀ a ∈ kept, ∀ b ∈ [v], a ≠ b := fun a ha b hb heq =>
      hv (List.mem_singleton.mp hb ▸ heq ▸ ha)
    exact List.nodup_append.mpr ⟨h, by simp, hapart⟩

theorem mem_distinct : value ∈ distinct values ↔ value ∈ values := by
  have hfold : ∀ values kept : List String,
      value ∈ values.foldl keepNew kept ↔ value ∈ kept ∨ value ∈ values := by
    intro values
    induction values with
    | nil => simp
    | cons a values ih =>
      intro kept
      rw [List.foldl_cons, ih, mem_keepNew, List.mem_cons, or_assoc]
  rw [distinct_eq_foldl, hfold]
  simp

theorem distinct_nodup (values : List String) : (distinct values).Nodup := by
  have hfold : ∀ values kept : List String, kept.Nodup → (values.foldl keepNew kept).Nodup := by
    intro values
    induction values with
    | nil => exact fun kept h => h
    | cons a values ih => exact fun kept h => ih _ (keepNew_nodup h a)
  exact hfold values [] .nil

theorem distinct_of_nodup (h : values.Nodup) : distinct values = values := by
  have hfold : ∀ values kept : List String, (kept ++ values).Nodup →
      values.foldl keepNew kept = kept ++ values := by
    intro values
    induction values with
    | nil => simp
    | cons a values ih =>
      intro kept h
      have ha : a ∉ kept := fun hmem =>
        (List.nodup_append.mp h).2.2 a hmem a List.mem_cons_self rfl
      rw [List.foldl_cons, keepNew, if_neg ha, ih _ (by simpa using h), List.append_assoc]
      rfl
  exact hfold values [] h

theorem get?_attributesAt (h : ix.Sound s) (hs : Plain scope) (he : NulFree entity) (name : String) :
    (ix.attributesAt s scope entity).get? name =
      s.recordAt (List String) ix.forward (forwardKey scope entity name) s.now := by
  have hp := entityPartition_nulFree hs he
  refine Option.ext fun values => ?_
  rw [← StringMap.mem_entries_iff, attributesAt, StringMap.mem_ofList_iff, List.mem_map]
  · constructor
    · rintro ⟨⟨k, row⟩, hmem, heq⟩
      obtain ⟨rfl, rfl⟩ := Prod.mk.inj heq
      obtain ⟨hk, hrow, hlive⟩ := (RowStore.mem_scan_iff hp).mp hmem
      obtain ⟨p, c⟩ := k
      obtain rfl : p = _ := hk
      obtain ⟨vs, hvs⟩ := h.forward.payloads _ row hrow
      simp only [hvs, Storable.ofPayload?_payload, Option.getD_some]
      have hseen : s.seen ix.forward (forwardKey scope entity c).encode s.now = _ :=
        RowStore.seen_eq_some_iff.mpr ⟨row, hrow, hlive, hvs⟩
      rw [RowStore.recordAt, hseen]
      exact Storable.ofPayload?_payload vs
    · intro hrec
      rw [RowStore.recordAt, Option.bind_eq_some_iff] at hrec
      obtain ⟨p, hseen, hp'⟩ := hrec
      obtain ⟨row, hrow, hlive, rfl⟩ := RowStore.seen_eq_some_iff.mp hseen
      refine ⟨(forwardKey scope entity name, row), ?_, ?_⟩
      · exact (RowStore.mem_scan_iff hp).mpr ⟨rfl, hrow, hlive⟩
      · simp only [hp', Option.getD_some]
        rfl
  · rw [List.map_map]
    exact RowStore.scan_clustering_nodup hp

theorem valuesAt_eq_attributesAt (h : ix.Sound s) (hs : Plain scope) (he : NulFree entity)
    (name : String) : ix.valuesAt s scope entity name s.now =
      ((ix.attributesAt s scope entity).get? name).getD [] := by
  rw [get?_attributesAt h hs he]
  rfl

theorem valuesAt_of_mem_attributesAt (h : ix.Sound s) (hs : Plain scope) (he : NulFree entity)
    (hmem : (name, values) ∈ (ix.attributesAt s scope entity).entries) :
    ix.valuesAt s scope entity name s.now = values := by
  rw [valuesAt_eq_attributesAt h hs he, StringMap.mem_entries_iff.mp hmem]
  rfl

theorem mem_attributesAt_of_mem_valuesAt (h : ix.Sound s) (hs : Plain scope) (he : NulFree entity)
    (hmem : value ∈ ix.valuesAt s scope entity name s.now) :
    (name, ix.valuesAt s scope entity name s.now) ∈ (ix.attributesAt s scope entity).entries := by
  rw [StringMap.mem_entries_iff, valuesAt_eq_attributesAt h hs he]
  rw [valuesAt_eq_attributesAt h hs he] at hmem
  cases hget : (ix.attributesAt s scope entity).get? name with
  | none => rw [hget] at hmem; cases hmem
  | some vs => rfl

theorem exists_cut (entity : String) : ∃ x y, entity.toList ++ [RowKey.partitionEnd] =
    x ++ RowKey.partitionEnd :: y ∧ RowKey.partitionEnd ∉ x ∧
      (RowKey.partitionEnd ∉ y → NulFree entity) := by
  by_cases he : NulFree entity
  · exact ⟨entity.toList, [], rfl, he, fun _ => he⟩
  · obtain ⟨x, y, heq, hx⟩ := List.eq_append_cons_of_mem (Decidable.not_not.mp he)
    refine ⟨x, y ++ [RowKey.partitionEnd], by simp [heq], hx, fun hy => ?_⟩
    exact absurd (List.mem_append_right y (List.mem_singleton_self _)) hy

theorem exists_of_mem_attributesAt (h : ix.Sound s) (hs : Plain scope)
    (hmem : (name, values) ∈ (ix.attributesAt s scope entity).entries) :
    ∃ entity', NulFree entity' ∧ (NulFree name → NulFree entity) ∧
      (s.recordAt (List String) ix.forward (forwardKey scope entity' name) s.now).isSome := by
  obtain ⟨⟨k, row⟩, hscan, heq⟩ := List.mem_map.mp (StringMap.mem_of_mem_ofList hmem)
  obtain ⟨rfl, -⟩ := Prod.mk.inj heq
  obtain ⟨key, hrow, hlive, hdecode, rest, hlead⟩ := RowStore.mem_scan.mp hscan
  obtain ⟨rfl, hp⟩ := RowKey.eq_of_decode? hdecode
  obtain ⟨x, y, hsplit, hx, hy⟩ := exists_cut entity
  have hcut : (scope.toList ++ '\x1f' :: x) ++ RowKey.partitionEnd :: (y ++ rest) =
      k.partition.toList ++ RowKey.partitionEnd :: k.clustering.toList := by
    rw [← RowKey.toList_encode, ← hlead, RowKey.toList_lead, entityPartition,
      RowKey.toList_composite_two]
    have hassoc : scope.toList ++ '\x1f' :: entity.toList ++ [RowKey.partitionEnd] =
        scope.toList ++ '\x1f' :: (entity.toList ++ [RowKey.partitionEnd]) := by simp
    rw [hassoc, hsplit]
    simp
  have hnul : RowKey.partitionEnd ∉ scope.toList ++ '\x1f' :: x := by
    rw [List.mem_append, List.mem_cons]
    rintro (hmem | hmem | hmem)
    · exact hs.1 hmem
    · exact absurd hmem (by decide)
    · exact hx hmem
  obtain ⟨hpart, hclust⟩ := (cons_append_inj hnul hp).mp hcut
  have hkey : (forwardKey scope (.ofList x) k.clustering).encode = k.encode := by
    rw [← String.toList_inj, toList_forwardKey, RowKey.toList_encode, ← hpart]
    simp
  refine ⟨.ofList x, by simpa [NulFree] using hx, fun hname => ?_, ?_⟩
  · exact hy fun hmem => hname (hclust ▸ List.mem_append_left _ hmem)
  · obtain ⟨vs, hvs⟩ := h.forward.payloads _ row hrow
    rw [RowStore.recordAt, hkey, RowStore.seen_eq_some_iff.mpr ⟨row, hrow, hlive, hvs⟩,
      Option.bind_some, Storable.ofPayload?_payload]
    rfl

theorem table_foldl_unlist_of_ne {t : Table} (ht : t ≠ ix.reverse)
    (l : List (String × List String)) (s : RowStore) :
    (l.foldl (fun s e => ix.unlist s scope entity e.1 e.2) s).table t = s.table t := by
  induction l generalizing s with
  | nil => rfl
  | cons e l ih => rw [List.foldl_cons, ih, table_unlist_of_ne ht]

theorem now_foldl_unlist (l : List (String × List String)) (s : RowStore) :
    (l.foldl (fun s e => ix.unlist s scope entity e.1 e.2) s).now = s.now := by
  induction l generalizing s with
  | nil => rfl
  | cons e l ih => rw [List.foldl_cons, ih, now_unlist]

theorem lists_foldl_unlist (l : List (String × List String)) (s : RowStore) :
    ix.Lists (l.foldl (fun s e => ix.unlist s scope entity e.1 e.2) s) scope' name' value entity' time ↔
      (∀ e ∈ l, (reverseKey scope' entity' name' value).encode ∉
        reverseKeys scope entity e.1 e.2) ∧ ix.Lists s scope' name' value entity' time := by
  induction l generalizing s with
  | nil => simp
  | cons e l ih =>
    rw [List.foldl_cons, ih, lists_unlist, List.forall_mem_cons, and_left_comm, and_assoc]

@[simp] theorem now_clearAll : (ix.clearAll s scope entity).now = s.now := by
  rw [clearAll, RowStore.now_removePartition, now_foldl_unlist]

theorem lists_clearAll : ix.Lists (ix.clearAll s scope entity) scope' name' value entity' time ↔
    (∀ e ∈ (ix.attributesAt s scope entity).entries,
      (reverseKey scope' entity' name' value).encode ∉ reverseKeys scope entity e.1 e.2) ∧
      ix.Lists s scope' name' value entity' time := by
  rw [clearAll, lists_congr (RowStore.table_removePartition_of_ne ix.forward_ne_reverse.symm _),
    lists_foldl_unlist]

theorem recordAt_clearAll (key : RowKey) :
    (ix.clearAll s scope entity).recordAt (List String) ix.forward key time =
      if (RowKey.lead (entityPartition scope entity)).toList <+: key.encode.toList then none
      else s.recordAt (List String) ix.forward key time := by
  rw [clearAll, RowStore.recordAt_removePartition,
    RowStore.recordAt_congr (table_foldl_unlist_of_ne ix.forward_ne_reverse _ _)]
  simp only [true_and]

theorem lead_prefix_forwardKey_iff (hs : Plain scope) (he : NulFree entity) (hs' : Plain scope')
    (he' : NulFree entity') :
    (RowKey.lead (entityPartition scope entity)).toList <+:
      (forwardKey scope' entity' name').encode.toList ↔ scope' = scope ∧ entity' = entity := by
  rw [RowKey.lead_prefix_iff]
  constructor
  · rintro ⟨c, heq⟩
    have heq : (forwardKey scope' entity' name').encode = (forwardKey scope entity c).encode := heq
    rw [forwardKey_inj hs' he' hs he] at heq
    exact ⟨heq.1, heq.2.1⟩
  · rintro ⟨rfl, rfl⟩
    exact ⟨name', rfl⟩

theorem lead_prefix_forwardKey_iff_of_nulFree (hs : Plain scope) (hs' : Plain scope')
    (he' : NulFree entity') (hn' : NulFree name') :
    (RowKey.lead (entityPartition scope entity)).toList <+:
      (forwardKey scope' entity' name').encode.toList ↔ scope' = scope ∧ entity' = entity := by
  rw [RowKey.lead_prefix_iff]
  constructor
  · rintro ⟨c, heq⟩
    have heq : (forwardKey scope' entity' name').encode = (forwardKey scope entity c).encode := heq
    rw [← String.toList_inj, toList_forwardKey, toList_forwardKey] at heq
    obtain ⟨hscope, htail⟩ := (cons_append_inj hs'.2 hs.2).mp heq
    have hentity := ((append_cons_inj he' hn').mp htail.symm).1
    exact ⟨String.toList_inj.mp hscope, (String.toList_inj.mp hentity).symm⟩
  · rintro ⟨rfl, rfl⟩
    exact ⟨name', rfl⟩

theorem valuesAt_clearAll (hs : Plain scope) (he : NulFree entity) (hs' : Plain scope')
    (he' : NulFree entity') :
    ix.valuesAt (ix.clearAll s scope entity) scope' entity' name' time =
      if scope' = scope ∧ entity' = entity then [] else ix.valuesAt s scope' entity' name' time := by
  rw [valuesAt, recordAt_clearAll]
  simp only [lead_prefix_forwardKey_iff hs he hs' he']
  split <;> rfl

theorem valuesAt_clearAll_of_nulFree (hs : Plain scope) (hs' : Plain scope')
    (he' : NulFree entity') (hn' : NulFree name') :
    ix.valuesAt (ix.clearAll s scope entity) scope' entity' name' time =
      if scope' = scope ∧ entity' = entity then [] else ix.valuesAt s scope' entity' name' time := by
  rw [valuesAt, recordAt_clearAll]
  simp only [lead_prefix_forwardKey_iff_of_nulFree hs hs' he' hn']
  split <;> rfl

theorem Mirrors.clearAll (hsound : ix.Sound s) (hs : Plain scope) (hn : Plain name)
    (h : ix.Mirrors s scope name Unclaimed)
    (hap : ∀ e ∈ (ix.attributesAt s scope entity).entries, e.1 ≠ name →
      Apart scope entity e.1 scope name) :
    ix.Mirrors (ix.clearAll s scope entity) scope name Unclaimed where
  nulFree entity' value time he' hle hmem := by
    rw [now_clearAll] at hle
    rw [valuesAt_clearAll_of_nulFree hs hs he' hn.1] at hmem
    split at hmem
    · cases hmem
    · exact h.nulFree entity' value time he' hle hmem
  lists_iff entity' value time hv hle := by
    rw [now_clearAll] at hle
    rw [lists_clearAll]
    by_cases hent : entity' = entity
    · subst hent
      constructor
      · rintro ⟨hall, hl⟩
        have he := ((h.lists_iff entity' value time hv hle).mp hl).1
        have hnow := h.mem_valuesAt_now hv hle hl
        have hattr := mem_attributesAt_of_mem_valuesAt hsound hs he hnow
        exact absurd (List.mem_map.mpr ⟨value, hnow, rfl⟩) (hall _ hattr)
      · rintro ⟨he, hmem | hfalse⟩
        · rw [valuesAt_clearAll_of_nulFree hs hs he hn.1, if_pos ⟨rfl, rfl⟩] at hmem
          cases hmem
        · exact hfalse.elim
    · -- None of the reverse rows that go names another entity.
      have hkeep : ∀ e ∈ (ix.attributesAt s scope entity).entries,
          (reverseKey scope entity' name value).encode ∉ reverseKeys scope entity e.1 e.2 := by
        intro e hmem
        by_cases hname : e.1 = name
        · obtain ⟨-, -, hfree, -⟩ := exists_of_mem_attributesAt hsound hs hmem
          have he : NulFree entity := hfree (hname ▸ hn.1)
          have hvs := valuesAt_of_mem_attributesAt hsound hs he hmem
          have hold : ∀ v ∈ e.2, NulFree v := fun v hv => by
            rw [← hvs, hname] at hv
            exact h.nulFree entity v s.now he (Int.le_refl _) hv
          rw [hname, mem_reverseKeys_iff hs hn hold hv]
          exact fun hboth => hent hboth.1
        · exact (hap e hmem hname).notMem _ _ _
      rw [and_iff_right hkeep, h.lists_iff entity' value time hv hle]
      refine and_congr_right fun he' => ?_
      rw [valuesAt_clearAll_of_nulFree hs hs he' hn.1, if_neg fun hsame => hent hsame.2]

theorem Mirrors.clearAll_of_scope_ne (hs : Plain scope) (hs' : Plain scope') (hn' : NulFree name')
    (hne : scope' ≠ scope) (h : ix.Mirrors s scope' name' claimed) :
    ix.Mirrors (ix.clearAll s scope entity) scope' name' claimed := by
  refine h.congr (Int.le_of_eq (by rw [now_clearAll])) (fun entity' time he' _ => ?_)
    fun entity' value time _ _ => ?_
  · rw [valuesAt_clearAll_of_nulFree hs hs' he' hn', if_neg fun hsame => hne hsame.1]
  · rw [lists_clearAll]
    exact and_iff_right fun e _ =>
      (apart_of_scope_ne hs hs' (Ne.symm hne) entity e.1 name').notMem _ _ _

def setEach (ix : AttributeIndex) (s : RowStore) (scope entity : String)
    (l : List (String × List String)) (lifetime : Option Int) : RowStore :=
  l.foldl (fun s e => ix.set s scope entity e.1 e.2 lifetime) s

def refresh (ix : AttributeIndex) (s : RowStore) (scope entity : String)
    (lifetime : Option Int) : RowStore :=
  ix.setEach s scope entity (ix.attributesAt s scope entity).entries lifetime

@[simp] theorem now_set : (ix.set s scope entity name values lifetime).now = s.now := by
  rw [set, clear, replace, writeForward]
  split
  · rw [now_unlist, RowStore.now_remove]
  · rw [now_list, now_unlist, RowStore.now_write]

variable {l : List (String × List String)}

@[simp] theorem now_setEach : (ix.setEach s scope entity l lifetime).now = s.now := by
  induction l generalizing s with
  | nil => rfl
  | cons e l ih => rw [setEach, List.foldl_cons, ← setEach, ih, now_set]

theorem valuesAt_setEach (hs : Plain scope) (he : NulFree entity) (hs' : Plain scope')
    (he' : NulFree entity') (hl : (l.map (·.1)).Nodup) :
    ix.valuesAt (ix.setEach s scope entity l lifetime) scope' entity' name' time =
      if scope' = scope ∧ entity' = entity then
        match l.lookup name' with
        | some vs => if Lifetime.lasts lifetime s.now time then distinct vs else []
        | none => ix.valuesAt s scope' entity' name' time
      else ix.valuesAt s scope' entity' name' time := by
  induction l generalizing s with
  | nil => exact (ite_self _).symm
  | cons e l ih =>
    obtain ⟨n, vs⟩ := e
    rw [List.map_cons, List.nodup_cons] at hl
    rw [setEach, List.foldl_cons, ← setEach, ih hl.2, now_set, valuesAt_set hs he hs' he']
    by_cases hsame : scope' = scope ∧ entity' = entity
    · simp only [hsame.1, hsame.2, true_and, List.lookup_cons]
      by_cases hname : name' = n
      · have hnone : l.lookup name' = none := by
          rw [List.lookup_eq_none_iff]
          intro p hp
          rw [bne_iff_ne]
          exact fun heq => hl.1 (List.mem_map.mpr ⟨p, hp, by rw [← heq, hname]⟩)
        subst hname
        simp [hnone]
      · simp [hname, beq_eq_false_iff_ne.mpr hname]
    · rw [if_neg hsame, if_neg hsame, if_neg fun hall => hsame ⟨hall.1, hall.2.1⟩]

theorem valuesAt_refresh (h : ix.Sound s) (hs : Plain scope) (he : NulFree entity)
    (hs' : Plain scope') (he' : NulFree entity') (hle : s.now ≤ time) :
    ix.valuesAt (ix.refresh s scope entity lifetime) scope' entity' name' time =
      if scope' = scope ∧ entity' = entity then
        if Lifetime.lasts lifetime s.now time then
          distinct (ix.valuesAt s scope entity name' s.now)
        else []
      else ix.valuesAt s scope' entity' name' time := by
  rw [refresh, valuesAt_setEach hs he hs' he' (StringMap.entries_nodup _)]
  split
  · next hsame =>
    obtain ⟨rfl, rfl⟩ := hsame
    rw [valuesAt_eq_attributesAt h hs he, StringMap.get?]
    cases hlook : (ix.attributesAt s scope' entity').entries.lookup name' with
    | some vs => rfl
    | none =>
      have hnow : ix.valuesAt s scope' entity' name' s.now = [] := by
        rw [valuesAt_eq_attributesAt h hs he, StringMap.get?, hlook]
        rfl
      have hgone : ix.valuesAt s scope' entity' name' time = [] := by
        refine List.eq_nil_iff_forall_not_mem.mpr fun v hv => ?_
        have hnow' := mem_valuesAt_of_le hle hv
        rw [hnow] at hnow'
        cases hnow'
      rw [hgone]
      exact (ite_self _).symm
  · rfl

end IdentityDirectory.AttributeIndex
