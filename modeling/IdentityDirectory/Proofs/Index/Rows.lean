import IdentityDirectory.Proofs.Work.Laws

/-!
Each operation on an attribute index as a change of rows. Main statements: `setAttribute_eq`,
`removeAttribute_eq`, `removeAttributesOf_eq`, and what is seen under each key afterwards.
-/

namespace IdentityDirectory.AttributeIndex

variable (ix : AttributeIndex)

theorem forward_ne_reverse : ix.forward ≠ ix.reverse := by
  cases ix <;> decide

structure Sound (s : RowStore) : Prop where
  forward : s.Holds (List String) ix.forward
  reverse : s.Readable ix.reverse

/-- The values of an attribute at an instant, if nothing is written in between. -/
def valuesAt (s : RowStore) (scope entity name : String) (time : Int) : List String :=
  (s.recordAt (List String) ix.forward (forwardKey scope entity name) time).getD []

def Lists (s : RowStore) (scope name value entity : String) (time : Int) : Prop :=
  (s.seen ix.reverse (reverseKey scope entity name value).encode time).isSome

def reverseKeys (scope entity name : String) (values : List String) : List String :=
  values.map fun v => (reverseKey scope entity name v).encode

def unlist (s : RowStore) (scope entity name : String) (values : List String) : RowStore :=
  values.foldl (fun s v => s.remove ix.reverse (reverseKey scope entity name v).encode) s

def list (s : RowStore) (scope entity name : String) (values : List String)
    (lifetime : Option Int) : RowStore :=
  values.foldl
    (fun s v => s.write ix.reverse (reverseKey scope entity name v).encode (.bytes []) lifetime) s

def writeForward (s : RowStore) (scope entity name : String) (values : List String)
    (lifetime : Option Int) : RowStore :=
  s.write ix.forward (forwardKey scope entity name).encode (Storable.payload values) lifetime

def clear (s : RowStore) (scope entity name : String) : RowStore :=
  ix.unlist (s.remove ix.forward (forwardKey scope entity name).encode) scope entity name
    (ix.valuesAt s scope entity name s.now)

def replace (s : RowStore) (scope entity name : String) (values : List String)
    (lifetime : Option Int) : RowStore :=
  let stale := (ix.valuesAt s scope entity name s.now).filter (· ∉ values)
  ix.list (ix.unlist (ix.writeForward s scope entity name values lifetime) scope entity name stale)
    scope entity name values lifetime

def set (s : RowStore) (scope entity name : String) (values : List String)
    (lifetime : Option Int) : RowStore :=
  if distinct values = [] then ix.clear s scope entity name
  else ix.replace s scope entity name (distinct values) lifetime

def attributesAt (s : RowStore) (scope entity : String) : StringMap (List String) :=
  .ofList ((s.scan ix.forward (entityPartition scope entity)).map fun e =>
    (e.1.clustering, (Storable.ofPayload? e.2.payload).getD []))

def clearAll (s : RowStore) (scope entity : String) : RowStore :=
  ((ix.attributesAt s scope entity).entries.foldl
    (fun s e => ix.unlist s scope entity e.1 e.2) s).removePartition ix.forward
    (entityPartition scope entity)

variable {ix} {s : RowStore} {scope entity name : String} {values : List String}
  {lifetime : Option Int} {t : Table} {key : String} {time : Int}

theorem seen_unlist : (ix.unlist s scope entity name values).seen t key time =
    if t = ix.reverse ∧ key ∈ reverseKeys scope entity name values then none
    else s.seen t key time := by
  induction values generalizing s with
  | nil => simp [unlist, reverseKeys]
  | cons v values ih =>
    rw [unlist, List.foldl_cons, ← unlist, ih, RowStore.seen_remove]
    by_cases ht : t = ix.reverse <;> simp only [ht, reverseKeys, List.map_cons, List.mem_cons,
      true_and, false_and, ↓reduceIte]
    by_cases hk : key = (reverseKey scope entity name v).encode <;> simp [hk]

theorem seen_list : (ix.list s scope entity name values lifetime).seen t key time =
    if t = ix.reverse ∧ key ∈ reverseKeys scope entity name values then
      if Lifetime.lasts lifetime s.now time then some (.bytes []) else none
    else s.seen t key time := by
  induction values generalizing s with
  | nil => simp [list, reverseKeys]
  | cons v values ih =>
    rw [list, List.foldl_cons, ← list, ih, RowStore.seen_write, RowStore.now_write]
    by_cases ht : t = ix.reverse <;> simp only [ht, reverseKeys, List.map_cons, List.mem_cons,
      true_and, false_and, ↓reduceIte]
    by_cases hk : key = (reverseKey scope entity name v).encode <;> simp [hk]

@[simp] theorem now_unlist : (ix.unlist s scope entity name values).now = s.now := by
  induction values generalizing s with
  | nil => rfl
  | cons v values ih => rw [unlist, List.foldl_cons, ← unlist, ih, RowStore.now_remove]

@[simp] theorem now_list : (ix.list s scope entity name values lifetime).now = s.now := by
  induction values generalizing s with
  | nil => rfl
  | cons v values ih => rw [list, List.foldl_cons, ← list, ih, RowStore.now_write]

theorem table_unlist_of_ne (h : t ≠ ix.reverse) :
    (ix.unlist s scope entity name values).table t = s.table t := by
  induction values generalizing s with
  | nil => rfl
  | cons v values ih =>
    rw [unlist, List.foldl_cons, ← unlist, ih, RowStore.table_remove_of_ne _ h]

theorem table_list_of_ne (h : t ≠ ix.reverse) :
    (ix.list s scope entity name values lifetime).table t = s.table t := by
  induction values generalizing s with
  | nil => rfl
  | cons v values ih =>
    rw [list, List.foldl_cons, ← list, ih, RowStore.table_write_of_ne _ h]

theorem Sound.remove (h : ix.Sound s) (t : Table) (key : String) : ix.Sound (s.remove t key) :=
  ⟨h.forward.remove t key, h.reverse.remove key⟩

theorem Sound.unlist (h : ix.Sound s) : ix.Sound (ix.unlist s scope entity name values) := by
  induction values generalizing s with
  | nil => exact h
  | cons v values ih =>
    rw [AttributeIndex.unlist, List.foldl_cons, ← AttributeIndex.unlist]
    exact ih (h.remove _ _)

theorem Sound.writeReverse (h : ix.Sound s) (key : String) (payload : Payload)
    (lifetime : Option Int) : ix.Sound (s.write ix.reverse key payload lifetime) where
  forward := RowStore.holds_congr (s.table_write_of_ne ix.forward_ne_reverse _ _ _) h.forward
  reverse := h.reverse.write _ _ _

theorem Sound.list (h : ix.Sound s) :
    ix.Sound (ix.list s scope entity name values lifetime) := by
  induction values generalizing s with
  | nil => exact h
  | cons v values ih =>
    rw [AttributeIndex.list, List.foldl_cons, ← AttributeIndex.list]
    exact ih (h.writeReverse _ _ _)

theorem Sound.writeForward (h : ix.Sound s) :
    ix.Sound (ix.writeForward s scope entity name values lifetime) where
  forward := h.forward.write _ values lifetime
  reverse := h.reverse.write _ _ _

theorem Sound.congr {s' : RowStore} (hf : s'.table ix.forward = s.table ix.forward)
    (hr : s'.table ix.reverse = s.table ix.reverse) (h : ix.Sound s) : ix.Sound s' :=
  ⟨RowStore.holds_congr hf h.forward, (RowStore.readable_congr hr).mpr h.reverse⟩

theorem Sound.reclaimed {s' : RowStore} (h : ix.Sound s) (hs : RowStore.Reclaimed s s') :
    ix.Sound s' :=
  ⟨h.forward.reclaimed hs, hs.readable h.reverse⟩

theorem sound_empty (ix : AttributeIndex) (now : Int) : ix.Sound (.empty now) :=
  ⟨RowStore.holds_empty now _, RowStore.readable_empty now _⟩

theorem valuesOf_eq (h : ix.Sound s) (scope entity name : String) :
    ix.valuesOf scope entity name s = .ok (ix.valuesAt s scope entity name s.now) := by
  rw [valuesOf, Query.bind_of_ok (Query.record_eq h.forward _)]
  rfl

theorem withdraw_eq (h : ix.Sound s) (scope entity name : String) (values : List String) :
    ix.withdraw scope entity name values s = (.ok (), ix.unlist s scope entity name values) := by
  refine (Update.forM_of_ok (I := ix.Sound) (fun v _ s hs => ?_) h).1
  exact ⟨Update.discard_of_ok (Update.delete_eq _ hs.reverse), hs.remove _ _⟩

theorem putForward_eq (h : ix.Sound s) (scope entity name : String) (values : List String)
    (lifetime : Option Int) : ix.putForward scope entity name values lifetime s =
      (.ok (), ix.writeForward s scope entity name values lifetime) :=
  Update.discard_of_ok (Update.put_eq _ h.forward.readable values lifetime)

theorem removeAttribute_eq (h : ix.Sound s) (scope entity name : String) :
    ix.removeAttribute scope entity name s =
      (.ok (s.seen ix.forward (forwardKey scope entity name).encode s.now).isSome,
        ix.clear s scope entity name) := by
  rw [removeAttribute, Update.bind_liftM_of_ok (valuesOf_eq h _ _ _),
    Update.bind_of_ok (Update.delete_eq _ h.forward.readable),
    Update.bind_of_ok (withdraw_eq (h.remove _ _) _ _ _ _)]
  rfl

theorem sound_clear (h : ix.Sound s) : ix.Sound (ix.clear s scope entity name) :=
  (h.remove _ _).unlist

theorem sound_replace (h : ix.Sound s) : ix.Sound (ix.replace s scope entity name values lifetime) :=
  h.writeForward.unlist.list

theorem sound_set (h : ix.Sound s) : ix.Sound (ix.set s scope entity name values lifetime) := by
  rw [set]
  split
  · exact sound_clear h
  · exact sound_replace h

theorem putReverse_eq (h : ix.Sound s) (scope entity name : String) (values : List String)
    (lifetime : Option Int) :
    (values.forM fun v => discard <| Update.ofRows
      (·.put ix.reverse (reverseKey scope entity name v) (.bytes []) lifetime)) s =
      (.ok (), ix.list s scope entity name values lifetime) := by
  refine (Update.forM_of_ok (I := ix.Sound) (fun v _ s hs => ?_) h).1
  exact ⟨Update.discard_of_ok (Update.ofRows_of_ok (RowStore.put_eq _ _ _ hs.reverse)),
    hs.writeReverse _ _ _⟩

theorem setAttribute_eq (h : ix.Sound s) (scope entity name : String) (values : List String)
    (lifetime : Option Int) : ix.setAttribute scope entity name values lifetime s =
      (.ok (), ix.set s scope entity name values lifetime) := by
  rw [setAttribute, set]
  cases distinct values with
  | nil => exact Update.discard_of_ok (removeAttribute_eq h _ _ _)
  | cons v rest =>
    dsimp only
    rw [Update.bind_liftM_of_ok (valuesOf_eq h _ _ _),
      Update.bind_of_ok (putForward_eq h _ _ _ _ _),
      Update.bind_of_ok (withdraw_eq h.writeForward _ _ _ _),
      putReverse_eq h.writeForward.unlist, if_neg (List.cons_ne_nil _ _)]
    rfl

theorem attributesOf_eq (h : ix.Sound s) (scope entity : String) :
    ix.attributesOf scope entity s = .ok (ix.attributesAt s scope entity) := by
  have hread : ∀ e ∈ s.scan ix.forward (entityPartition scope entity),
      (do return (e.1.clustering, ← e.2.read) : Except StorageFault (String × List String)) =
        .ok (e.1.clustering, (Storable.ofPayload? e.2.payload).getD []) := by
    intro e he
    obtain ⟨key, hrow, -, -, -⟩ := RowStore.mem_scan.mp (show (e.1, e.2) ∈ _ from he)
    obtain ⟨vs, hvs⟩ := h.forward.payloads key e.2 hrow
    simp only [Row.read, hvs, Storable.ofPayload?_payload]
    rfl
  rw [attributesOf, Query.bind_of_ok (Query.scanPartition_eq h.forward.readable _),
    Query.bind_of_ok (a := (s.scan ix.forward (entityPartition scope entity)).map fun e =>
      (e.1.clustering, (Storable.ofPayload? e.2.payload).getD []))]
  · rfl
  · rw [Query.ofRows, Except.mapM_of_ok hread]
    rfl

theorem sound_foldl_unlist (h : ix.Sound s) (scope entity : String)
    (l : List (String × List String)) :
    ix.Sound (l.foldl (fun s e => ix.unlist s scope entity e.1 e.2) s) := by
  induction l generalizing s with
  | nil => exact h
  | cons e l ih => exact ih h.unlist

theorem sound_clearAll (h : ix.Sound s) : ix.Sound (ix.clearAll s scope entity) :=
  have h := sound_foldl_unlist h scope entity (ix.attributesAt s scope entity).entries
  ⟨h.forward.removePartition _ _, h.reverse.removePartition _⟩

theorem removeAttributesOf_eq (h : ix.Sound s) (scope entity : String) :
    ix.removeAttributesOf scope entity s =
      (.ok (ix.attributesAt s scope entity).size, ix.clearAll s scope entity) := by
  have hwithdraw : ((ix.attributesAt s scope entity).entries.forM fun e =>
      ix.withdraw scope entity e.1 e.2) s = (.ok (), _) :=
    (Update.forM_of_ok (I := ix.Sound) (fun e _ s hs => ⟨withdraw_eq hs _ _ e.1 e.2, hs.unlist⟩) h).1
  have hs := sound_foldl_unlist h scope entity (ix.attributesAt s scope entity).entries
  rw [removeAttributesOf, Update.bind_liftM_of_ok (attributesOf_eq h _ _)]
  apply (Update.bind_of_ok hwithdraw _).trans
  rw [Update.bind_of_ok (Update.deletePartition_eq hs.forward.readable _)]
  rfl

theorem refreshLifetime_eq (h : ix.Sound s) (scope entity : String) (lifetime : Option Int) :
    ix.refreshLifetime scope entity lifetime s =
      (.ok (), (ix.attributesAt s scope entity).entries.foldl
        (fun s e => ix.set s scope entity e.1 e.2 lifetime) s) := by
  rw [refreshLifetime, Update.bind_liftM_of_ok (attributesOf_eq h _ _)]
  exact (Update.forM_of_ok (I := ix.Sound)
    (fun e _ s hs => ⟨setAttribute_eq hs _ _ e.1 e.2 _, sound_set hs⟩) h).1

end IdentityDirectory.AttributeIndex
