import IdentityDirectory.Proofs.Isolation.Rows
import IdentityDirectory.Proofs.Work.Laws
import IdentityDirectory.QueryCache

/-!
Computations that stay within one realm: run on two stores that agree on the rows of the realm, they
give one result, leave the stores agreeing, and spare all other rows. Main statements: the rules by
which such computations are put together, `Boundary.Isolates.bind` first.
-/

namespace IdentityDirectory

variable {α β ω σ τ : Type}

/-- What two runs have in common, and what a run leaves as it is. -/
structure Boundary (ω : Type) where
  shared : ω → ω → Prop
  spared : ω → ω → Prop
  refl (s : ω) : spared s s
  trans {s s' s'' : ω} : spared s s' → spared s' s'' → spared s s''

namespace Boundary

/-- Two runs that have enough in common give the same result and still have it in common, and
neither touches what is to be spared. -/
def Isolates (B : Boundary ω) (m : ExceptT StoreError (StateM ω) α) : Prop :=
  ∀ s s', B.shared s s' → (m s).1 = (m s').1 ∧ B.shared (m s).2 (m s').2 ∧ B.spared s (m s).2

def Follows (B : Boundary ω) (m : ExceptT StoreError (StateM ω) α) (s s' : ω) : Prop :=
  (m s).1 = (m s').1 ∧ B.shared (m s).2 (m s').2

theorem Isolates.follows {B : Boundary ω} {m : ExceptT StoreError (StateM ω) α}
    (h : B.Isolates m) {s s' : ω} (hs : B.shared s s') : B.Follows m s s' :=
  ⟨(h s s' hs).1, (h s s' hs).2.1⟩

namespace Isolates

variable {B : Boundary ω} {m : ExceptT StoreError (StateM ω) α}
  {f : α → ExceptT StoreError (StateM ω) β}

theorem pure (a : α) : B.Isolates (Pure.pure a : ExceptT StoreError (StateM ω) α) :=
  fun s _ hs => ⟨rfl, hs, B.refl s⟩

theorem throw (e : StoreError) :
    B.Isolates (MonadExcept.throw e : ExceptT StoreError (StateM ω) α) :=
  fun s _ hs => ⟨rfl, hs, B.refl s⟩

theorem except (result : Except StoreError α) :
    B.Isolates (liftM result : ExceptT StoreError (StateM ω) α) :=
  fun s _ hs => ⟨rfl, hs, B.refl s⟩

theorem bind_of (h : B.Isolates m)
    (hf : ∀ s s' a s₁, B.shared s s' → m s = (.ok a, s₁) → B.Isolates (f a)) :
    B.Isolates (m >>= f) := by
  intro s s' hs
  obtain ⟨hresult, hshared, hspared⟩ := h s s' hs
  cases hm : m s with
  | mk result s₁ =>
    cases hm' : m s' with
    | mk result' s₁' =>
      rw [hm, hm'] at hresult hshared
      rw [hm] at hspared
      obtain rfl : result = result' := hresult
      cases result with
      | ok a =>
        rw [run_bind_of_ok hm, run_bind_of_ok hm']
        obtain ⟨hresult', hshared', hspared'⟩ := hf s s' a s₁ hs hm s₁ s₁' hshared
        exact ⟨hresult', hshared', B.trans hspared hspared'⟩
      | error e =>
        rw [run_bind_of_error hm, run_bind_of_error hm']
        exact ⟨rfl, hshared, hspared⟩

theorem bind (h : B.Isolates m) (hf : ∀ a, B.Isolates (f a)) : B.Isolates (m >>= f) :=
  h.bind_of fun _ _ a _ _ _ => hf a

theorem map (h : B.Isolates m) (f : α → β) : B.Isolates (f <$> m) :=
  h.bind fun a => .pure (f a)

theorem discard (h : B.Isolates m) : B.Isolates (Functor.discard m) := h.map _

theorem ite {c : Prop} [Decidable c] {m' : ExceptT StoreError (StateM ω) α} (h : B.Isolates m)
    (h' : B.Isolates m') : B.Isolates (if c then m else m') := by
  split
  · exact h
  · exact h'

theorem optional {c : Prop} [Decidable c] {u : ExceptT StoreError (StateM ω) Unit}
    {f : Unit → ExceptT StoreError (StateM ω) β} (h : B.Isolates u) (hf : B.Isolates (f ())) :
    B.Isolates (if c then u >>= f else f ()) :=
  .ite (h.bind fun _ => hf) hf

theorem tryCatch {handle : StoreError → ExceptT StoreError (StateM ω) α} (h : B.Isolates m)
    (hhandle : ∀ e, B.Isolates (handle e)) : B.Isolates (MonadExcept.tryCatch m handle) := by
  intro s s' hs
  obtain ⟨hresult, hshared, hspared⟩ := h s s' hs
  cases hm : m s with
  | mk result s₁ =>
    cases hm' : m s' with
    | mk result' s₁' =>
      rw [hm, hm'] at hresult hshared
      rw [hm] at hspared
      obtain rfl : result = result' := hresult
      cases result with
      | ok a =>
        rw [run_tryCatch_of_ok hm, run_tryCatch_of_ok hm']
        exact ⟨rfl, hshared, hspared⟩
      | error e =>
        rw [run_tryCatch_of_error hm, run_tryCatch_of_error hm']
        obtain ⟨hresult', hshared', hspared'⟩ := hhandle e s₁ s₁' hshared
        exact ⟨hresult', hshared', B.trans hspared hspared'⟩

theorem forM {act : α → ExceptT StoreError (StateM ω) Unit} {l : List α}
    (h : ∀ a ∈ l, B.Isolates (act a)) : B.Isolates (l.forM act) := by
  induction l with
  | nil => exact .pure ()
  | cons a l ih =>
    have hrest := ih fun c hc => h c (List.mem_cons_of_mem _ hc)
    exact (h a List.mem_cons_self).bind fun _ => hrest

theorem countTrue {B : Boundary (Desk σ)} {act : α → Work σ Bool} {l : List α}
    (h : ∀ a ∈ l, B.Isolates (act a)) : B.Isolates (Work.countTrue act l) := by
  induction l with
  | nil => exact .pure 0
  | cons a l ih =>
    have hrest := ih fun c hc => h c (List.mem_cons_of_mem _ hc)
    exact (h a List.mem_cons_self).bind fun _ => hrest.bind fun _ => .pure _

end Isolates

/-- Both runs draw the same identifiers, and how many are drawn is nothing else that they share. -/
structure SharesDraws (B : Boundary (Desk σ)) : Prop where
  eq {d d' : Desk σ} : B.shared d d' → d.draws = d'.draws
  shared {d d' : Desk σ} (draws : Draws) : B.shared d d' →
    B.shared { d with draws } { d' with draws }
  spared (d : Desk σ) (draws : Draws) : B.spared d { d with draws }

namespace SharesDraws

variable {B : Boundary (Desk σ)} (hB : B.SharesDraws)
include hB

theorem newId : B.Isolates (Work.newId : Work σ String) := by
  rintro ⟨rows, draws, held⟩ ⟨rows', draws', held'⟩ hd
  obtain rfl : draws = draws' := hB.eq hd
  exact ⟨rfl, hB.shared _ hd, hB.spared _ _⟩

theorem nextId : B.Isolates (Work.nextId : Work σ String) := by
  rintro ⟨rows, draws, held⟩ ⟨rows', draws', held'⟩ hd
  obtain rfl : draws = draws' := hB.eq hd
  exact ⟨rfl, hd, B.refl _⟩

theorem withNewId {f : String → Work σ α} (hf : ∀ id, B.Isolates (f id)) :
    B.Isolates (Work.withNewId f) :=
  .bind hB.nextId fun id => .bind (hf id) fun a => .bind hB.newId fun _ => .pure a

end SharesDraws

def ofRows (b : String) : Boundary RowStore where
  shared := RowStore.Agree b
  spared := RowStore.Spares b
  refl := .refl b
  trans := .trans

def ofDesk (b : String) (I : σ → Prop) : Boundary (Desk σ) where
  shared d d' := RowStore.Agree b d.rows d'.rows ∧ d.draws = d'.draws ∧ d.held = d'.held ∧ I d.held
  spared d d' := RowStore.Spares b d.rows d'.rows
  refl d := .refl b d.rows
  trans := .trans

end Boundary

variable {b : String} {I : σ → Prop} {q : Query α} {u : Update α}

def Query.Local (b : String) (q : Query α) : Prop :=
  ∀ s s', RowStore.Agree b s s' → q s = q s'

namespace Query.Local

theorem const (result : Except StoreError α) : Local b (fun _ => result : Query α) :=
  fun _ _ _ => rfl

theorem pure (a : α) : Local b (Pure.pure a : Query α) := .const (.ok a)

theorem now : Local b Query.now := fun _ _ h => congrArg Except.ok h.now

theorem bind_of {f : α → Query β} (h : Local b q) (hf : ∀ a s, q s = .ok a → Local b (f a)) :
    Local b (q >>= f) := by
  intro s s' hs
  have heq := h s s' hs
  cases hq : q s with
  | ok a =>
    rw [Query.bind_of_ok hq, Query.bind_of_ok (heq ▸ hq)]
    exact hf a s hq s s' hs
  | error e => rw [Query.bind_of_error hq, Query.bind_of_error (heq ▸ hq)]

theorem bind {f : α → Query β} (h : Local b q) (hf : ∀ a, Local b (f a)) : Local b (q >>= f) :=
  h.bind_of fun a _ _ => hf a

theorem map (h : Local b q) (f : α → β) : Local b (f <$> q) := h.bind fun a => .pure (f a)

theorem mapM {f : α → Query β} {l : List α} (h : ∀ a ∈ l, Local b (f a)) :
    Local b (l.mapM f) := by
  induction l with
  | nil => exact .pure []
  | cons a l ih =>
    rw [List.mapM_cons]
    have hrest := ih fun c hc => h c (List.mem_cons_of_mem _ hc)
    exact (h a List.mem_cons_self).bind fun _ => hrest.bind fun _ => .pure _

theorem ofRows {f : RowStore → Except StorageFault α}
    (h : ∀ s s', RowStore.Agree b s s' → f s = f s') : Local b (Query.ofRows f) := by
  intro s s' hs
  rw [Query.ofRows, Query.ofRows, h s s' hs]

end Query.Local

abbrev Update.Isolated (b : String) (u : Update α) : Prop := (Boundary.ofRows b).Isolates u

abbrev Work.Isolated (b : String) (I : σ → Prop) (work : Work σ α) : Prop :=
  (Boundary.ofDesk b I).Isolates work

theorem Query.Local.update (h : Query.Local b q) : Update.Isolated b (liftM q) :=
  fun s s' hs => ⟨h s s' hs, hs, .refl b s⟩

theorem Update.Isolated.bind_query {f : α → Update β} (h : Query.Local b q)
    (hf : ∀ a s, q s = .ok a → Update.Isolated b (f a)) : Update.Isolated b (liftM q >>= f) := by
  refine h.update.bind_of fun s _ a s₁ _ heq => ?_
  exact hf a s (Prod.mk.inj heq).1

theorem RowStore.Confined.update {f : RowStore → Except StorageFault (α × RowStore)}
    (h : RowStore.Confined b f) : Update.Isolated b (.ofRows f) := by
  intro s s' hs
  rcases h s s' hs with ⟨fault, heq, heq'⟩ | ⟨a, s₁, s₁', heq, heq', hagree, hspares⟩
  · simp only [Update.ofRows, heq, heq']
    exact ⟨trivial, hs, .refl b s⟩
  · simp only [Update.ofRows, heq, heq']
    exact ⟨trivial, hagree, hspares⟩

theorem Query.Local.work (h : Query.Local b q) : Work.Isolated b I (liftM q) :=
  fun d d' hd => ⟨h d.rows d'.rows hd.1, hd, .refl b d.rows⟩

theorem Update.Isolated.work (h : Update.Isolated b u) : Work.Isolated b I (liftM u) := by
  intro d d' hd
  obtain ⟨hresult, hagree, hspares⟩ := h d.rows d'.rows hd.1
  exact ⟨hresult, ⟨hagree, hd.2⟩, hspares⟩

namespace Work.Isolated

theorem modifyHeld {f : σ → σ} (hf : ∀ c, I c → I (f c)) : Isolated b I (Work.modifyHeld f) := by
  rintro d d' ⟨hagree, hdraws, hheld, hI⟩
  exact ⟨rfl, ⟨hagree, hdraws, congrArg f hheld, hf d.held hI⟩, .refl b d.rows⟩

theorem sharesDraws (b : String) (I : σ → Prop) : (Boundary.ofDesk b I).SharesDraws where
  eq hd := hd.2.1
  shared _ hd := ⟨hd.1, rfl, hd.2.2⟩
  spared d _ := .refl b d.rows

theorem newId : Isolated b I Work.newId := (sharesDraws b I).newId

theorem withNewId {f : String → Work σ α} (h : ∀ id, Isolated b I (f id)) :
    Isolated b I (Work.withNewId f) :=
  (sharesDraws b I).withNewId h

theorem bind_held {f : σ → Work σ α} (hf : ∀ c, I c → Isolated b I (f c)) :
    Isolated b I (Work.held >>= f) := by
  have hheld : Isolated b I (Work.held : Work σ σ) := by
    rintro d d' hd
    exact ⟨congrArg Except.ok hd.2.2.1, hd, .refl b d.rows⟩
  refine hheld.bind_of fun d d' c d₁ hd heq => hf c ?_
  obtain rfl := Except.ok.inj (Prod.mk.inj heq).1
  exact hd.2.2.2

theorem cached {κ ν : Type} [BEq κ] {part : Part σ (QueryCache κ ν)} {load : Query ν} (key : κ)
    (h : Query.Local b load) : Isolated b (fun _ : σ => True) (Work.cached part key load) := by
  rintro d d' ⟨hagree, hdraws, hheld, -⟩
  simp only [Work.cached, hheld, h d.rows d'.rows hagree]
  exact ⟨trivial, ⟨hagree, hdraws, rfl, trivial⟩, .refl b d.rows⟩

theorem on {part : Part σ τ} {work : Work τ α} {J : τ → Prop} (h : Isolated b J work)
    (hget : ∀ c, I c → J (part.get c)) (hset : ∀ c t, I c → J t → I (part.set t c)) :
    Isolated b I (Work.on part work) := by
  rintro d d' ⟨hagree, hdraws, hheld, hI⟩
  obtain ⟨hresult, ⟨hagree', hdraws', hheld', hJ⟩, hspares⟩ :=
    h { d with held := part.get d.held } { d' with held := part.get d'.held }
      ⟨hagree, hdraws, congrArg part.get hheld, hget d.held hI⟩
  have hheld₂ := congr (congrArg part.set hheld') hheld
  exact ⟨hresult, ⟨hagree', hdraws', hheld₂, hset _ _ hI hJ⟩, hspares⟩

end Work.Isolated

end IdentityDirectory
