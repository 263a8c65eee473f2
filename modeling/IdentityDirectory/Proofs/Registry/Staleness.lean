import IdentityDirectory.Proofs.Registry.Memories

/-!
When answers that a unit of work remembers of users go out of date. It forgets them when it starts and
with every change of users that it tries, so only a change by another unit, or a switch of the realm's
policy on duplicate emails, can do it. Main statements: what a step and a run leave of what is
remembered (`Current.step`, `current_run`), and `Current.fresh`.
-/

namespace IdentityDirectory

namespace Registry

variable {α : Type} [Storable α] {R : Registry α} {s s' : RowStore} {r : String}
  {U U' : String → String → Prop}

theorem recordsIn_eq (hkey : ∀ r id, R.Scope r → R.key r id = ⟨r, id⟩) (h : R.Kept U s)
    (h' : R.Kept U' s') (hr : R.Scope r)
    (hrecord : ∀ id, R.record s' r id s'.now = R.record s r id s.now) :
    s'.recordsIn α R.table r = s.recordsIn α R.table r := by
  refine eq_of_ascending (recordsIn_ascending hkey h' hr) (recordsIn_ascending hkey h hr)
    fun a => ?_
  rw [(listing_recordsIn hkey h' hr).mem_iff, (listing_recordsIn hkey h hr).mem_iff]
  simp only [hrecord]

end Registry

namespace Registries

open UnitOfWork (usersPart)

variable {strict strict' : String → Prop} {s s' : RowStore} {r : String}

theorem users_untouched (h : Upheld strict s) {drawn : String} (hdrawn : NulFree drawn)
    {op : Operation} (hv : op.Valid s drawn) (hop : ¬ op.ChangesUsers) :
    (op.effect drawn s).2.now = s.now ∧
      (op.effect drawn s).2.table .users = s.table .users := by
  have of_realms : ∀ {s'}, Realms.registry.Moved Registry.Always s s' →
      s'.now = s.now ∧ s'.table .users = s.table .users := fun hm =>
    ⟨hm.confined.now, hm.confined.table _ (by decide) (by decide) (by decide)⟩
  have of_clients : ∀ {s'}, Clients.registry.Moved Registry.Always s s' →
      s'.now = s.now ∧ s'.table .users = s.table .users := fun hm =>
    ⟨hm.confined.now, hm.confined.table _ (by decide) (by decide) (by decide)⟩
  cases op with
  | createRealm id name =>
    have hplain : NulFree (id.getD drawn) := by
      cases id with
      | none => exact hdrawn
      | some i => exact (hv.2.1 i rfl).1
    rw [Operation.effect, Update.discard_rows]
    exact of_realms (Realms.insert_spec h.realms hplain hv.1).1
  | updateRealm realm =>
    rw [Operation.effect, Update.discard_rows]
    exact of_realms (Realms.replace_spec h.realms hv.1.1 hv.2).1
  | removeRealm id =>
    obtain ⟨removed, s', heq, hmoved⟩ := Realms.delete_spec h.realms id
    rw [Operation.effect, Update.discard_rows, heq]
    exact of_realms hmoved
  | createClient realmId clientId =>
    rw [Operation.effect, Update.discard_rows]
    exact of_clients (Clients.insert_spec h.clients hv.1 hdrawn hv.2.1).1
  | updateClient client =>
    rw [Operation.effect, Update.discard_rows]
    exact of_clients (Clients.replace_spec h.clients hv.1 hv.2).1
  | removeClient realmId id =>
    obtain ⟨removed, s', heq, hmoved⟩ := Clients.delete_spec h.clients hv id
    rw [Operation.effect, Update.discard_rows, heq]
    exact of_clients hmoved
  | removeClients realmId =>
    obtain ⟨n, s', heq, hmoved⟩ := Clients.deleteAll_spec h.clients hv
    rw [Operation.effect, Update.discard_rows, heq]
    exact of_clients hmoved
  | _ => exact absurd trivial hop

section Same

variable (h : Upheld strict s) (h' : Upheld strict' s') (hr : Plain r)
  (husers : s'.recordsIn User .users r = s.recordsIn User .users r)
include h h' hr husers

theorem load_same (id : String) : Users.load r id s' = Users.load r id s := by
  have hl : Users.registry.Listing s r (s.recordsIn User .users r) :=
    Registry.listing_recordsIn (fun _ _ _ => rfl) h.users hr
  have hl' : Users.registry.Listing s' r (s'.recordsIn User .users r) :=
    Registry.listing_recordsIn (fun _ _ _ => rfl) h'.users hr
  rw [husers] at hl'
  rw [Users.load_eq h.users, Users.load_eq h'.users]
  congr 1
  refine Option.ext fun u => ?_
  rw [hl'.record_iff h'.users hr, hl.record_iff h.users hr]

theorem loadByUsername_same {name : String} (hv : NulFree name) :
    Users.loadByUsername r name s' = Users.loadByUsername r name s := by
  obtain ⟨found, heq, hfound⟩ := Users.loadByUsername_spec h.users hr hv
  obtain ⟨found', heq', hfound'⟩ := Users.loadByUsername_spec h'.users hr hv
  rw [heq, heq']
  congr 1
  refine Option.ext fun u => ?_
  rw [hfound', hfound, husers]

theorem loadByEmail_same {realm : Realm} (hrealm : realm.id = r) {email : String}
    (hv : NulFree email) : Users.loadByEmail realm email s' = Users.loadByEmail realm email s := by
  rw [Users.loadByEmail_eq h.users hr hv hrealm, Users.loadByEmail_eq h'.users hr hv hrealm, husers]

end Same

def Clean : UserLookup → Prop
  | .byId r _ => Plain r
  | .byUsername r value | .byEmail r value => Plain r ∧ NulFree value

/-- The rows give the answer, that to an email under some policy on duplicates. -/
def Right (s : RowStore) (found : Option User) : UserLookup → Prop
  | .byId r id => Users.load r id s = .ok found
  | .byUsername r name => Users.loadByUsername r name s = .ok found
  | .byEmail r email =>
    ∃ realm : Realm, realm.id = r ∧ Users.loadByEmail realm email s = .ok found

theorem Right.of_same (h : Upheld strict s) (h' : Upheld strict' s')
    (husers : ∀ r, Plain r → s'.recordsIn User .users r = s.recordsIn User .users r)
    {key : UserLookup} (hkey : Clean key) {found : Option User} (hright : Right s found key) :
    Right s' found key := by
  cases key with
  | byId r id => exact (load_same h h' hkey (husers r hkey) id).trans hright
  | byUsername r name =>
    exact (loadByUsername_same h h' hkey.1 (husers r hkey.1) hkey.2).trans hright
  | byEmail r email =>
    obtain ⟨realm, hrealm, heq⟩ := hright
    exact ⟨realm, hrealm, (loadByEmail_same h h' hkey.1 (husers r hkey.1) hrealm hkey.2).trans heq⟩

def Current (w : World) (unit : Nat) : Prop :=
  ∀ key found, Clean key → (memory w unit).find? key = some found → Right w.rows found key

theorem current_of_forgotten {w : World} {unit : Nat}
    (h : ∀ key, (memory w unit).find? key = none) : Current w unit := by
  intro key found _ hfound
  rw [h] at hfound
  cases hfound

theorem Current.of_same {w w' : World} {unit : Nat} (hc : Current w unit)
    (h : Upheld strict w.rows) (h' : Upheld strict' w'.rows)
    (husers : ∀ r, Plain r → w'.rows.recordsIn User .users r = w.rows.recordsIn User .users r)
    (hmemory : memory w' unit = memory w unit) : Current w' unit := by
  intro key found hkey hfound
  rw [hmemory] at hfound
  exact (hc key found hkey hfound).of_same h h' husers hkey

def Forgets {α : Type} (work : Work UserCache α) : Prop :=
  ∀ d key, (work d).2.held.lookups.find? key = none

theorem forgets_update {α : Type} (u : Update α) :
    Forgets (Users.invalidate >>= fun _ => liftM u : Work UserCache α) :=
  fun d key => QueryCache.find?_forget d.held.lookups key

theorem Forgets.discard {α : Type} {work : Work UserCache α} (h : Forgets work) :
    Forgets (Functor.discard work) := by
  intro d key
  rw [Work.discard_desk]
  exact h d key

def Clears (work : Work UnitOfWork Unit) : Prop :=
  ∀ d key, (work d).2.held.users.lookups.find? key = none

theorem Forgets.on {work : Work UserCache Unit} (h : Forgets work) :
    Clears (Work.on usersPart work) :=
  fun d => h { d with held := d.held.users }

theorem clears_change {op : Operation} (hop : op.ChangesUsers) (hfree : ¬ op.Reserved) :
    Clears op.perform := by
  cases op with
  | createRealm | updateRealm | removeRealm | createClient | updateClient | removeClient
  | removeClients => exact hop.elim
  | createUser realm username =>
    have hcreate : Forgets (Users.create realm username) :=
      fun d key => QueryCache.find?_forget d.held.lookups key
    exact hcreate.discard.on
  | setAttribute realmId id name values =>
    have hname : ¬ Users.isInternal name = true := hfree
    have hset : Forgets (Users.setAttribute realmId id name values) := by
      rw [Users.setAttribute, Users.refuseInternal, if_neg hname]
      exact forgets_update (Users.putAttribute realmId id name values)
    exact hset.discard.on
  | removeAttribute realmId id name =>
    have hname : ¬ Users.isInternal name = true := hfree
    have hremove : Forgets (Users.removeAttribute realmId id name) := by
      rw [Users.removeAttribute, Users.refuseInternal, if_neg hname]
      exact forgets_update (AttributeIndex.users.removeAttribute realmId id name)
    exact hremove.discard.on
  | _ => exact (forgets_update _).discard.on

theorem memory_call (w : World) (unit : Nat) (work : Work UnitOfWork Unit) :
    memory (w.call unit work) unit = (work (w.desk unit)).2.held.users.lookups := by
  have hunit : (w.call unit work).units unit = (work (w.desk unit)).2.held := if_pos rfl
  rw [memory, hunit]

theorem memory_call_of_ne {w : World} {unit other : Nat} (hne : unit ≠ other) {α : Type}
    (work : Work UnitOfWork α) : memory (w.call other work) unit = memory w unit := by
  have hunit : (w.call other work).units unit = w.units unit := if_neg hne
  rw [memory, hunit, memory]

theorem memory_ask {w : World} {unit : Nat} {α : Type} (work : Work UserCache α) :
    memory (w.call unit (Work.on usersPart (discard work))) unit =
      (work { w.desk unit with held := (w.units unit).users }).2.held.lookups := by
  rw [memory_call]
  have hdesk := Work.discard_desk work { w.desk unit with held := (w.units unit).users }
  have hlookups := congrArg (·.held.lookups) hdesk
  exact hlookups

theorem find?_asked {w : World} {unit : Nat} {key key' : UserLookup} {load : Query (Option User)}
    {found : Option User}
    (h : (memory (w.call unit
      (Work.on usersPart (discard (Work.cached Users.lookups key load)))) unit).find? key' =
        some found) :
    (memory w unit).find? key' = some found ∨ key' = key ∧ load w.rows = .ok found := by
  rw [memory_ask] at h
  exact Work.find?_cached Users.lookups h

theorem Current.asked {w : World} {unit : Nat} (hc : Current w unit) (question : Question) :
    Current (w.call unit question.perform) unit := by
  have hrows : (w.call unit question.perform).rows = w.rows := rows_ask question (w.desk unit)
  intro key found hkey hfound
  rw [hrows]
  cases question with
  | byId realmId id =>
    rcases find?_asked hfound with hold | ⟨rfl, hload⟩
    · exact hc key found hkey hold
    · exact hload
  | byUsername realmId username =>
    rcases find?_asked hfound with hold | ⟨rfl, hload⟩
    · exact hc key found hkey hold
    · exact hload
  | byEmail realm email =>
    rcases find?_asked hfound with hold | ⟨rfl, hload⟩
    · exact hc key found hkey hold
    · exact ⟨realm, rfl, hload⟩
  | byAttribute | all =>
    rw [Question.perform, memory_ask] at hfound
    exact hc key found hkey hfound

theorem desk_reserved {op : Operation} (hop : op.Reserved) (d : Desk UnitOfWork) :
    (op.perform d).2.rows = d.rows ∧ (op.perform d).2.held.users = d.held.users := by
  cases op with
  | setAttribute realmId id name values =>
    have hname : Users.isInternal name = true := hop
    rw [Operation.perform, Users.setAttribute, Users.refuseInternal, if_pos hname]
    exact ⟨rfl, rfl⟩
  | removeAttribute realmId id name =>
    have hname : Users.isInternal name = true := hop
    rw [Operation.perform, Users.removeAttribute, Users.refuseInternal, if_pos hname]
    exact ⟨rfl, rfl⟩
  | _ => exact hop.elim

theorem memory_other {op : Operation} (hop : ¬ op.ChangesUsers) (w : World) (unit : Nat) :
    memory (w.call unit op.perform) unit = memory w unit := by
  rw [memory_call]
  cases op with
  | createRealm | updateRealm | removeRealm | createClient | updateClient | removeClient
  | removeClients => rfl
  | _ => exact absurd trivial hop

theorem records_other {w : World} (h : Upheld strict w.rows) (hstrict : ∀ r, ¬ strict r)
    {op : Operation} (hv : op.Valid w.rows (drawn w)) (hop : ¬ op.ChangesUsers) (unit : Nat)
    (hr : Plain r) : (w.call unit op.perform).rows.recordsIn User .users r =
      w.rows.recordsIn User .users r := by
  have hnext := h.call hv (fun r hr => absurd hr (hstrict r)) unit
  have hacts : (w.call unit op.perform).rows = (op.effect (drawn w) w.rows).2 :=
    congrArg Prod.snd (op.acts_effect (w.desk unit))
  have hdrawn : NulFree (drawn w) := (Identifier.hyphenated_plain _).1
  obtain ⟨hnow, htable⟩ := users_untouched h hdrawn hv hop
  rw [← hacts] at hnow htable
  refine Registry.recordsIn_eq (R := Users.registry) (fun _ _ _ => rfl) h.users hnext.upheld.users
    hr fun id => ?_
  rw [hnow]
  exact Registry.record_congr htable r id _

/-- The event is no other unit's change of users. -/
def Alone (unit : Nat) : World.Event Call → Prop
  | .call other (.change op) => other = unit ∨ ¬ op.ChangesUsers
  | .start _ | .call _ (.ask _) | .sweep | .advance _ => True

/-- The unit forgets what it remembers of users: it starts anew, or it sets out to change them. -/
def Forgetting (unit : Nat) : World.Event Call → Prop
  | .start other => other = unit
  | .call other (.change op) => other = unit ∧ op.ChangesUsers ∧ ¬ op.Reserved
  | .call _ (.ask _) | .sweep | .advance _ => False

theorem current_of_forgetting {w : World} {unit : Nat} {e : World.Event Call}
    (he : Forgetting unit e) : Current (w.step Call.perform e) unit := by
  apply current_of_forgotten
  intro key
  rcases e with other | ⟨other, op | question⟩ | _ | millis
  · obtain rfl : other = unit := he
    have hunit : (w.step Call.perform (.start other)).units other =
      .start "" w.linearizable w.caching := if_pos rfl
    rw [memory, hunit]
    exact QueryCache.find?_forget { enabled := w.caching } key
  · obtain ⟨rfl, hop, hfree⟩ := he
    exact (memory_call w other op.perform) ▸ clears_change hop hfree (w.desk other) key
  · exact he.elim
  · exact he.elim
  · exact he.elim

theorem Current.changed {w : World} {unit : Nat} (hc : Current w unit) (h : Upheld strict w.rows)
    (hstrict : ∀ r, ¬ strict r) {op : Operation} (hv : op.Valid w.rows (drawn w)) {other : Nat}
    (halone : other = unit ∨ ¬ op.ChangesUsers) : Current (w.call other op.perform) unit := by
  have hnext := h.call hv (fun r hr => absurd hr (hstrict r)) other
  by_cases hop : op.ChangesUsers
  · obtain rfl : other = unit := halone.resolve_right fun hnot => hnot hop
    by_cases hreserved : op.Reserved
    · obtain ⟨hrows, husers⟩ := desk_reserved hreserved (w.desk other)
      have hrows : (w.call other op.perform).rows = w.rows := hrows
      refine hc.of_same h hnext.upheld (fun r _ => by rw [hrows]) ?_
      rw [memory_call, husers]
      rfl
    · -- It forgets before it changes anything, so this holds even if the change is refused.
      have hforgets : Forgetting other (.call other (.change op)) := ⟨rfl, hop, hreserved⟩
      exact current_of_forgetting hforgets
  · refine hc.of_same h hnext.upheld (fun r hr => records_other h hstrict hv hop other hr) ?_
    by_cases hunit : unit = other
    · subst hunit
      exact memory_other hop w unit
    · exact memory_call_of_ne hunit op.perform

theorem Current.step {w : World} {unit : Nat} (hc : Current w unit) (h : Upheld strict w.rows)
    (hstrict : ∀ r, ¬ strict r) {e : World.Event Call}
    (hv : e.Forall (·.Valid w.rows (drawn w))) (halone : Alone unit e) :
    Current (w.step Call.perform e) unit := by
  cases e with
  | start other =>
    by_cases hunit : unit = other
    · subst hunit
      have hforgets : Forgetting unit (.start unit) := rfl
      exact current_of_forgetting hforgets
    · refine hc.of_same h h (fun _ _ => rfl) ?_
      have hkept : (w.setUnit other (.start "" w.linearizable w.caching)).units unit =
        w.units unit := if_neg hunit
      exact congrArg (·.users.lookups) hkept
  | call other call =>
    cases call with
    | change op => exact hc.changed h hstrict hv halone
    | ask question =>
      by_cases hunit : unit = other
      · subst hunit
        exact hc.asked question
      · have hrows : (w.call other question.perform).rows = w.rows :=
          rows_ask question (w.desk other)
        have hask : (Call.ask question).Valid w.rows (drawn w) := hv
        have hnext := h.callOf hask hstrict other
        refine hc.of_same h hnext (fun r _ => ?_) (memory_call_of_ne hunit question.perform)
        exact congrArg (RowStore.recordsIn User · .users r) hrows
  | sweep =>
    have hs := w.rows.reclaimed_sweep
    refine hc.of_same h h.sweep (fun r hr => ?_) rfl
    refine Registry.recordsIn_eq (R := Users.registry) (fun _ _ _ => rfl) h.users h.sweep.users hr
      fun id => ?_
    show Users.registry.record w.rows.sweep.2 r id w.rows.sweep.2.now = _
    rw [hs.now]
    exact hs.recordAt_eq (Int.le_refl _) _
  | advance millis =>
    have hle : w.rows.now ≤ w.rows.now + millis := by omega
    refine hc.of_same h (h.later hle) (fun r hr => ?_) rfl
    refine Registry.recordsIn_eq (R := Users.registry) (fun _ _ _ => rfl) h.users
      (h.later hle).users hr fun id => ?_
    exact h.users.lasting r id _ hr hle

/-- No other unit has changed users since the unit last forgot what it remembers of them. -/
def Undisturbed (unit : Nat) : Prop → List (World.Event Call) → Prop
  | calm, [] => calm
  | calm, e :: events => Undisturbed unit (Forgetting unit e ∨ calm ∧ Alone unit e) events

theorem current_run {w : World} {unit : Nat} {calm : Prop} (hc : calm → Current w unit)
    (h : Upheld strict w.rows) (hstrict : ∀ r, ¬ strict r) {events : List (World.Event Call)}
    (hv : ProperCalls w events) (hcalm : Undisturbed unit calm events) :
    Current (w.run Call.perform events) unit := by
  induction events generalizing w calm with
  | nil => exact hc hcalm
  | cons e events ih =>
    obtain ⟨hvalid, hrest⟩ := hv
    refine ih ?_ (h.stepCall hstrict hvalid) hrest hcalm
    rintro (hforgets | ⟨hstill, halone⟩)
    · exact current_of_forgetting hforgets
    · exact (hc hstill).step h hstrict hvalid halone

structure Fresh (w : World) (unit : Nat) : Prop where
  byUsername : ∀ r name, Plain r → NulFree name →
    ¬ Stale w unit (.byUsername r name) (Users.loadByUsername r name)
  byEmail : ∀ (realm : Realm) email, Plain realm.id → NulFree email →
    Stale w unit (.byEmail realm.id email) (Users.loadByEmail realm email) →
    ∃ realm' : Realm, realm'.id = realm.id ∧
      realm'.duplicateEmailsAllowed ≠ realm.duplicateEmailsAllowed ∧
      (memory w unit).find? (.byEmail realm.id email) =
        (Users.loadByEmail realm' email w.rows).toOption

theorem Current.fresh {w : World} {unit : Nat} (hc : Current w unit) : Fresh w unit where
  byUsername r name hr hv := by
    rintro ⟨found, hfound, hwrong⟩
    exact hwrong (hc (.byUsername r name) found ⟨hr, hv⟩ hfound)
  byEmail realm email hr hv := by
    rintro ⟨found, hfound, hwrong⟩
    obtain ⟨realm', hid, hload⟩ := hc (.byEmail realm.id email) found ⟨hr, hv⟩ hfound
    refine ⟨realm', hid, fun hpolicy => hwrong ?_, ?_⟩
    · rw [← hload, Users.loadByEmail, Users.loadByEmail, hid, hpolicy]
    · rw [hload, hfound]
      rfl

end Registries

end IdentityDirectory
