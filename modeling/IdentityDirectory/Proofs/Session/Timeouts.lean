import IdentityDirectory.Session.Expiration
import Mathlib.Order.MinMax

/-!
When sessions end, compared under different policies. Main statement: longer timeouts, later instants
and looser limits never make a session end earlier, and the limits of a client never make it end later
(`expiration_monotone`). Sums that stop at the ends of the clock are compared like any others.
-/

namespace IdentityDirectory

namespace Time

variable {x y : Int}

theorem clamp_mono (h : x ≤ y) : clamp x ≤ clamp y := by
  simp only [clamp]
  omega

theorem ofSeconds_mono (h : x ≤ y) : ofSeconds x ≤ ofSeconds y :=
  clamp_mono (Int.mul_le_mul_of_nonneg_right h (by decide))

end Time

/-- No timeout of the realm is longer than the other's, and a lifespan that the other realm puts on
offline sessions this one puts on them too. -/
structure RealmTimeouts.Stricter (realm realm' : RealmTimeouts) : Prop where
  idle : realm.ssoSessionIdleTimeout ≤ realm'.ssoSessionIdleTimeout
  lifespan : realm.ssoSessionMaxLifespan ≤ realm'.ssoSessionMaxLifespan
  idleRememberMe : realm.ssoSessionIdleTimeoutRememberMe ≤ realm'.ssoSessionIdleTimeoutRememberMe
  lifespanRememberMe : realm.ssoSessionMaxLifespanRememberMe ≤ realm'.ssoSessionMaxLifespanRememberMe
  offlineIdle : realm.offlineSessionIdleTimeout ≤ realm'.offlineSessionIdleTimeout
  offlineLifespan : realm.offlineSessionMaxLifespan ≤ realm'.offlineSessionMaxLifespan
  offlineLifespanEnabled :
    realm'.offlineSessionMaxLifespanEnabled → realm.offlineSessionMaxLifespanEnabled

theorem RealmTimeouts.Stricter.refl (realm : RealmTimeouts) : realm.Stricter realm :=
  ⟨Int.le_refl _, Int.le_refl _, Int.le_refl _, Int.le_refl _, Int.le_refl _, Int.le_refl _, id⟩

namespace SessionTimes

structure Earlier (times times' : SessionTimes) : Prop where
  started : times.started ≤ times'.started
  lastRefresh : times.lastRefresh ≤ times'.lastRefresh
  rememberMe : times.rememberMe → times'.rememberMe
  offline : times'.offline = times.offline

theorem Earlier.refl (times : SessionTimes) : times.Earlier times :=
  ⟨Int.le_refl _, Int.le_refl _, id, rfl⟩

def idleLimit (realm : RealmTimeouts) (client : Option ClientTimeouts) : Bool → Option Int
  | true => client.bind fun c =>
    clientLimit c.offlineSessionIdleTimeout realm.clientOfflineSessionIdleTimeout
  | false => client.bind fun c => clientLimit c.sessionIdleTimeout realm.clientSessionIdleTimeout

def lifespanLimit (realm : RealmTimeouts) (client : Option ClientTimeouts) : Bool → Option Int
  | true => client.bind fun c =>
    clientLimit c.offlineSessionMaxLifespan realm.clientOfflineSessionMaxLifespan
  | false => client.bind fun c => clientLimit c.sessionMaxLifespan realm.clientSessionMaxLifespan

/-- The second limit is absent or at least as large as the first, which then is there. -/
def Loosens (limit limit' : Option Int) : Prop := ∀ l' ∈ limit', ∃ l ∈ limit, l ≤ l'

instance (limit limit' : Option Int) : Decidable (Loosens limit limit') :=
  inferInstanceAs (Decidable (∀ _ ∈ _, ∃ _ ∈ _, _))

variable {realm realm' : RealmTimeouts} {client client' : Option ClientTimeouts}
  {times times' : SessionTimes} {limit limit' : Option Int}
  {start start' seconds seconds' expires expires' : Int}

theorem loosens_none (limit : Option Int) : Loosens limit none := nofun

theorem after_mono (hstart : start ≤ start') (hseconds : seconds ≤ seconds') :
    after start seconds ≤ after start' seconds' :=
  Time.clamp_mono (Int.add_le_add hstart (Time.ofSeconds_mono hseconds))

theorem remembered_mono {flag flag' : Bool} {value value' : Int} (hseconds : seconds ≤ seconds')
    (hvalue : value ≤ value') (hflag : flag → flag') :
    remembered seconds value flag ≤ remembered seconds' value' flag' := by
  have hleast : seconds' ≤ remembered seconds' value' flag' := by
    rw [remembered]
    split <;> omega
  rw [remembered]
  split
  · next hset =>
    obtain ⟨hset, hpositive⟩ := Bool.and_eq_true_iff.mp hset
    have hset' : (flag' && 0 < value') = true := by
      simp only [Bool.and_eq_true, decide_eq_true_eq] at hpositive ⊢
      exact ⟨hflag hset, by omega⟩
    rw [remembered, if_pos hset']
    omega
  · exact Int.le_trans hseconds hleast

theorem limitedTo_le (limit : Option Int) (start expires : Int) :
    limitedTo limit start expires ≤ expires := by
  cases limit with
  | none => exact Int.le_refl _
  | some l => exact Int.min_le_left _ _

theorem limitedTo_mono (hlimit : Loosens limit limit') (hstart : start ≤ start')
    (hexpires : expires ≤ expires') :
    limitedTo limit start expires ≤ limitedTo limit' start' expires' := by
  cases limit' with
  | none => exact Int.le_trans (limitedTo_le _ _ _) hexpires
  | some l' =>
    obtain ⟨l, rfl, hle⟩ := hlimit l' rfl
    have hafter : after start l ≤ after start' l' := after_mono hstart hle
    simp only [limitedTo]
    omega

theorem onlineExpiration_mono (hrealm : realm.Stricter realm') (htimes : times.Earlier times')
    (hidle : Loosens (idleLimit realm client false) (idleLimit realm' client' false))
    (hlifespan : Loosens (lifespanLimit realm client false) (lifespanLimit realm' client' false)) :
    onlineExpiration realm client times ≤ onlineExpiration realm' client' times' := by
  apply min_le_min
  · apply limitedTo_mono hidle htimes.lastRefresh
    apply after_mono htimes.lastRefresh
    exact remembered_mono hrealm.idle hrealm.idleRememberMe htimes.rememberMe
  · apply limitedTo_mono hlifespan htimes.started
    apply after_mono htimes.started
    exact remembered_mono hrealm.lifespan hrealm.lifespanRememberMe htimes.rememberMe

theorem offlineExpiration_mono (hrealm : realm.Stricter realm') (htimes : times.Earlier times')
    (hidle : Loosens (idleLimit realm client true) (idleLimit realm' client' true))
    (hlifespan : Loosens (lifespanLimit realm client true) (lifespanLimit realm' client' true)) :
    offlineExpiration realm client times ≤ offlineExpiration realm' client' times' := by
  have hidleEnd :
      limitedTo (idleLimit realm client true) times.lastRefresh
          (after times.lastRefresh realm.offlineSessionIdleTimeout) ≤
        limitedTo (idleLimit realm' client' true) times'.lastRefresh
          (after times'.lastRefresh realm'.offlineSessionIdleTimeout) :=
    limitedTo_mono hidle htimes.lastRefresh (after_mono htimes.lastRefresh hrealm.offlineIdle)
  have hlifespanEnd :
      limitedTo (lifespanLimit realm client true) times.started
          (after times.started realm.offlineSessionMaxLifespan) ≤
        limitedTo (lifespanLimit realm' client' true) times'.started
          (after times'.started realm'.offlineSessionMaxLifespan) :=
    limitedTo_mono hlifespan htimes.started (after_mono htimes.started hrealm.offlineLifespan)
  rw [offlineExpiration, offlineExpiration]
  by_cases henabled' : realm'.offlineSessionMaxLifespanEnabled
  · rw [if_pos henabled', if_pos (hrealm.offlineLifespanEnabled henabled')]
    exact min_le_min hidleEnd hlifespanEnd
  · rw [if_neg henabled']
    split
    · exact Int.le_trans (Int.min_le_left _ _) hidleEnd
    · exact hidleEnd

theorem expiration_le_of_loosened (hrealm : realm.Stricter realm') (htimes : times.Earlier times')
    (hidle : Loosens (idleLimit realm client times.offline)
      (idleLimit realm' client' times.offline))
    (hlifespan : Loosens (lifespanLimit realm client times.offline)
      (lifespanLimit realm' client' times.offline)) :
    expiration realm client times ≤ expiration realm' client' times' := by
  rw [expiration, expiration, htimes.offline]
  cases hoffline : times.offline with
  | false =>
    rw [hoffline] at hidle hlifespan
    exact onlineExpiration_mono hrealm htimes hidle hlifespan
  | true =>
    rw [hoffline] at hidle hlifespan
    exact offlineExpiration_mono hrealm htimes hidle hlifespan

/-- Sessions end no earlier under longer timeouts, at later instants and with looser limits, and with
a client no later than without one. -/
theorem expiration_monotone :
    (∀ (realm realm' : RealmTimeouts) (client client' : Option ClientTimeouts)
        (times times' : SessionTimes), realm.Stricter realm' → times.Earlier times' →
        Loosens (idleLimit realm client times.offline) (idleLimit realm' client' times.offline) →
        Loosens (lifespanLimit realm client times.offline)
          (lifespanLimit realm' client' times.offline) →
        expiration realm client times ≤ expiration realm' client' times') ∧
      ∀ (realm : RealmTimeouts) (client : ClientTimeouts) (times : SessionTimes),
        expiration realm (some client) times ≤ expiration realm none times := by
  refine ⟨fun _ _ _ _ _ _ => expiration_le_of_loosened, fun realm client times => ?_⟩
  apply expiration_le_of_loosened (.refl realm) (.refl times)
  · cases times.offline <;> exact loosens_none _
  · cases times.offline <;> exact loosens_none _

theorem expiration_monotone_at_latest :
    let realm : RealmTimeouts := { clientSessionIdleTimeout := 300 }
    let realm' : RealmTimeouts := { realm with ssoSessionIdleTimeoutRememberMe := 86400 }
    let client : ClientTimeouts := { sessionMaxLifespan := some (-1) }
    let client' : ClientTimeouts := { sessionIdleTimeout := some 0 }
    let times : SessionTimes := { started := Time.latest - 7, lastRefresh := Time.latest - 2000000 }
    let times' : SessionTimes := { times with started := Time.latest, rememberMe := true }
    expiration realm (some client) times = Time.latest - 1700000 ∧
      expiration realm none times = Time.latest - 200000 ∧
      expiration realm' (some client') times' = Time.latest ∧
      expiration realm (some client) times ≤ expiration realm' (some client') times' ∧
      expiration realm (some client) times ≤ expiration realm none times := by
  intro realm realm' client client' times times'
  have hrealm : realm.Stricter realm' := by
    constructor <;> decide
  have htimes : times.Earlier times' := by
    constructor <;> decide
  have hidle : Loosens (idleLimit realm (some client) times.offline)
      (idleLimit realm' (some client') times.offline) := by decide
  have hlifespan : Loosens (lifespanLimit realm (some client) times.offline)
      (lifespanLimit realm' (some client') times.offline) := by decide
  exact ⟨by decide, by decide, by decide,
    expiration_monotone.1 realm realm' (some client) (some client') times times' hrealm htimes hidle
      hlifespan,
    expiration_monotone.2 realm client times⟩

end SessionTimes

end IdentityDirectory
