import Linkora.Referral.Program

/-!
# Runs of the referral contract

The two directions of the code registry are inverse to each other, an attribution is
made once, and a wallet pays one reward.  The reward is refused for a tip whose
product with the rate does not fit in `i128`, whatever the share itself is.
-/

namespace Linkora
namespace Referral

open Contract (Address Bytes Env Host Book I128_MAX bookHost signedAt linkora alice bob coin)

/-- What holds of the storage at any time. -/
structure Sound (s : State) : Prop where
  inverse : ∀ code user, s.code.get code = some user ↔ s.codeOf.get user = some code
  referrer_ne : ∀ user referrer, s.referrer.get user = some referrer → referrer ≠ user
  referrer_owner : ∀ user referrer, s.referrer.get user = some referrer →
    ∃ code, s.code.get code = some referrer

/-- What is stored under a code, an owner or a referred wallet stays. -/
structure Keeps (s s' : State) : Prop where
  code : ∀ code user, s.code.get code = some user → s'.code.get code = some user
  codeOf : ∀ user code, s.codeOf.get user = some code → s'.codeOf.get user = some code
  referrer : ∀ user referrer, s.referrer.get user = some referrer →
    s'.referrer.get user = some referrer

theorem Keeps.refl (s : State) : Keeps s s :=
  ⟨fun _ _ h => h, fun _ _ h => h, fun _ _ h => h⟩

theorem Keeps.trans {s t u : State} (h : Keeps s t) (h' : Keeps t u) : Keeps s u :=
  ⟨fun _ _ hc => h'.code _ _ (h.code _ _ hc), fun _ _ hc => h'.codeOf _ _ (h.codeOf _ _ hc),
    fun _ _ hr => h'.referrer _ _ (h.referrer _ _ hr)⟩

/-- Setting a key that has no value keeps every other value. -/
theorem get_set_of_get {κ α : Type} [DecidableEq κ] {s : Store κ α} {k j : κ} {v u : α}
    (hk : s.get k = none) (hj : s.get j = some u) : (s.set k v).get j = some u := by
  have hne : j ≠ k := by
    rintro rfl
    rw [hk] at hj
    cases hj
  rw [Store.get_set_of_ne hne]
  exact hj

section

variable {σ : Type} {host : Host σ} {env : Env} {w w' : World σ} {c : Call}

theorem exec_keeps (he : exec host env w c = .ok w') : Keeps w.store w'.store := by
  cases c with
  | initializeProgram =>
    rw [initializeProgram_ok (World.onStore_eq_ok.mp he).1]
    exact ⟨fun _ _ h => h, fun _ _ h => h, fun _ _ h => h⟩
  | registerCode user code =>
    obtain ⟨hcode, hown, hs⟩ := registerCode_ok (World.onStore_eq_ok.mp he).1
    rw [hs]
    exact ⟨fun _ _ h => get_set_of_get hcode h, fun _ _ h => get_set_of_get hown h,
      fun _ _ h => h⟩
  | registerWithCode user code =>
    obtain ⟨referrer, hnew, -, -, hs⟩ := registerWithCode_ok (World.onStore_eq_ok.mp he).1
    rw [hs]
    exact ⟨fun _ _ h => h, fun _ _ h => h, fun _ _ h => get_set_of_get hnew h⟩
  | claimReward =>
    obtain ⟨-, -, -, -, -, _, _, _, -, -, -, rfl⟩ := claimReward_eq_ok.mp he
    exact ⟨fun _ _ h => h, fun _ _ h => h, fun _ _ h => h⟩
  | setReferralRate =>
    obtain ⟨-, hs⟩ := setReferralRate_ok (World.onStore_eq_ok.mp he).1
    rw [hs]
    exact ⟨fun _ _ h => h, fun _ _ h => h, fun _ _ h => h⟩

/-- A new code and a new owner extend both directions by the same pair. -/
theorem Sound.registerCode {s : State} {user : Address} {code : Bytes} (h : Sound s)
    (hcode : s.code.get code = none) (hown : s.codeOf.get user = none) (e : Event) :
    Sound ({ s with code := s.code.set code user, codeOf := s.codeOf.set user code }.publish
      e) := by
  refine ⟨fun d u => ?_, h.referrer_ne, fun u r hr => ?_⟩
  · show (s.code.set code user).get d = some u ↔ (s.codeOf.set user code).get u = some d
    rw [Store.get_set, Store.get_set]
    by_cases hd : d = code
    · subst hd
      rw [if_pos rfl]
      by_cases hu : u = user
      · rw [if_pos hu, hu]
        exact ⟨fun _ => rfl, fun _ => rfl⟩
      · rw [if_neg hu]
        constructor
        · intro hsome
          exact absurd (Option.some.inj hsome).symm hu
        · intro hsome
          rw [(h.inverse d u).mpr hsome] at hcode
          cases hcode
    · rw [if_neg hd]
      by_cases hu : u = user
      · subst hu
        rw [if_pos rfl]
        constructor
        · intro hsome
          rw [(h.inverse d u).mp hsome] at hown
          cases hown
        · intro hsome
          exact absurd (Option.some.inj hsome).symm hd
      · rw [if_neg hu]
        exact h.inverse d u
  · obtain ⟨d, hd⟩ := h.referrer_owner u r hr
    exact ⟨d, get_set_of_get hcode hd⟩

theorem Sound.registerWithCode {s : State} {user referrer : Address} {code : Bytes}
    (h : Sound s) (hcode : s.code.get code = some referrer) (hne : referrer ≠ user) (e : Event) :
    Sound ({ s with referrer := s.referrer.set user referrer }.publish e) := by
  refine ⟨h.inverse, fun u r hr => ?_, fun u r hr => ?_⟩
  · have hr' : (s.referrer.set user referrer).get u = some r := hr
    rw [Store.get_set] at hr'
    split at hr'
    · rename_i hu
      rw [hu, ← Option.some.inj hr']
      exact hne
    · exact h.referrer_ne u r hr'
  · have hr' : (s.referrer.set user referrer).get u = some r := hr
    rw [Store.get_set] at hr'
    split at hr'
    · exact ⟨code, hcode.trans hr'⟩
    · exact h.referrer_owner u r hr'

theorem exec_sound (h : Sound w.store) (he : exec host env w c = .ok w') : Sound w'.store := by
  cases c with
  | initializeProgram =>
    rw [initializeProgram_ok (World.onStore_eq_ok.mp he).1]
    exact ⟨h.inverse, h.referrer_ne, h.referrer_owner⟩
  | registerCode user code =>
    obtain ⟨hcode, hown, hs⟩ := registerCode_ok (World.onStore_eq_ok.mp he).1
    rw [hs]
    exact h.registerCode hcode hown _
  | registerWithCode user code =>
    obtain ⟨referrer, -, hcode, hne, hs⟩ := registerWithCode_ok (World.onStore_eq_ok.mp he).1
    rw [hs]
    exact h.registerWithCode hcode hne _
  | claimReward =>
    obtain ⟨-, -, -, -, -, _, _, _, -, -, -, rfl⟩ := claimReward_eq_ok.mp he
    exact ⟨h.inverse, h.referrer_ne, h.referrer_owner⟩
  | setReferralRate =>
    obtain ⟨-, hs⟩ := setReferralRate_ok (World.onStore_eq_ok.mp he).1
    rw [hs]
    exact ⟨h.inverse, h.referrer_ne, h.referrer_owner⟩

end

/-! ## Rewards -/

/-- The label is a reward that `user` pays. -/
def paidBy (user : Address) : Option Call → Bool
  | some (.claimReward referred _) => referred == user
  | _ => false

/-- What a call does to the token contracts: a claimed reward is one transfer of the
share at the rate in force, from the referred wallet to its referrer, and nothing else
touches them. -/
def Settles {σ : Type} (host : Host σ) (w w' : World σ) : Call → Prop
  | .claimReward referred tipAmount =>
    ∃ token referrer, w.store.token = some token ∧
      w.store.referrer.get referred = some referrer ∧
      host.transfer w.tokens token referred referrer
        (rewardShare tipAmount (w.store.rate.getD 0)) = some w'.tokens
  | _ => w'.tokens = w.tokens

section

variable {σ : Type} {host : Host σ} {env : Env} {w w' : World σ} {c : Call}

theorem exec_settles (he : exec host env w c = .ok w') : Settles host w w' c := by
  cases c with
  | claimReward =>
    obtain ⟨-, -, -, -, -, referrer, token, _, hreferrer, htoken, htokens, rfl⟩ :=
      claimReward_eq_ok.mp he
    exact ⟨token, referrer, htoken, hreferrer, htokens⟩
  | initializeProgram => exact (World.onStore_eq_ok.mp he).2
  | registerCode => exact (World.onStore_eq_ok.mp he).2
  | registerWithCode => exact (World.onStore_eq_ok.mp he).2
  | setReferralRate => exact (World.onStore_eq_ok.mp he).2

/-- The mark of a wallet is set by its reward and by nothing else, and a wallet that
has the mark pays no other. -/
theorem exec_rewarded (user : Address) (he : exec host env w c = .ok w') :
    (w'.store.rewarded.get user).getD false =
        ((w.store.rewarded.get user).getD false || paidBy user (some c)) ∧
      (paidBy user (some c) = true → (w.store.rewarded.get user).getD false = false) := by
  cases c with
  | claimReward referred tipAmount =>
    obtain ⟨-, -, hnot, -, -, _, _, _, -, -, -, rfl⟩ := claimReward_eq_ok.mp he
    show ((w.store.rewarded.set referred true).get user).getD false = _ ∧ _
    rw [Store.get_set]
    by_cases hu : user = referred
    · subst hu
      rw [if_pos rfl, hnot, paidBy, beq_self_eq_true]
      exact ⟨rfl, fun _ => rfl⟩
    · rw [if_neg hu, paidBy, beq_eq_false_iff_ne.mpr (Ne.symm hu), Bool.or_false]
      exact ⟨rfl, nofun⟩
  | initializeProgram =>
    rw [initializeProgram_ok (World.onStore_eq_ok.mp he).1]
    exact ⟨(Bool.or_false _).symm, nofun⟩
  | registerCode =>
    obtain ⟨-, -, hs⟩ := registerCode_ok (World.onStore_eq_ok.mp he).1
    rw [hs]
    exact ⟨(Bool.or_false _).symm, nofun⟩
  | registerWithCode =>
    obtain ⟨_, -, -, -, hs⟩ := registerWithCode_ok (World.onStore_eq_ok.mp he).1
    rw [hs]
    exact ⟨(Bool.or_false _).symm, nofun⟩
  | setReferralRate =>
    obtain ⟨-, hs⟩ := setReferralRate_ok (World.onStore_eq_ok.mp he).1
    rw [hs]
    exact ⟨(Bool.or_false _).symm, nofun⟩

end

/-! ## Runs -/

section

variable {σ : Type} {host : Host σ} {w₀ w w' : World σ} {acts acts' : List (Option Call)}

theorem run_keeps (h : Run (Step host) w acts w') : Keeps w.store w'.store := by
  refine h.invariant (I := fun v => Keeps w.store v.store) ?_ (Keeps.refl w.store)
  intro a l b ha hstep
  cases hstep with
  | call he => exact ha.trans (exec_keeps he)
  | others => exact ha

theorem run_sound (h : Run (Step host) w₀ acts w) (h₀ : w₀.store = State.empty) :
    Sound w.store := by
  refine h.invariant (I := fun v => Sound v.store) ?_ ?_
  · intro a l b ha hstep
    cases hstep with
    | call he => exact exec_sound ha he
    | others => exact ha
  · rw [h₀]
    exact ⟨fun _ _ => ⟨nofun, nofun⟩, nofun, nofun⟩

/-- The rewards a wallet has paid so far are counted by its mark. -/
theorem run_paid (h : Run (Step host) w₀ acts w) (h₀ : w₀.store = State.empty) (user : Address) :
    acts.countP (paidBy user) = ((w.store.rewarded.get user).getD false).toNat := by
  induction h with
  | nil =>
    rw [h₀]
    rfl
  | @snoc acts b c l hrun hstep ih =>
    rw [List.countP_append, ih, List.countP_singleton]
    cases hstep with
    | @call _ env c he =>
      obtain ⟨hmark, hfirst⟩ := exec_rewarded user he
      rw [hmark]
      cases hp : paidBy user (some c) with
      | false => rw [if_neg (by decide), Bool.or_false, Nat.add_zero]
      | true =>
        rw [hfirst hp]
        rfl
    | others => rfl

end

/-- An account can pay what its balance covers. -/
def PaysFromBalance {σ : Type} (host : Host σ) : Prop :=
  ∀ (t t' : σ) (token sender recipient : Address) (balance x : Int),
    host.balance t token sender = some (balance, t') → 0 < x → x ≤ balance →
      ∃ t'', host.transfer t token sender recipient x = some t''

/-- A tip of a referred wallet that has not paid yet, with a share that is positive and
covered by its balance. -/
structure Claimable {σ : Type} (host : Host σ) (env : Env) (w : World σ) (referred : Address)
    (tipAmount : Int) : Prop where
  auth : env.auth referred = true
  tip_pos : 0 < tipAmount
  tip_le : tipAmount ≤ I128_MAX
  referrer : (w.store.referrer.get referred).isSome = true
  unpaid : (w.store.rewarded.get referred).getD false = false
  share_pos : 0 < rewardShare tipAmount (w.store.rate.getD 0)
  covered : ∃ token balance t, w.store.token = some token ∧
    host.balance w.tokens token referred = some (balance, t) ∧
    rewardShare tipAmount (w.store.rate.getD 0) ≤ balance

theorem Claimable.succeeds_iff {σ : Type} {host : Host σ} {env : Env} {w : World σ}
    {referred : Address} {tipAmount : Int} (h : Claimable host env w referred tipAmount)
    (hpays : PaysFromBalance host) :
    (∃ w', claimReward host env w referred tipAmount = .ok w') ↔
      tipAmount * (w.store.rate.getD 0) ≤ I128_MAX := by
  constructor
  · rintro ⟨w', he⟩
    obtain ⟨-, -, -, hmax, -⟩ := claimReward_eq_ok.mp he
    exact hmax
  · intro hmax
    obtain ⟨referrer, hreferrer⟩ := Option.isSome_iff_exists.mp h.referrer
    obtain ⟨token, balance, t, htoken, hbalance, hle⟩ := h.covered
    obtain ⟨tokens, htokens⟩ :=
      hpays _ _ _ _ referrer _ _ hbalance h.share_pos hle
    exact ⟨_, claimReward_eq_ok.mpr ⟨h.auth, h.tip_pos, h.unpaid, hmax, h.share_pos, referrer,
      token, tokens, hreferrer, htoken, htokens, rfl⟩⟩

/-- Over every run from the deployment: the registry is a pair of inverse maps that only
grow, attributions are made once and to the owner of a code, a wallet pays at most one
reward, each reward is the share at the rate in force, and a claimable reward is paid
exactly when the product of the tip and the rate fits in `i128`. -/
theorem referral_runs {σ : Type} {host : Host σ} {w₀ w w' : World σ}
    {acts acts' : List (Option Call)} (h₀ : w₀.store = State.empty)
    (h : Run (Step host) w₀ acts w) (h' : Run (Step host) w acts' w')
    (hpays : PaysFromBalance host) :
    Sound w.store ∧ Keeps w.store w'.store ∧
      (∀ user, acts.countP (paidBy user) ≤ 1) ∧
      (∀ env c v, exec host env w c = .ok v → Settles host w v c) ∧
      ∀ env referred tipAmount, Claimable host env w referred tipAmount →
        ((∃ v, claimReward host env w referred tipAmount = .ok v) ↔
          tipAmount * (w.store.rate.getD 0) ≤ I128_MAX) := by
  refine ⟨run_sound h h₀, run_keeps h', fun user => ?_, fun env c v he => exec_settles he,
    fun env referred tipAmount hc => hc.succeeds_iff hpays⟩
  rw [run_paid h h₀ user]
  exact Bool.toNat_le _

/-! ## A tip beyond the product

`alice` registers a code, `bob` attributes himself to her and holds `balance` of the
coin that rewards are paid in. -/

/-- Run the calls one after another, each signed by everybody. -/
def replay {σ : Type} (host : Host σ) : List Call → World σ → Option (World σ)
  | [], w => some w
  | c :: rest, w => (exec host (signedAt 1) w c).toOption.bind (replay host rest)

theorem run_of_replay {σ : Type} {host : Host σ} {calls : List Call} {w w' : World σ}
    (h : replay host calls w = some w') : Run (Step host) w (calls.map some) w' := by
  induction calls generalizing w with
  | nil =>
    rw [replay, Option.some.injEq] at h
    exact h ▸ .nil
  | cons c rest ih =>
    obtain ⟨v, hv, h⟩ := Option.bind_eq_some_iff.mp h
    have he : exec host (signedAt 1) w c = .ok v := by
      cases hx : exec host (signedAt 1) w c with
      | ok u =>
        rw [hx] at hv
        exact congrArg _ (Option.some.inj hv)
      | error e =>
        rw [hx] at hv
        cases hv
    exact (Run.single (Step.call he)).trans (ih h)

def fresh (balance : Nat) : World Book := ⟨State.empty, fun _ _ => balance⟩

def referralCode : Bytes := [97, 98, 99]

def attribution : List Call :=
  [.initializeProgram alice coin, .registerCode alice referralCode,
    .registerWithCode bob referralCode]

theorem run_attribution (balance : Nat) :
    ∃ w, Run (Step (bookHost linkora)) (fresh balance) (attribution.map some) w ∧
      w.store.referrer.get bob = some alice ∧ w.store.rewarded.get bob = none ∧
      w.store.rate = some 1000 ∧ w.store.token = some coin ∧
      (bookHost linkora).balance w.tokens coin bob = some ((balance : Int), w.tokens) :=
  ⟨_, run_of_replay rfl, rfl, rfl, rfl, rfl, rfl⟩

theorem paysFromBalance_bookHost (self : Address) : PaysFromBalance (bookHost self) := by
  intro t t' token sender recipient balance x hbalance hpos hle
  obtain ⟨rfl, -⟩ := Prod.mk.inj (Option.some.inj hbalance)
  exact ⟨_, if_pos ⟨hpos.le, hle⟩⟩

/-- A tip is claimable after the attribution when ten percent of it are covered. -/
theorem claimable_attribution {w : World Book} {balance : Nat} {tipAmount : Int}
    (hreferrer : w.store.referrer.get bob = some alice)
    (hrewarded : w.store.rewarded.get bob = none) (hrate : w.store.rate = some 1000)
    (htoken : w.store.token = some coin)
    (hbalance : (bookHost linkora).balance w.tokens coin bob = some ((balance : Int), w.tokens))
    (hpos : 0 < tipAmount) (hmax : tipAmount ≤ I128_MAX) (hshare : 0 < rewardShare tipAmount 1000)
    (hle : rewardShare tipAmount 1000 ≤ balance) :
    Claimable (bookHost linkora) (signedAt 1) w bob tipAmount where
  auth := rfl
  tip_pos := hpos
  tip_le := hmax
  referrer := by rw [hreferrer]; rfl
  unpaid := by rw [hrewarded]; rfl
  share_pos := by rw [hrate]; exact hshare
  covered := ⟨coin, balance, w.tokens, htoken, hbalance, by rw [hrate]; exact hle⟩

/-- The largest tip: its share is positive and covered, and the claim aborts. -/
theorem claimReward_overflows :
    ∃ w, Run (Step (bookHost linkora)) (fresh (2 ^ 127)) (attribution.map some) w ∧
      Claimable (bookHost linkora) (signedAt 1) w bob I128_MAX ∧
      ∀ w', claimReward (bookHost linkora) (signedAt 1) w bob I128_MAX ≠ .ok w' := by
  obtain ⟨w, hrun, hreferrer, hrewarded, hrate, htoken, hbalance⟩ := run_attribution (2 ^ 127)
  have hclaim : Claimable (bookHost linkora) (signedAt 1) w bob I128_MAX :=
    claimable_attribution hreferrer hrewarded hrate htoken hbalance (by decide) (le_refl _)
      (by decide) (by decide)
  refine ⟨w, hrun, hclaim, fun w' hw' => ?_⟩
  have hfits := (hclaim.succeeds_iff (paysFromBalance_bookHost linkora)).mp ⟨w', hw'⟩
  rw [hrate] at hfits
  exact absurd hfits (by decide)

theorem referral_runs_attribution :
    ∃ w w', Run (Step (bookHost linkora)) (fresh 500) (attribution.map some) w ∧
      claimReward (bookHost linkora) (signedAt 1) w bob 5000 = .ok w' ∧
      Sound w.store ∧ ∀ user, (attribution.map some).countP (paidBy user) ≤ 1 := by
  obtain ⟨w, hrun, hreferrer, hrewarded, hrate, htoken, hbalance⟩ := run_attribution 500
  have hclaim : Claimable (bookHost linkora) (signedAt 1) w bob 5000 :=
    claimable_attribution hreferrer hrewarded hrate htoken hbalance (by decide) (by decide)
      (by decide) (by decide)
  obtain ⟨hsound, -, hpaid, -, hiff⟩ :=
    referral_runs rfl hrun .nil (paysFromBalance_bookHost linkora)
  obtain ⟨w', hw'⟩ := (hiff _ _ _ hclaim).mpr (by rw [hrate]; decide)
  exact ⟨w, w', hrun, hw', hsound, hpaid⟩

end Referral
end Linkora
