import Mathlib.Algebra.Order.Ring.Int
import Linkora.Contract.Entry

/-!
# What rent buys

`pay_rent` scales the amount before it divides by the price of a ledger, casts the
number of ledgers to `u32`, and adds it to `LEDGER_BUMP` with saturation.  The validator
admits amounts for which the scaling overflows, and others for which the cast drops the
high bits of the number of ledgers; everywhere else a payment buys what it costs.
-/

namespace Linkora
namespace Contract

/-! ## The price of a ledger -/

/-- The ledgers that `amount` pays for. -/
def paidLedgers (amount : Int) (rentRateBps decimals : Nat) : Int :=
  amount * 10000 / (rentRateBps * 10 ^ decimals)

/-- What should be added to `LEDGER_BUMP`: as much as fits into `u32`. -/
def rentExtension (amount : Int) (rentRateBps decimals : Nat) : Nat :=
  min (U32_MAX - LEDGER_BUMP) (paidLedgers amount rentRateBps decimals).toNat

/-- The calls of `extend_ttl` in `pay_rent`: the keys, each with the lifetime asked for. -/
def rentCalls (s : State) (user : Address) (amount : Int) (decimals : Nat) :
    Except Panic (List (UserKey × Nat)) := do
  let ledgers ← ledgersToExtend amount (getRentRateBps s) decimals
  requireWithError (0 < ledgers) "amount too small for rent rate"
  return (getUserKeys s user).map fun key => (key, rentTargetTtl ledgers)

/-- The scaled amount fits into `i128`, and the cast to `u32` either loses nothing or
leaves a number that saturates all the same. -/
def RentFits (amount : Int) (rentRateBps decimals : Nat) : Prop :=
  amount * 10000 ≤ I128_MAX ∧
    (paidLedgers amount rentRateBps decimals < 2 ^ 32 ∨
      U32_MAX - LEDGER_BUMP ≤ (paidLedgers amount rentRateBps decimals % 2 ^ 32).toNat)

/-- The payment does not overflow, and if it goes through, every key of the user is
extended by what was paid for. -/
structure RentBuys {σ : Type} (host : Host σ) (env : Env) (w : World σ) (user token : Address)
    (amount : Int) (decimals : Nat) : Prop where
  no_overflow : payRent host env w user token amount ≠ .error .overflow
  base_fits : payRent host env w user token amount ≠ .error (.message "decimals overflow")
  extends_all : ∀ w', payRent host env w user token amount = .ok w' →
    rentCalls w.store user amount decimals = .ok ((getUserKeys w.store user).map fun key =>
      (key, LEDGER_BUMP + rentExtension amount (getRentRateBps w.store) decimals))

/-- A rate, decimals and an amount as their setters and validators admit them. -/
structure RentInRange (amount : Int) (rentRateBps decimals : Nat) : Prop where
  positive : 0 < amount
  admitted : amount ≤ MAX_PROTOCOL_AMOUNT
  rate_pos : 0 < rentRateBps
  rate_le : rentRateBps ≤ 10000
  decimals_le : decimals ≤ 18

theorem rentBase_eq {decimals : Nat} (h : decimals ≤ 18) :
    rentBase decimals = .ok (10 ^ decimals) := by
  induction decimals with
  | zero => rfl
  | succ decimals ih =>
    have hle : (10 : Int) ^ (decimals + 1) ≤ 10 ^ 18 := pow_le_pow_right₀ (by decide) h
    have hmax : (10 : Int) ^ 18 ≤ I128_MAX := by decide
    rw [rentBase, Checked.bind_of_ok (ih (by omega)), ← pow_succ, if_pos (hle.trans hmax)]
    rfl

section Price

variable {amount : Int} {rate decimals : Nat}

theorem RentInRange.divisor (h : RentInRange amount rate decimals) :
    0 < (rate * 10 ^ decimals : Int) ∧ (rate * 10 ^ decimals : Int) ≤ I128_MAX := by
  have hrate : (0 : Int) < rate := by exact_mod_cast h.rate_pos
  have hrate' : (rate : Int) ≤ 10000 := by exact_mod_cast h.rate_le
  have hpow : (0 : Int) < 10 ^ decimals := pow_pos (by decide) _
  have hpow' : (10 : Int) ^ decimals ≤ 10 ^ 18 := pow_le_pow_right₀ (by decide) h.decimals_le
  refine ⟨mul_pos hrate hpow, ?_⟩
  calc (rate * 10 ^ decimals : Int) ≤ 10000 * 10 ^ 18 := mul_le_mul hrate' hpow' hpow.le (by decide)
    _ ≤ I128_MAX := by decide

theorem RentInRange.paidLedgers_nonneg (h : RentInRange amount rate decimals) :
    0 ≤ paidLedgers amount rate decimals := by
  have hpos := h.positive
  exact Int.ediv_nonneg (by omega) h.divisor.1.le

theorem ledgersToExtend_eq (h : RentInRange amount rate decimals) :
    ledgersToExtend amount rate decimals =
      if amount * 10000 ≤ I128_MAX then .ok (paidLedgers amount rate decimals)
      else .error .overflow := by
  obtain ⟨hpos, hle⟩ := h.divisor
  have hamount := h.positive
  have hmin : I128_MIN ≤ 0 := by decide
  have hdivisor : i128 (rate * 10 ^ decimals) = .ok (rate * 10 ^ decimals : Int) :=
    if_pos ⟨hmin.trans hpos.le, hle⟩
  rw [ledgersToExtend, Checked.bind_of_ok (rentBase_eq h.decimals_le), Checked.bind_of_ok hdivisor]
  split
  · rename_i hfits
    have hscaled : i128 (amount * 10000) = .ok (amount * 10000) := if_pos ⟨by omega, hfits⟩
    rw [Checked.bind_of_ok hscaled, Int.tdiv_eq_ediv_of_nonneg (by omega)]
    rfl
  · rename_i hover
    have hscaled : i128 (amount * 10000) = .error .overflow := if_neg fun h => hover h.2
    rw [Checked.bind_of_error hscaled]

/-- Where the cast loses nothing that matters, and only there, the lifetime is right. -/
theorem rentTargetTtl_eq_iff {ledgers : Int} (h : 0 ≤ ledgers) :
    rentTargetTtl ledgers = LEDGER_BUMP + min (U32_MAX - LEDGER_BUMP) ledgers.toNat ↔
      ledgers < 2 ^ 32 ∨ U32_MAX - LEDGER_BUMP ≤ (ledgers % 2 ^ 32).toNat := by
  simp only [rentTargetTtl, LEDGER_BUMP, U32_MAX]
  omega

theorem paidLedgers_mono (h : RentInRange amount rate decimals) {more : Int} (hle : amount ≤ more) :
    paidLedgers amount rate decimals ≤ paidLedgers more rate decimals :=
  Int.ediv_le_ediv h.divisor.1 (by omega)

end Price

/-! ## Payments -/

section Payments

variable {σ : Type} {host : Host σ} {env : Env} {w : World σ} {user token : Address} {amount : Int}
  {decimals : Nat} {asked : σ}

/-- A payment extends what it was computed to extend. -/
theorem rentCalls_of_payRent {w' : World σ}
    (hdecimals : host.decimals w.tokens token = some (decimals, asked))
    (h : payRent host env w user token amount = .ok w') :
    ∃ ledgers, ledgersToExtend amount (getRentRateBps w.store) decimals = .ok ledgers ∧
      rentCalls w.store user amount decimals =
        .ok ((getUserKeys w.store user).map fun key => (key, rentTargetTtl ledgers)) := by
  simp only [payRent, hdecimals, tokenCall, Checked.bind_eq_ok] at h
  obtain ⟨_, -, _, -, _, -, _, -, _, -, _, hasked, ledgers, hledgers, _, hpos, -⟩ := h
  obtain rfl := Except.ok.inj hasked
  refine ⟨ledgers, hledgers, ?_⟩
  rw [rentCalls, Checked.bind_of_ok hledgers, Checked.bind_of_ok hpos]
  rfl

/-- The ways in which a payment can go wrong arithmetically. -/
def IsOverflow (e : Panic) : Prop := e = .overflow ∨ e = .message "decimals overflow"

theorem not_isOverflow_message {msg : String} (h : msg ≠ "decimals overflow") :
    ¬IsOverflow (.message msg) := by
  rintro (he | he)
  · cases he
  · exact h (Panic.message.inj he)

theorem tokenCall_avoids {α : Type} (o : Option α) : Checked.Avoids IsOverflow (tokenCall o) := by
  cases o with
  | none => exact .error fun h => h.elim nofun nofun
  | some a => exact .ok a

/-- If the number of ledgers can be computed, the payment does not overflow. -/
theorem payRent_avoids (hdecimals : host.decimals w.tokens token = some (decimals, asked))
    {ledgers : Int}
    (hledgers : ledgersToExtend amount (getRentRateBps w.store) decimals = .ok ledgers) :
    Checked.Avoids IsOverflow (payRent host env w user token amount) := by
  have hmsg : ∀ (cond : Prop) [Decidable cond] (msg : String), msg ≠ "decimals overflow" →
      Checked.Avoids IsOverflow (requireWithError cond msg) :=
    fun cond _ msg h => requireWithError_avoids (not_isOverflow_message h)
  rw [payRent, hdecimals]
  refine .bind (requireAuth_avoids fun h => by rcases h with h | h <;> cases h) fun _ _ => ?_
  refine .bind (hmsg _ _ (by decide)) fun _ _ => .bind (hmsg _ _ (by decide)) fun _ _ => ?_
  refine .bind (.bind (hmsg _ _ (by decide)) fun _ _ => hmsg _ _ (by decide)) fun _ _ => ?_
  refine .bind (hmsg _ _ (by decide)) fun _ _ => ?_
  rw [tokenCall, Checked.bind_of_ok rfl]
  refine .bind (hledgers ▸ .ok ledgers) fun _ _ => .bind (hmsg _ _ (by decide)) fun _ _ => ?_
  refine .bind (expect_avoids (not_isOverflow_message (by decide))) fun _ _ => ?_
  refine .bind (tokenCall_avoids _) fun _ _ => .bind ?_ fun _ _ => .pure _
  exact .bind (hmsg _ _ (by decide)) fun _ _ => .bind (hmsg _ _ (by decide)) fun _ _ => .pure _

/-- Whoever pays an amount that fits buys what it costs. -/
theorem RentFits.buys (hrange : RentInRange amount (getRentRateBps w.store) decimals)
    (hdecimals : host.decimals w.tokens token = some (decimals, asked))
    (hfits : RentFits amount (getRentRateBps w.store) decimals) :
    RentBuys host env w user token amount decimals := by
  have hledgers := ledgersToExtend_eq hrange
  rw [if_pos hfits.1] at hledgers
  have havoids : Checked.Avoids IsOverflow (payRent host env w user token amount) :=
    payRent_avoids hdecimals hledgers
  refine ⟨fun h => havoids _ h (Or.inl rfl), fun h => havoids _ h (Or.inr rfl), fun w' h => ?_⟩
  obtain ⟨ledgers, hledgers', hcalls⟩ := rentCalls_of_payRent hdecimals h
  obtain rfl := Except.ok.inj (hledgers.symm.trans hledgers')
  rw [hcalls, (rentTargetTtl_eq_iff hrange.paidLedgers_nonneg).mpr hfits.2]
  rfl

/-- Everything about a payment is in order but for the amount. -/
structure RentPayable (host : Host σ) (env : Env) (s : State) (asked : σ) (user token : Address)
    (amount : Int) : Prop where
  auth : env.auth user = true
  user_ne : isZeroAddress user = false
  token_ne : isZeroAddress token = false
  profile : ∃ p, s.profiles.profile.get user = some p
  treasury : ∃ treasury paid, s.params.treasury = some treasury ∧
    host.transfer asked token user treasury amount = some paid

theorem RentPayable.payRent_eq (hrange : RentInRange amount (getRentRateBps w.store) decimals)
    (hdecimals : host.decimals w.tokens token = some (decimals, asked))
    (h : RentPayable host env w.store asked user token amount) :
    ∃ w', payRent host env w user token amount = (do
      let ledgers ← ledgersToExtend amount (getRentRateBps w.store) decimals
      requireWithError (0 < ledgers) "amount too small for rent rate"
      return w') := by
  obtain ⟨treasury, paid, htreasury, hpaid⟩ := h.treasury
  obtain ⟨p, hp⟩ := h.profile
  have hauth : requireAuth env user = .ok () := requireAuth_eq_ok.mpr h.auth
  have huser : validateNonDefaultAddress "user" user = .ok () :=
    validateNonDefaultAddress_eq_ok.mpr h.user_ne
  have htoken : validateNonDefaultAddress "token" token = .ok () :=
    validateNonDefaultAddress_eq_ok.mpr h.token_ne
  have hamount : validateAmount "rent amount" amount = .ok () :=
    validateAmount_eq_ok.mpr ⟨hrange.positive, hrange.admitted⟩
  have hrate : requireWithError (0 < getRentRateBps w.store) "rent rate bps must be positive" =
      .ok () := requireWithError_eq_ok.mpr hrange.rate_pos
  have hexpiry : getRentExpiry env w.store user =
      .ok (min (env.sequence + LEDGER_BUMP) U32_MAX) := by
    have hhas : requireWithError (w.store.profiles.profile.has user = true)
        "profile does not exist" = .ok () := requireWithError_eq_ok.mpr (Store.has_of_get hp)
    rw [getRentExpiry, Checked.bind_of_ok huser, Checked.bind_of_ok hhas]
    rfl
  refine ⟨⟨w.store.publish (.rentPaid user user token amount
    (min (env.sequence + LEDGER_BUMP) U32_MAX)), paid⟩, ?_⟩
  rw [payRent, Checked.bind_of_ok hauth, Checked.bind_of_ok huser, Checked.bind_of_ok htoken,
    Checked.bind_of_ok hamount, Checked.bind_of_ok hrate, hdecimals, htreasury]
  show (ledgersToExtend amount (getRentRateBps w.store) decimals >>= fun _ =>
    _ >>= fun _ => tokenCall (host.transfer asked token user treasury amount) >>= fun _ => _) = _
  rw [hpaid, hexpiry]
  rfl

/-- A payment in order that buys what it costs fits. -/
theorem RentBuys.fits (hrange : RentInRange amount (getRentRateBps w.store) decimals)
    (hdecimals : host.decimals w.tokens token = some (decimals, asked))
    (hpayable : RentPayable host env w.store asked user token amount)
    (h : RentBuys host env w user token amount decimals) :
    RentFits amount (getRentRateBps w.store) decimals := by
  obtain ⟨w', heq⟩ := hpayable.payRent_eq hrange hdecimals
  obtain ⟨p, hp⟩ := hpayable.profile
  have hledgers := ledgersToExtend_eq hrange
  by_cases hscaled : amount * 10000 ≤ I128_MAX
  · rw [if_pos hscaled] at hledgers
    refine ⟨hscaled, ?_⟩
    by_cases hsome : 0 < paidLedgers amount (getRentRateBps w.store) decimals
    · have hpos : requireWithError (0 < paidLedgers amount (getRentRateBps w.store) decimals)
          "amount too small for rent rate" = .ok () := requireWithError_eq_ok.mpr hsome
      rw [Checked.bind_of_ok hledgers, Checked.bind_of_ok hpos] at heq
      obtain ⟨ledgers, hledgers', hcalls⟩ := rentCalls_of_payRent hdecimals heq
      obtain rfl := Except.ok.inj (hledgers.symm.trans hledgers')
      rw [h.extends_all w' heq, Except.ok.injEq, List.map_inj_left] at hcalls
      have hprofile : UserKey.profile ∈ getUserKeys w.store user := by
        simp [getUserKeys, hp]
      have httl := (Prod.mk.inj (hcalls _ hprofile)).2
      exact (rentTargetTtl_eq_iff hrange.paidLedgers_nonneg).mp httl.symm
    · exact Or.inl (by omega)
  · rw [if_neg hscaled] at hledgers
    rw [Checked.bind_of_error hledgers] at heq
    exact absurd heq h.no_overflow

end Payments

/-! ## Every rate, every amount -/

/-- A host whose tokens have the given decimals and never refuse a transfer. -/
def easyHost (decimals : Nat) : Host Book :=
  { bookHost linkora with
    transfer := fun b _ _ _ _ => some b
    decimals := fun b _ => some (decimals, b) }

/-- A world with a treasury, one user and the given rent rate. -/
def rentedWorld (rate : Nat) : World Book where
  store := { State.empty with
    params := { State.empty.params with treasury := some bob, rentRateBps := some rate }
    profiles := { State.empty.profiles with
      profile := (∅ : Store Address Profile).set alice ⟨alice, asciiBytes "alice", coin⟩ } }
  tokens := fun _ _ => 0

theorem rentedWorld_payable (rate decimals : Nat) (amount : Int) :
    RentPayable (easyHost decimals) (signedAt 1) (rentedWorld rate).store (rentedWorld rate).tokens
      alice coin amount where
  auth := rfl
  user_ne := by decide
  token_ne := by decide
  profile := ⟨_, Store.get_set_self _ _ _⟩
  treasury := ⟨bob, _, rfl, rfl⟩

theorem rentCalls_mono {amount more : Int} {rate decimals : Nat}
    (h : RentInRange amount rate decimals) (h' : RentInRange more rate decimals)
    (hle : amount ≤ more) (hfits : RentFits amount rate decimals)
    (hfits' : RentFits more rate decimals) {s : State} (hrate : getRentRateBps s = rate)
    {user : Address} {calls calls' : List (UserKey × Nat)}
    (hcalls : rentCalls s user amount decimals = .ok calls)
    (hcalls' : rentCalls s user more decimals = .ok calls') :
    List.Forall₂ (fun c c' => c.1 = c'.1 ∧ c.2 ≤ c'.2) calls calls' := by
  have hledgers := ledgersToExtend_eq h
  have hledgers' := ledgersToExtend_eq h'
  rw [if_pos hfits.1] at hledgers
  rw [if_pos hfits'.1] at hledgers'
  simp only [rentCalls, hrate, hledgers, hledgers', Checked.bind_eq_ok, Checked.pure_eq_ok,
    Except.ok.injEq, exists_eq_left', requireWithError_eq_ok, exists_const] at hcalls hcalls'
  obtain ⟨-, rfl⟩ := hcalls
  obtain ⟨-, rfl⟩ := hcalls'
  have httl : rentTargetTtl (paidLedgers amount rate decimals) ≤
      rentTargetTtl (paidLedgers more rate decimals) := by
    have hmono := paidLedgers_mono h hle
    rw [(rentTargetTtl_eq_iff h.paidLedgers_nonneg).mpr hfits.2,
      (rentTargetTtl_eq_iff h'.paidLedgers_nonneg).mpr hfits'.2]
    omega
  rw [List.forall₂_map_left_iff, List.forall₂_map_right_iff, List.forall₂_same]
  exact fun key _ => ⟨rfl, httl⟩

/-- For every rate, decimals and amount in range, payments buy what they cost, whoever
pays and in whatever state, exactly where the number of ledgers fits; and of two payments
that fit, the larger one extends no key by less. -/
theorem rent_buys_iff {amount : Int} {rate decimals : Nat} (h : RentInRange amount rate decimals) :
    ((∀ (σ : Type) (host : Host σ) (env : Env) (w : World σ) (user token : Address) (asked : σ),
        getRentRateBps w.store = rate → host.decimals w.tokens token = some (decimals, asked) →
        RentBuys host env w user token amount decimals) ↔ RentFits amount rate decimals) ∧
    ∀ more, amount ≤ more → more ≤ MAX_PROTOCOL_AMOUNT → RentFits amount rate decimals →
      RentFits more rate decimals → ∀ s user calls calls', getRentRateBps s = rate →
      rentCalls s user amount decimals = .ok calls → rentCalls s user more decimals = .ok calls' →
      List.Forall₂ (fun c c' => c.1 = c'.1 ∧ c.2 ≤ c'.2) calls calls' := by
  refine ⟨⟨fun hall => ?_, ?_⟩, ?_⟩
  · have hbuys := hall Book (easyHost decimals) (signedAt 1) (rentedWorld rate) alice coin _ rfl rfl
    exact hbuys.fits h rfl (rentedWorld_payable rate decimals amount)
  · rintro hfits σ host env w user token asked rfl hdecimals
    exact hfits.buys h hdecimals
  · intro more hle hmax hfits hfits' s user calls calls' hrate hcalls hcalls'
    have hpos := h.positive
    have h' : RentInRange more rate decimals := { h with positive := by omega, admitted := hmax }
    exact rentCalls_mono h h' hle hfits hfits' hrate hcalls hcalls'

/-- Ten coins of seven decimals at the default rate pay for a thousand ledgers. -/
theorem rent_buys_of_ten_coins :
    RentFits 100000000 100 7 ∧ ∀ (env : Env) (w : World Book) (user : Address),
      getRentRateBps w.store = 100 → RentBuys (bookHost linkora) env w user coin 100000000 7 := by
  have hrange : RentInRange 100000000 100 7 :=
    ⟨by decide, by decide, by decide, by decide, by decide⟩
  have hfits : RentFits 100000000 100 7 := ⟨by decide, Or.inl (by decide)⟩
  refine ⟨hfits, fun env w user hrate => ?_⟩
  exact (rent_buys_iff hrange).1.mpr hfits Book (bookHost linkora) env w user coin _ hrate rfl

/-- A payment of the largest amount overflows, and one for `2 ^ 32` ledgers buys nothing. -/
theorem rent_fails_of_large_amounts :
    ∃ w : World Book, Reachable (bookHost linkora) w ∧
      ¬RentBuys (bookHost linkora) (signedAt 3) w alice coin (10 ^ 36) 7 ∧
      ¬RentBuys (bookHost linkora) (signedAt 3) w alice coin 429496729600000 7 := by
  have hdemo : (demo (fun _ _ _ => True) (fun _ _ => 10 ^ 36)
      [(signedAt 2, .setProfile alice (asciiBytes "alice") coin)]).map
        (fun w => (getRentRateBps w.store, w.store.profiles.profile.get alice,
          w.store.params.treasury, w.tokens coin alice)) =
      some (100, some ⟨alice, asciiBytes "alice", coin⟩, some bob, 10 ^ 36) := by decide
  obtain ⟨w, hw, hsee⟩ := reachable_demo hdemo
  simp only [Prod.mk.injEq] at hsee
  obtain ⟨hrate, hprofile, htreasury, htokens⟩ := hsee
  have hpayable : ∀ amount : Int, 0 ≤ amount ∧ amount ≤ 10 ^ 36 →
      RentPayable (bookHost linkora) (signedAt 3) w.store w.tokens alice coin amount := by
    intro amount hamount
    refine ⟨by decide, by decide, by decide, ⟨_, hprofile⟩, bob, _, htreasury, if_pos ?_⟩
    rw [htokens]
    exact hamount
  have hunfit : ∀ amount : Int, RentInRange amount 100 7 → ¬RentFits amount 100 7 →
      ¬RentBuys (bookHost linkora) (signedAt 3) w alice coin amount 7 := by
    intro amount hrange hnot hbuys
    rw [← hrate] at hrange hnot
    exact hnot (hbuys.fits hrange rfl (hpayable amount ⟨hrange.positive.le, hrange.admitted⟩))
  refine ⟨w, hw.reachable, hunfit _ ?_ ?_, hunfit _ ?_ ?_⟩
  · exact ⟨by decide, by decide, by decide, by decide, by decide⟩
  · exact fun h => absurd h.1 (by decide)
  · exact ⟨by decide, by decide, by decide, by decide, by decide⟩
  · exact fun h => absurd h.2 (by decide)

end Contract
end Linkora
