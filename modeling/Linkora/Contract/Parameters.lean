import Linkora.Contract.Entry

/-!
# Protocol parameters stay in range

The same cells are written by the admin setters and by `gov_execute`.  Every write
path checks its own bound again, so no path relies on a check made earlier.
-/

namespace Linkora
namespace Contract

/-- Every protocol parameter lies in the range its setter enforces. -/
structure ParametersInRange (s : State) : Prop where
  fee : ∃ n, s.params.feeBps = some n ∧ n ≤ 10000
  slash : ∃ n, s.params.moderationSlashBps = some n ∧ n ≤ 10000
  cooldown : ∃ n, s.params.tipCooldownWindow = some n ∧ 1 ≤ n
  rent : 1 ≤ getRentRateBps s ∧ getRentRateBps s ≤ 10000
  treasury : ∃ a, s.params.treasury = some a ∧ isZeroAddress a = false
  config : ∀ c, s.gov.config = some c → c.InRange

namespace ParametersInRange

variable {s s' : State}

/-- The invariant reads the parameter cells and the configuration of governance. -/
theorem congr (h : ParametersInRange s) (hparams : s'.params = s.params)
    (hconfig : s'.gov.config = s.gov.config) : ParametersInRange s' where
  fee := by rw [hparams]; exact h.fee
  slash := by rw [hparams]; exact h.slash
  cooldown := by rw [hparams]; exact h.cooldown
  rent := by rw [getRentRateBps, hparams]; exact h.rent
  treasury := by rw [hparams]; exact h.treasury
  config := by rw [hconfig]; exact h.config

/-- Initialisation sets every cell but the rent rate and the configuration. -/
theorem of_initializeContract {env : Env} {admin treasury : Address} {feeBps : Nat}
    (hrent : 1 ≤ getRentRateBps s ∧ getRentRateBps s ≤ 10000)
    (hconfig : ∀ c, s.gov.config = some c → c.InRange)
    (h : initializeContract env s admin treasury feeBps = .ok s') : ParametersInRange s' := by
  obtain ⟨htreasury, hfee, access, events, rfl⟩ := initializeContract_ok h
  exact ⟨⟨feeBps, rfl, hfee⟩, ⟨0, rfl, by omega⟩, ⟨TIP_COOLDOWN_LEDGERS, rfl, by decide⟩, hrent,
    ⟨treasury, rfl, htreasury⟩, hconfig⟩

/-- Executing a proposal writes a value that has just been checked.  A new quorum
is checked against the floor of the configuration it goes into. -/
theorem applyProposal {config : GovConfig} {p : GovProposal} (h : ParametersInRange s)
    (hconfig : s.gov.config = some config) (ha : applyProposal s config p = .ok s') :
    ParametersInRange s' := by
  have hr := h.config config hconfig
  unfold Contract.applyProposal at ha
  cases hparam : p.parameter with
  | feeBps =>
    simp only [hparam, Checked.bind_eq_ok, Checked.pure_eq_ok, validateU32Range_eq_ok,
      exists_const] at ha
    obtain ⟨⟨-, hle⟩, rfl⟩ := ha
    exact { h with fee := ⟨_, rfl, hle⟩ }
  | treasury =>
    simp only [hparam, Checked.bind_eq_ok, Checked.pure_eq_ok, expect_eq_ok,
      validateNonDefaultAddress_eq_ok, exists_const] at ha
    obtain ⟨addr, -, hzero, rfl⟩ := ha
    exact { h with treasury := ⟨addr, rfl, hzero⟩ }
  | tipCooldownWindow =>
    simp only [hparam, Checked.bind_eq_ok, Checked.pure_eq_ok, validateU32Range_eq_ok,
      exists_const] at ha
    obtain ⟨⟨hone, -⟩, rfl⟩ := ha
    exact { h with cooldown := ⟨_, rfl, hone⟩ }
  | govQuorum =>
    simp only [hparam, Checked.bind_eq_ok, Checked.pure_eq_ok, validateU32Range_eq_ok,
      requireWithError_eq_ok, exists_const] at ha
    obtain ⟨⟨hone, hle⟩, hfloor, rfl⟩ := ha
    refine { h with config := fun c hc => ?_ }
    obtain rfl := Option.some.inj hc
    exact { hr with quorum_pos := hone, quorum_le := hle, floor_le := hfloor }
  | govTimeLock =>
    simp only [hparam, Checked.bind_eq_ok, Checked.pure_eq_ok, validateU32Range_eq_ok,
      exists_const] at ha
    obtain ⟨⟨hone, -⟩, rfl⟩ := ha
    refine { h with config := fun c hc => ?_ }
    obtain rfl := Option.some.inj hc
    exact { hr with timeLock_pos := hone }
  | govVoteWindow =>
    simp only [hparam, Checked.bind_eq_ok, Checked.pure_eq_ok, validateU32Range_eq_ok,
      exists_const] at ha
    obtain ⟨⟨hone, -⟩, rfl⟩ := ha
    refine { h with config := fun c hc => ?_ }
    obtain rfl := Option.some.inj hc
    exact { hr with voteWindow_pos := hone }
  | moderationSlashBps =>
    simp only [hparam, Checked.bind_eq_ok, Checked.pure_eq_ok, validateU32Range_eq_ok,
      exists_const] at ha
    obtain ⟨⟨-, hle⟩, rfl⟩ := ha
    exact { h with slash := ⟨_, rfl, hle⟩ }

/-- No call takes a parameter out of its range. -/
theorem exec {σ : Type} {host : Host σ} {env : Env} {w w' : World σ} {c : Call}
    (h : ParametersInRange w.store) (he : exec host env w c = .ok w') :
    ParametersInRange w'.store := by
  cases c with
  | initializeContract admin treasury feeBps =>
    exact of_initializeContract h.rent h.config (World.onStore_eq_ok.mp he).1
  | setFee admin feeBps =>
    obtain ⟨hle, events, hs⟩ := setFee_ok (World.onStore_eq_ok.mp he).1
    rw [hs]
    exact { h with fee := ⟨feeBps, rfl, hle⟩ }
  | setTreasury admin treasury =>
    obtain ⟨hzero, events, hs⟩ := setTreasury_ok (World.onStore_eq_ok.mp he).1
    rw [hs]
    exact { h with treasury := ⟨treasury, rfl, hzero⟩ }
  | setTipCooldownWindow admin cooldownLedgers =>
    obtain ⟨hone, hs⟩ := setTipCooldownWindow_ok (World.onStore_eq_ok.mp he).1
    rw [hs]
    exact { h with cooldown := ⟨cooldownLedgers, rfl, hone⟩ }
  | setRentRateBps admin rate =>
    obtain ⟨hlo, hhi, hs⟩ := setRentRateBps_ok (World.onStore_eq_ok.mp he).1
    rw [hs]
    exact { h with rent := ⟨hlo, hhi⟩ }
  | govInitConfig =>
    obtain ⟨hr, hs⟩ := govInitConfig_ok (World.onStore_eq_ok.mp he).1
    rw [hs]
    refine { h with config := fun c hc => ?_ }
    obtain rfl := Option.some.inj hc
    exact hr
  | govExecute proposalId =>
    obtain ⟨config, p, t, hconfig, -, -, -, ht, hs⟩ :=
      govExecute_ok (World.onStore_eq_ok.mp he).1
    rw [hs]
    exact (h.applyProposal hconfig ht).congr rfl rfl
  | _ =>
    have hparams : w.store.SameOn w'.store .params := exec_frame he (by simp [Call.parts])
    exact h.congr hparams (exec_config he (by simp) (by simp))

theorem of_reachable {σ : Type} {host : Host σ} {w : World σ} (h : Reachable host w) :
    ParametersInRange w.store := by
  refine h.store_invariant ?_ (fun w env c w' hw he => hw.exec he)
  intro s env admin treasury feeBps hs
  refine ParametersInRange.of_initializeContract (by decide) (fun c hc => ?_) hs
  cases hc

end ParametersInRange

/-- In every state reachable from initialisation by any sequence of entry points
the protocol parameters are in range. -/
theorem parameters_in_range {σ : Type} {host : Host σ} {w : World σ} (h : Reachable host w) :
    ParametersInRange w.store :=
  .of_reachable h

theorem parameters_in_range_after_setFee :
    ∃ w, Reachable (bookHost linkora) w ∧ w.store.params.feeBps = some 300 ∧
      ParametersInRange w.store := by
  have hrun : (demo (fun _ _ _ => True) (fun _ _ => 0)
      [(signedAt 2, .setFee alice 300), (signedAt 3, .govInitConfig alice 60 10 20 0 30)]).map
        (fun w => w.store.params.feeBps) = some (some 300) := by decide
  obtain ⟨w, hw, hfee⟩ := reachable_demo hrun
  exact ⟨w, hw.reachable, hfee, parameters_in_range hw.reachable⟩

end Contract
end Linkora
