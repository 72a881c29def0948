import Linkora.Contract.Deadlines

/-!
# The quorum decays

The approval that `gov_execute` asks for starts at the configured quorum and falls with
the age of the proposal, down to the floor of the configuration.
-/

namespace Linkora
namespace Contract

/-! ## The quorum as a function of the age -/

namespace GovConfig

/-- The quorum of a proposal that is `elapsed` ledgers old. -/
def quorumAfter (c : GovConfig) (elapsed : Nat) : Nat :=
  max c.quorumFloor (c.quorum - min c.quorum (elapsed * c.quorumDecayRateBps / 10000))

variable {c : GovConfig}

theorem quorumFloor_le_quorumAfter (elapsed : Nat) : c.quorumFloor ≤ c.quorumAfter elapsed :=
  Nat.le_max_left _ _

theorem quorumAfter_le_quorum (h : c.quorumFloor ≤ c.quorum) (elapsed : Nat) :
    c.quorumAfter elapsed ≤ c.quorum :=
  Nat.max_le.mpr ⟨h, Nat.sub_le _ _⟩

theorem quorumAfter_antitone {elapsed elapsed' : Nat} (h : elapsed ≤ elapsed') :
    c.quorumAfter elapsed' ≤ c.quorumAfter elapsed := by
  have hdecay : elapsed * c.quorumDecayRateBps / 10000 ≤
      elapsed' * c.quorumDecayRateBps / 10000 :=
    Nat.div_le_div_right (Nat.mul_le_mul_right _ h)
  unfold quorumAfter
  omega

end GovConfig

section

variable {env env' : Env} {s s' : State} {id : Nat} {config : GovConfig} {p p' : GovProposal}

/-- Neither the product nor the cast to `u32` loses anything. -/
theorem effectiveQuorum_eq (hrange : config.InRange) (hconfig : s.gov.config = some config)
    (hp : s.gov.proposal.get id = some p) (henv : env.sequence ≤ U32_MAX) :
    effectiveQuorum env s id = .ok (config.quorumAfter (env.sequence - p.createdLedger)) := by
  have helapsed : env.sequence - p.createdLedger ≤ U32_MAX := le_trans (Nat.sub_le _ _) henv
  have hproduct : (env.sequence - p.createdLedger) * config.quorumDecayRateBps ≤
      U32_MAX * 10000 := Nat.mul_le_mul helapsed hrange.decay_le
  have hdecay : (env.sequence - p.createdLedger) * config.quorumDecayRateBps / 10000 % 2 ^ 32 =
      (env.sequence - p.createdLedger) * config.quorumDecayRateBps / 10000 := by
    refine Nat.mod_eq_of_lt ?_
    have hle := Nat.div_le_div_right (c := 10000) hproduct
    rw [Nat.mul_div_cancel _ (by decide)] at hle
    exact Nat.lt_of_le_of_lt hle (by decide)
  rw [effectiveQuorum, Checked.bind_of_ok (expect_eq_ok.mpr hconfig),
    Checked.bind_of_ok (expect_eq_ok.mpr hp),
    Checked.bind_of_ok (u64_eq_ok.mpr ⟨le_trans hproduct (by decide), rfl⟩), hdecay]
  refine congrArg Except.ok ?_
  unfold GovConfig.quorumAfter
  split
  · omega
  · omega

/-- The approval test passes for a share of the votes that reaches the quorum. -/
theorem requireApproval_iff (hrange : config.InRange) (hconfig : s.gov.config = some config)
    (hp : s.gov.proposal.get id = some p) (henv : env.sequence ≤ U32_MAX) :
    requireApproval env s id p = .ok () ↔
      p.votesFor + p.votesAgainst ≤ U32_MAX ∧ 0 < p.votesFor + p.votesAgainst ∧
      config.quorumAfter (env.sequence - p.createdLedger) ≤
        p.votesFor * 100 / (p.votesFor + p.votesAgainst) := by
  simp only [requireApproval, effectiveQuorum_eq hrange hconfig hp henv, Checked.bind_eq_ok,
    requireWithError_eq_ok, u32_eq_ok, exists_const]
  constructor
  · rintro ⟨_, ⟨hfits, rfl⟩, hpos, _, hq, hle⟩
    obtain rfl := Except.ok.inj hq
    exact ⟨hfits, hpos, hle⟩
  · rintro ⟨hfits, hpos, hle⟩
    exact ⟨_, ⟨hfits, rfl⟩, hpos, _, rfl, hle⟩

/-- A proposal that had the approval keeps it, under the same votes and configuration. -/
theorem requireApproval_later (hrange : config.InRange) (hconfig : s.gov.config = some config)
    (hconfig' : s'.gov.config = some config) (hp : s.gov.proposal.get id = some p)
    (hp' : s'.gov.proposal.get id = some p') (hcreated : p'.createdLedger = p.createdLedger)
    (hfor : p'.votesFor = p.votesFor) (hagainst : p'.votesAgainst = p.votesAgainst)
    (hle : env.sequence ≤ env'.sequence) (henv' : env'.sequence ≤ U32_MAX)
    (h : requireApproval env s id p = .ok ()) : requireApproval env' s' id p' = .ok () := by
  obtain ⟨hfits, hpos, hquorum⟩ :=
    (requireApproval_iff hrange hconfig hp (le_trans hle henv')).mp h
  refine (requireApproval_iff hrange hconfig' hp' henv').mpr ?_
  rw [hcreated, hfor, hagainst]
  have hage : env.sequence - p.createdLedger ≤ env'.sequence - p.createdLedger :=
    Nat.sub_le_sub_right hle _
  exact ⟨hfits, hpos, le_trans (GovConfig.quorumAfter_antitone hage) hquorum⟩

/-- What `gov_execute` executes has passed the approval test. -/
theorem approved_of_govExecute (hp : s.gov.proposal.get id = some p)
    (h : govExecute env s id = .ok s') : requireApproval env s id p = .ok () := by
  rw [govExecute_eq] at h
  simp only [concludeProposal, Checked.bind_eq_ok, expect_eq_ok] at h
  obtain ⟨-, -, -, -, -, -, q, hq, -, -, -, -, -, -, -, -, -, -, _, happroval, -⟩ := h
  obtain rfl := Option.some.inj (hq.symm.trans hp)
  exact happroval

/-- The failures of the approval test. -/
def Panic.disapproves (e : Panic) : Prop :=
  e = .message "no votes cast" ∨ e = .message "quorum not met"

instance (e : Panic) : Decidable e.disapproves := inferInstanceAs (Decidable (_ ∨ _))

/-- `gov_execute` does not turn down a proposal that passes the test. -/
theorem govExecute_avoids_disapproval (hs : s.gov.InType) (hp : s.gov.proposal.get id = some p)
    (h : requireApproval env s id p = .ok ()) :
    Checked.Avoids Panic.disapproves (govExecute env s id) := by
  refine govExecute_avoids hs (by decide) (by decide) (fun _ _ _ => u32_avoids (by decide)) ?_
  intro config q hat
  obtain rfl := Option.some.inj (hat.stored.symm.trans hp)
  unfold concludeProposal
  refine .bind (requireWithError_avoids (by decide)) fun _ _ => ?_
  rw [Checked.bind_of_ok h]
  exact .bind (applyProposal_avoids (by decide) config q) fun _ _ => .pure _

end

/-! ## Over a run -/

/-- For every configuration that can be stored, every proposal and every ledger:
`effective_quorum` lies between the floor and the quorum, is given by its formula over the
unbounded integers, and never rises.  So a proposal that passes the approval test of
`gov_execute`, at whatever ledger of whatever run, passes it at every later ledger, as
long as its votes and the configuration are what they were. -/
theorem quorum_decays {σ : Type} {host : Host σ} {w : World σ} (hw : Reachable host w) {id : Nat}
    {config : GovConfig} {p : GovProposal} (hconfig : w.store.gov.config = some config)
    (hp : w.store.gov.proposal.get id = some p) :
    (∀ env, env.sequence ≤ U32_MAX → ∃ q, effectiveQuorum env w.store id = .ok q ∧
      config.quorumFloor ≤ q ∧ q ≤ config.quorum ∧
      q = max config.quorumFloor (config.quorum - min config.quorum
        ((env.sequence - p.createdLedger) * config.quorumDecayRateBps / 10000)) ∧
      ∀ env', env.sequence ≤ env'.sequence → env'.sequence ≤ U32_MAX →
        ∃ q', effectiveQuorum env' w.store id = .ok q' ∧ q' ≤ q) ∧
    (∀ env s', govExecute env w.store id = .ok s' → requireApproval env w.store id p = .ok ()) ∧
    ∀ acts w' p', Run (Step host) w acts w' → w'.store.gov.config = some config →
      w'.store.gov.proposal.get id = some p' → p'.status = .active →
      p'.votesFor = p.votesFor → p'.votesAgainst = p.votesAgainst →
      ∀ env env', env.sequence ≤ env'.sequence → env'.sequence ≤ U32_MAX →
        requireApproval env w.store id p = .ok () →
        requireApproval env' w'.store id p' = .ok () ∧
          ∀ e, govExecute env' w'.store id = .error e → ¬e.disapproves := by
  have hrange : config.InRange := (ParametersInRange.of_reachable hw).config config hconfig
  refine ⟨fun env henv => ?_, fun env s' h => approved_of_govExecute hp h, ?_⟩
  · refine ⟨_, effectiveQuorum_eq hrange hconfig hp henv,
      GovConfig.quorumFloor_le_quorumAfter _,
      GovConfig.quorumAfter_le_quorum hrange.floor_le _, rfl, fun env' hle henv' => ?_⟩
    exact ⟨_, effectiveQuorum_eq hrange hconfig hp henv',
      GovConfig.quorumAfter_antitone (Nat.sub_le_sub_right hle _)⟩
  · intro acts w' p' hrun hconfig' hp' _ hfor hagainst env env' hle henv' happroval
    obtain ⟨q, hq, hlater⟩ := (run_later (.of_reachable hw) hrun id).2 p hp
    obtain rfl := Option.some.inj (hq.symm.trans hp')
    have hcreated : q.createdLedger = p.createdLedger := by rw [hlater.fixed]
    have hkept := requireApproval_later hrange hconfig hconfig' hp hp' hcreated hfor hagainst hle
      henv' happroval
    exact ⟨hkept, govExecute_avoids_disapproval (.of_reachable (hw.run hrun)) hp' hkept⟩

/-- The proposal that `quorum_decays_to_a_third` looks at, with one vote of three for it. -/
def divisive : GovProposal where
  id := 1
  proposer := carol
  parameter := .feeBps
  newValue := 300
  newAddress := none
  votesFor := 1
  votesAgainst := 2
  createdLedger := 5
  timeLockLedgers := 10
  status := .active
  expiryLedgers := 0
  metadata := none

/-- A quorum of 60 that loses 30 in 60 ledgers lets a third of the votes pass, and goes on
to do so. -/
theorem quorum_decays_to_a_third :
    ∃ w : World Book, Reachable (bookHost linkora) w ∧
      w.store.gov.proposal.get 1 = some divisive ∧
      (∃ q, effectiveQuorum (signedAt 65) w.store 1 = .ok q ∧
        ∃ q', effectiveQuorum (signedAt 100) w.store 1 = .ok q' ∧ q' ≤ q) ∧
      requireApproval (signedAt 100) w.store 1 divisive = .ok () := by
  have hdemo : (demo (fun _ _ _ => True) (fun _ _ => 0)
      [(signedAt 2, .govInitConfig alice 60 10 20 5000 30),
        (signedAt 5, .govPropose carol .feeBps 300 none none),
        (signedAt 6, .govVote carol 1 true), (signedAt 7, .govVote alice 1 false),
        (signedAt 8, .govVote bob 1 false)]).map
        (fun w => (w.store.gov.config, w.store.gov.proposal.get 1,
          (requireApproval (signedAt 65) w.store 1 divisive).toOption)) =
      some (some ⟨60, 10, 20, 5000, 30, 0⟩, some divisive, some ()) := by decide
  obtain ⟨w, hw, hsee⟩ := reachable_demo hdemo
  simp only [Prod.mk.injEq] at hsee
  obtain ⟨hconfig, hp, happroval⟩ := hsee
  obtain ⟨hquorum, -, hkept⟩ := quorum_decays hw.reachable hconfig hp
  obtain ⟨q, hq, -, -, -, hfall⟩ := hquorum (signedAt 65) (by decide)
  exact ⟨w, hw.reachable, hp, ⟨q, hq, hfall (signedAt 100) (by decide) (by decide)⟩,
    (hkept [] w divisive .nil hconfig hp rfl rfl rfl (signedAt 65) (signedAt 100) (by decide)
      (by decide) (toOption_eq_some.mp happroval)).1⟩

end Contract
end Linkora
