import Linkora.Contract.Pools
import Linkora.Contract.Tips

/-!
# Protocol parameters and governance

The admin setters of the protocol parameters, and the proposal cycle that can
change the same cells by vote.
-/

namespace Linkora
namespace Contract

def getTreasury (s : State) : Option Address := s.params.treasury

def setFee (env : Env) (s : State) (admin : Address) (feeBps : Nat) : Except Panic State := do
  requireAuth env admin
  validateNonDefaultAddress "admin" admin
  requireRole s admin .admin
  validateProtocolFee feeBps
  requireNotPaused s .governance
  requireWithError (feeBps ≤ 10000) "invalid fee"
  return ({ s with params := { s.params with feeBps := some feeBps } }.publish
    (.feeUpdated "fee_upd" (getFeeBps s) feeBps)).publish (.emergencyBypass "set_fee")

def setTreasury (env : Env) (s : State) (admin treasury : Address) : Except Panic State := do
  requireAuth env admin
  validateNonDefaultAddress "admin" admin
  requireRole s admin .admin
  validateNonDefaultAddress "treasury" treasury
  requireNotPaused s .governance
  let oldTreasury ← expect (getTreasury s) "treasury not set"
  return ({ s with params := { s.params with treasury := some treasury } }.publish
    (.treasuryUpdated "treas_upd" oldTreasury treasury)).publish (.emergencyBypass "set_tres")

def setTipCooldownWindow (env : Env) (s : State) (admin : Address) (cooldownLedgers : Nat) :
    Except Panic State := do
  requireAuth env admin
  validateNonDefaultAddress "admin" admin
  requireRole s admin .admin
  validateU32Range "cooldown_ledgers" cooldownLedgers 1 U32_MAX
  requireNotPaused s .tips
  requireWithError (0 < cooldownLedgers) "cooldown must be positive"
  return { s with params := { s.params with tipCooldownWindow := some cooldownLedgers } }

def govInitConfig (env : Env) (s : State) (admin : Address)
    (quorum timeLockLedgers voteWindowLedgers quorumDecayRateBps quorumFloor : Nat) :
    Except Panic State := do
  requireAuth env admin
  validateNonDefaultAddress "admin" admin
  requireRole s admin .admin
  validateU32Range "quorum" quorum 1 MAX_QUORUM
  validateU32Range "time_lock_ledgers" timeLockLedgers 1 U32_MAX
  validateU32Range "vote_window_ledgers" voteWindowLedgers 1 U32_MAX
  requireWithError (quorumFloor ≤ quorum) "floor must be <= quorum"
  validateU32Range "quorum_decay_rate_bps" quorumDecayRateBps 0 MAX_FEE_BPS
  let config : GovConfig :=
    { quorum, timeLockLedgers, voteWindowLedgers, quorumDecayRateBps, quorumFloor
      proposalExpiryLedgers := 0 }
  return { s with gov := { s.gov with config := some config } }

/-! ## Proposing -/

/-- The range a proposed value has to lie in, by parameter. -/
def validateProposal (parameter : GovParameter) (newValue : Nat) (newAddress : Option Address) :
    Except Panic Unit :=
  match parameter with
  | .feeBps | .moderationSlashBps => validateU32Range "new_value" newValue 0 MAX_FEE_BPS
  | .govQuorum => validateU32Range "new_value" newValue 1 MAX_QUORUM
  | .govTimeLock | .govVoteWindow | .tipCooldownWindow =>
    validateU32Range "new_value" newValue 1 U32_MAX
  | .treasury =>
    requireWithError (newAddress.isSome = true) "treasury proposals require new_address"

def validateMetadata (meta_ : ProposalMetadata) : Except Panic Unit := do
  requireWithError (meta_.title ≠ [] ∧ meta_.title.length ≤ 100)
    "proposal title must be 1-100 characters"
  requireWithError (meta_.description ≠ [] ∧ meta_.description.length ≤ 1000)
    "proposal description must be 1-1000 characters"
  requireWithError (∀ rationale ∈ meta_.rationale, rationale ≠ [] ∧ rationale.length ≤ 5000)
    "proposal rationale must be 1-5000 characters"

def validateOptional {α : Type} (o : Option α) (check : α → Except Panic Unit) :
    Except Panic Unit :=
  match o with
  | some a => check a
  | none => .ok ()

def govPropose (env : Env) (s : State) (proposer : Address) (parameter : GovParameter)
    (newValue : Nat) (newAddress : Option Address) (metadata : Option ProposalMetadata) :
    Except Panic (Nat × State) := do
  requireNotPaused s .governance
  requireAuth env proposer
  validateNonDefaultAddress "proposer" proposer
  requireWithError (newValue ≤ U32_MAX) "new_value must fit in u32"
  validateProposal parameter newValue newAddress
  validateOptional newAddress (validateNonDefaultAddress "new_address")
  validateOptional metadata validateMetadata
  let config ← expect s.gov.config "governance not configured"
  let id ← u64 (s.gov.proposalCount.getD 0 + 1)
  let proposal : GovProposal :=
    { id, proposer, parameter, newValue, newAddress
      votesFor := 0, votesAgainst := 0
      createdLedger := env.sequence
      timeLockLedgers := config.timeLockLedgers
      status := .active
      expiryLedgers := config.proposalExpiryLedgers
      metadata }
  let gov := { s.gov with
    proposal := s.gov.proposal.set id proposal
    proposalCount := some id }
  return (id, { s with gov }.publish (.govProposalCreated id proposer parameter newValue))

/-! ## Voting -/

def countVote (p : GovProposal) (support : Bool) : Except Panic GovProposal := do
  if support then
    let votesFor ← u32 (p.votesFor + 1)
    return { p with votesFor }
  else
    let votesAgainst ← u32 (p.votesAgainst + 1)
    return { p with votesAgainst }

def govVote (env : Env) (s : State) (voter : Address) (proposalId : Nat) (support : Bool) :
    Except Panic State := do
  requireNotPaused s .governance
  requireAuth env voter
  validateNonDefaultAddress "voter" voter
  requireWithError (0 < proposalId) "proposal id must be positive"
  let config ← expect s.gov.config "governance not configured"
  let proposal ← expect (s.gov.proposal.get proposalId) "proposal not found"
  requireWithError (proposal.status = .active) "proposal not active"
  let voteDeadline ← u32 (proposal.createdLedger + config.voteWindowLedgers)
  requireWithError (env.sequence ≤ voteDeadline) "vote window closed"
  requireWithError (s.gov.vote.has (proposalId, voter) = false) "already voted"
  let proposal ← countVote proposal support
  let gov := { s.gov with
    vote := s.gov.vote.set (proposalId, voter) true
    proposal := s.gov.proposal.set proposalId proposal }
  return { s with gov }.publish (.govVote proposalId voter support)

def govDelegate (env : Env) (s : State) (delegator delegate : Address) : Except Panic State := do
  requireNotPaused s .governance
  requireAuth env delegator
  validateNonDefaultAddress "delegator" delegator
  validateNonDefaultAddress "delegate" delegate
  requireWithError (delegator ≠ delegate) "cannot delegate to self"
  return { s with gov := { s.gov with delegation := s.gov.delegation.set delegator delegate } }

def govRevokeDelegation (env : Env) (s : State) (delegator : Address) : Except Panic State := do
  requireAuth env delegator
  validateNonDefaultAddress "delegator" delegator
  return { s with gov := { s.gov with delegation := s.gov.delegation.remove delegator } }

/-! ## Executing -/

def effectiveQuorum (env : Env) (s : State) (proposalId : Nat) : Except Panic Nat := do
  let config ← expect s.gov.config "governance not configured"
  let proposal ← expect (s.gov.proposal.get proposalId) "proposal not found"
  let elapsed := env.sequence - proposal.createdLedger
  let product ← u64 (elapsed * config.quorumDecayRateBps)
  let decay := product / 10000 % 2 ^ 32
  let decayedQuorum := config.quorum - decay
  return if decayedQuorum < config.quorumFloor then config.quorumFloor else decayedQuorum

/-- The parameter match of `gov_execute`.  The stored value is cast to `u32` and
validated again before it is written. -/
def applyProposal (s : State) (config : GovConfig) (p : GovProposal) : Except Panic State :=
  let val := p.newValue % 2 ^ 32
  match p.parameter with
  | .feeBps => do
    validateU32Range "fee_bps" val 0 MAX_FEE_BPS
    return { s with params := { s.params with feeBps := some val } }
  | .treasury => do
    let addr ← expect p.newAddress "treasury proposal missing new_address"
    validateNonDefaultAddress "new_address" addr
    return { s with params := { s.params with treasury := some addr } }
  | .tipCooldownWindow => do
    validateU32Range "cooldown_ledgers" val 1 U32_MAX
    return { s with params := { s.params with tipCooldownWindow := some val } }
  | .govQuorum => do
    validateU32Range "quorum" val 1 MAX_QUORUM
    requireWithError (config.quorumFloor ≤ val) "quorum must be >= quorum_floor"
    return { s with gov := { s.gov with config := some { config with quorum := val } } }
  | .govTimeLock => do
    validateU32Range "time_lock_ledgers" val 1 U32_MAX
    return { s with gov := { s.gov with config := some { config with timeLockLedgers := val } } }
  | .govVoteWindow => do
    validateU32Range "vote_window_ledgers" val 1 U32_MAX
    return { s with gov := { s.gov with config := some { config with voteWindowLedgers := val } } }
  | .moderationSlashBps => do
    validateU32Range "moderation_slash_bps" val 0 MAX_FEE_BPS
    return { s with params := { s.params with moderationSlashBps := some val } }

def govExecute (env : Env) (s : State) (proposalId : Nat) : Except Panic State := do
  requireNotPaused s .governance
  requireWithError (0 < proposalId) "proposal id must be positive"
  let config ← expect s.gov.config "governance not configured"
  let proposal ← expect (s.gov.proposal.get proposalId) "proposal not found"
  requireWithError (proposal.status = .active) "proposal not active"
  let voteEnd ← u32 (proposal.createdLedger + config.voteWindowLedgers)
  let executionAfter ← u64 (voteEnd + proposal.timeLockLedgers)
  requireWithError (executionAfter ≤ env.sequence) "time-lock not expired"
  requireWithError
    (0 < proposal.expiryLedgers → env.sequence < proposal.createdLedger + proposal.expiryLedgers)
    "proposal has expired"
  let totalVotes ← u32 (proposal.votesFor + proposal.votesAgainst)
  requireWithError (0 < totalVotes) "no votes cast"
  let approvalPct := proposal.votesFor * 100 / totalVotes
  let effQuorum ← effectiveQuorum env s proposalId
  requireWithError (effQuorum ≤ approvalPct) "quorum not met"
  let s ← applyProposal s config proposal
  let gov := { s.gov with
    proposal := s.gov.proposal.set proposalId { proposal with status := .executed } }
  return { s with gov }.publish
    (.govProposalExecuted proposalId proposal.parameter proposal.newValue)

def govVeto (env : Env) (s : State) (signers : List Address) (poolId : Symbol)
    (proposalId : Nat) : Except Panic State := do
  requireNotPaused s .governance
  validateAddressList "signers" signers
  requireWithError (0 < proposalId) "proposal id must be positive"
  let config ← expect s.gov.config "governance not configured"
  let proposal ← expect (s.gov.proposal.get proposalId) "proposal not found"
  requireWithError (proposal.status = .active) "proposal not active"
  let voteEnd ← u32 (proposal.createdLedger + config.voteWindowLedgers)
  let timeLockEnd ← u32 (voteEnd + config.timeLockLedgers)
  requireWithError (voteEnd ≤ env.sequence ∧ env.sequence < timeLockEnd)
    "veto only during time-lock window"
  let pool ← expect (s.pools.get poolId) "pool not found"
  requireSigners env pool signers
  let gov := { s.gov with
    proposal := s.gov.proposal.set proposalId { proposal with status := .vetoed } }
  return { s with gov }.publish (.govProposalVetoed proposalId)

/-! ## What a successful call says -/

theorem setFee_ok {env : Env} {s s' : State} {admin : Address} {feeBps : Nat}
    (h : setFee env s admin feeBps = .ok s') :
    feeBps ≤ MAX_FEE_BPS ∧ ∃ events,
      s' = { s with params := { s.params with feeBps := some feeBps }, events } := by
  simp only [setFee, Checked.bind_eq_ok, Checked.pure_eq_ok, validateProtocolFee_eq_ok,
    exists_const] at h
  obtain ⟨-, -, -, -, -, -, hfee, -, -, -, -, rfl⟩ := h
  exact ⟨hfee, _, rfl⟩

theorem setTreasury_ok {env : Env} {s s' : State} {admin treasury : Address}
    (h : setTreasury env s admin treasury = .ok s') :
    isZeroAddress treasury = false ∧ ∃ events,
      s' = { s with params := { s.params with treasury := some treasury }, events } := by
  simp only [setTreasury, Checked.bind_eq_ok, Checked.pure_eq_ok, validateNonDefaultAddress_eq_ok,
    exists_const] at h
  obtain ⟨-, -, -, -, -, hzero, -, -, -, -, rfl⟩ := h
  exact ⟨hzero, _, rfl⟩

theorem setTipCooldownWindow_ok {env : Env} {s s' : State} {admin : Address}
    {cooldownLedgers : Nat} (h : setTipCooldownWindow env s admin cooldownLedgers = .ok s') :
    1 ≤ cooldownLedgers ∧
      s' = { s with params := { s.params with tipCooldownWindow := some cooldownLedgers } } := by
  simp only [setTipCooldownWindow, Checked.bind_eq_ok, Checked.pure_eq_ok,
    validateU32Range_eq_ok, exists_const] at h
  obtain ⟨-, -, -, -, -, -, ⟨hone, -⟩, -, -, -, -, rfl⟩ := h
  exact ⟨hone, rfl⟩

/-- The bounds `gov_init_config` checks. -/
structure GovConfig.InRange (c : GovConfig) : Prop where
  quorum_pos : 1 ≤ c.quorum
  quorum_le : c.quorum ≤ MAX_QUORUM
  floor_le : c.quorumFloor ≤ c.quorum
  timeLock_pos : 1 ≤ c.timeLockLedgers
  voteWindow_pos : 1 ≤ c.voteWindowLedgers
  decay_le : c.quorumDecayRateBps ≤ MAX_FEE_BPS

theorem govInitConfig_ok {env : Env} {s s' : State} {admin : Address}
    {quorum timeLockLedgers voteWindowLedgers quorumDecayRateBps quorumFloor : Nat}
    (h : govInitConfig env s admin quorum timeLockLedgers voteWindowLedgers quorumDecayRateBps
      quorumFloor = .ok s') :
    GovConfig.InRange ⟨quorum, timeLockLedgers, voteWindowLedgers, quorumDecayRateBps,
      quorumFloor, 0⟩ ∧
    s' = { s with gov := { s.gov with config := some ⟨quorum, timeLockLedgers,
      voteWindowLedgers, quorumDecayRateBps, quorumFloor, 0⟩ } } := by
  simp only [govInitConfig, Checked.bind_eq_ok, Checked.pure_eq_ok, validateU32Range_eq_ok,
    requireWithError_eq_ok, exists_const] at h
  obtain ⟨-, -, -, -, -, -, ⟨hq, hq'⟩, ⟨ht, -⟩, ⟨hv, -⟩, hf, ⟨-, hd⟩, rfl⟩ := h
  exact ⟨⟨hq, hq', hf, ht, hv, hd⟩, rfl⟩

theorem govPropose_ok {env : Env} {s : State} {proposer : Address} {parameter : GovParameter}
    {newValue : Nat} {newAddress : Option Address} {metadata : Option ProposalMetadata}
    {r : Nat × State}
    (h : govPropose env s proposer parameter newValue newAddress metadata = .ok r) :
    newValue ≤ U32_MAX ∧ ∃ config, s.gov.config = some config ∧
    ∃ p : GovProposal, p = ⟨s.gov.proposalCount.getD 0 + 1, proposer, parameter, newValue,
        newAddress, 0, 0, env.sequence, config.timeLockLedgers, .active,
        config.proposalExpiryLedgers, metadata⟩ ∧
      r = (p.id, { s with gov := { s.gov with
        proposal := s.gov.proposal.set p.id p
        proposalCount := some p.id } }.publish
          (.govProposalCreated p.id proposer parameter newValue)) := by
  simp only [govPropose, Checked.bind_eq_ok, Checked.pure_eq_ok, requireWithError_eq_ok,
    expect_eq_ok, u64_eq_ok, exists_const] at h
  obtain ⟨-, -, -, -, -, -, hvalue, -, -, -, -, -, -, config, hconfig, -, ⟨-, rfl⟩, rfl⟩ := h
  exact ⟨hvalue, config, hconfig, _, rfl, rfl⟩

theorem countVote_ok {p q : GovProposal} {support : Bool} (h : countVote p support = .ok q) :
    q.votesFor + q.votesAgainst = p.votesFor + p.votesAgainst + 1 ∧
      q = { p with votesFor := q.votesFor, votesAgainst := q.votesAgainst } := by
  unfold countVote at h
  cases support
  · simp only [Bool.false_eq_true, if_false, Checked.bind_eq_ok, Checked.pure_eq_ok,
      u32_eq_ok] at h
    obtain ⟨-, ⟨-, rfl⟩, rfl⟩ := h
    refine ⟨?_, rfl⟩
    show p.votesFor + (p.votesAgainst + 1) = p.votesFor + p.votesAgainst + 1
    omega
  · simp only [if_true, Checked.bind_eq_ok, Checked.pure_eq_ok, u32_eq_ok] at h
    obtain ⟨-, ⟨-, rfl⟩, rfl⟩ := h
    refine ⟨?_, rfl⟩
    show p.votesFor + 1 + p.votesAgainst = p.votesFor + p.votesAgainst + 1
    omega

theorem govVote_ok {env : Env} {s s' : State} {voter : Address} {proposalId : Nat}
    {support : Bool} (h : govVote env s voter proposalId support = .ok s') :
    ∃ config p q, s.gov.config = some config ∧ s.gov.proposal.get proposalId = some p ∧
      p.status = .active ∧ env.sequence ≤ p.createdLedger + config.voteWindowLedgers ∧
      s.gov.vote.get (proposalId, voter) = none ∧ countVote p support = .ok q ∧
      s' = { s with gov := { s.gov with
        vote := s.gov.vote.set (proposalId, voter) true
        proposal := s.gov.proposal.set proposalId q } }.publish
          (.govVote proposalId voter support) := by
  simp only [govVote, Checked.bind_eq_ok, Checked.pure_eq_ok, requireWithError_eq_ok,
    expect_eq_ok, u32_eq_ok, Store.has_eq_false_iff, exists_const] at h
  obtain ⟨-, -, -, -, -, -, -, config, hconfig, p, hp, hactive, -, ⟨-, rfl⟩, hle, hfree, q, hq,
    rfl⟩ := h
  exact ⟨config, p, q, hconfig, hp, hactive, hle, hfree, hq, rfl⟩

theorem govDelegate_ok {env : Env} {s s' : State} {delegator delegate : Address}
    (h : govDelegate env s delegator delegate = .ok s') :
    ∃ delegation, s' = { s with gov := { s.gov with delegation } } := by
  simp only [govDelegate, Checked.bind_eq_ok, Checked.pure_eq_ok] at h
  obtain ⟨-, -, -, -, -, -, -, -, -, -, rfl⟩ := h
  exact ⟨_, rfl⟩

theorem govRevokeDelegation_ok {env : Env} {s s' : State} {delegator : Address}
    (h : govRevokeDelegation env s delegator = .ok s') :
    s' = { s with gov := { s.gov with
      delegation := s.gov.delegation.remove delegator } } := by
  simp only [govRevokeDelegation, Checked.bind_eq_ok, Checked.pure_eq_ok] at h
  obtain ⟨-, -, -, -, rfl⟩ := h
  rfl

/-- What executing a proposal writes, up to its status. -/
theorem applyProposal_ok {s t : State} {config : GovConfig} {p : GovProposal}
    (h : applyProposal s config p = .ok t) :
    ∃ params config, t = { s with params, gov := { s.gov with config } } ∧
      params.rentRateBps = s.params.rentRateBps := by
  unfold applyProposal at h
  cases hp : p.parameter <;>
    · simp only [hp, Checked.bind_eq_ok, Checked.pure_eq_ok] at h
      obtain ⟨_, _, h⟩ := h
      first
      | exact ⟨_, _, h.symm, rfl⟩
      | (obtain ⟨_, _, h⟩ := h; exact ⟨_, _, h.symm, rfl⟩)

theorem govExecute_ok {env : Env} {s s' : State} {proposalId : Nat}
    (h : govExecute env s proposalId = .ok s') :
    ∃ config p t, s.gov.config = some config ∧ s.gov.proposal.get proposalId = some p ∧
      p.status = .active ∧
      p.createdLedger + config.voteWindowLedgers + p.timeLockLedgers ≤ env.sequence ∧
      applyProposal s config p = .ok t ∧
      s' = { t with gov := { t.gov with
        proposal := t.gov.proposal.set proposalId { p with status := .executed } } }.publish
          (.govProposalExecuted proposalId p.parameter p.newValue) := by
  simp only [govExecute, Checked.bind_eq_ok, Checked.pure_eq_ok, requireWithError_eq_ok,
    expect_eq_ok, u32_eq_ok, u64_eq_ok, exists_const] at h
  obtain ⟨-, -, -, config, hconfig, p, hp, hactive, -, ⟨-, rfl⟩, -, ⟨-, rfl⟩, hle, -, -, -, -, -,
    -, -, t, ht, rfl⟩ := h
  exact ⟨config, p, t, hconfig, hp, hactive, hle, ht, rfl⟩

theorem govVeto_eq_ok {env : Env} {s s' : State} {signers : List Address} {poolId : Symbol}
    {proposalId : Nat} :
    govVeto env s signers poolId proposalId = .ok s' ↔
      Running s .governance ∧ (signers ≠ [] ∧ ∀ a ∈ signers, isZeroAddress a = false) ∧
      0 < proposalId ∧ ∃ config, s.gov.config = some config ∧
      ∃ p, s.gov.proposal.get proposalId = some p ∧ p.status = .active ∧
      p.createdLedger + config.voteWindowLedgers ≤ U32_MAX ∧
      p.createdLedger + config.voteWindowLedgers + config.timeLockLedgers ≤ U32_MAX ∧
      (p.createdLedger + config.voteWindowLedgers ≤ env.sequence ∧
        env.sequence < p.createdLedger + config.voteWindowLedgers + config.timeLockLedgers) ∧
      ∃ pool, s.pools.get poolId = some pool ∧ requireSigners env pool signers = .ok () ∧
      { s with gov := { s.gov with
        proposal := s.gov.proposal.set proposalId { p with status := .vetoed } } }.publish
          (.govProposalVetoed proposalId) = s' := by
  simp only [govVeto, Checked.bind_eq_ok, Checked.pure_eq_ok, requireNotPaused_eq_ok,
    validateAddressList_eq_ok, requireWithError_eq_ok, expect_eq_ok, u32_eq_ok, exists_const]
  constructor
  · rintro ⟨hrun, hsig, hid, config, hconfig, p, hp, hact, -, ⟨he, rfl⟩, -, ⟨hl, rfl⟩, hwin, pool,
      hpool, _, hreq, rfl⟩
    exact ⟨hrun, hsig, hid, config, hconfig, p, hp, hact, he, hl, hwin, pool, hpool, hreq, rfl⟩
  · rintro ⟨hrun, hsig, hid, config, hconfig, p, hp, hact, he, hl, hwin, pool, hpool, hreq, rfl⟩
    exact ⟨hrun, hsig, hid, config, hconfig, p, hp, hact, _, ⟨he, rfl⟩, _, ⟨hl, rfl⟩, hwin, pool,
      hpool, _, hreq, rfl⟩

end Contract
end Linkora
