import Linkora.Contract.Parameters
import Linkora.Contract.Proposals

/-!
# The deadlines of a proposal

`gov_vote`, `gov_execute` and `gov_veto` compute where voting ends by adding the vote
window to the ledger of the proposal in `u32`, and `gov_veto` adds the time lock in
`u32` again.  A window is only checked to be positive, so the sums may leave the type,
and the call aborts without a word.
-/

namespace Linkora
namespace Contract

/-! ## The stages of `gov_execute` -/

/-- The approval test. -/
def requireApproval (env : Env) (s : State) (proposalId : Nat) (p : GovProposal) :
    Except Panic Unit := do
  let totalVotes ← u32 (p.votesFor + p.votesAgainst)
  requireWithError (0 < totalVotes) "no votes cast"
  let effQuorum ← effectiveQuorum env s proposalId
  requireWithError (effQuorum ≤ p.votesFor * 100 / totalVotes) "quorum not met"

/-- What is left to do once the time lock has expired. -/
def concludeProposal (env : Env) (s : State) (proposalId : Nat) (config : GovConfig)
    (p : GovProposal) : Except Panic State := do
  requireWithError (0 < p.expiryLedgers → env.sequence < p.createdLedger + p.expiryLedgers)
    "proposal has expired"
  requireApproval env s proposalId p
  let s ← applyProposal s config p
  let gov := { s.gov with
    proposal := s.gov.proposal.set proposalId { p with status := .executed } }
  return { s with gov }.publish (.govProposalExecuted proposalId p.parameter p.newValue)

theorem govExecute_eq (env : Env) (s : State) (proposalId : Nat) :
    govExecute env s proposalId = (do
      requireNotPaused s .governance
      requireWithError (0 < proposalId) "proposal id must be positive"
      let config ← expect s.gov.config "governance not configured"
      let p ← expect (s.gov.proposal.get proposalId) "proposal not found"
      requireWithError (p.status = .active) "proposal not active"
      let voteEnd ← u32 (p.createdLedger + config.voteWindowLedgers)
      let executionAfter ← u64 (voteEnd + p.timeLockLedgers)
      requireWithError (executionAfter ≤ env.sequence) "time-lock not expired"
      concludeProposal env s proposalId config p) := by
  simp only [govExecute, concludeProposal, requireApproval, bind_assoc]

/-! ## The failures that have a text -/

def rangeFailure (label : String) (min max : Nat) : Panic :=
  .message s!"{label} must be between {min} and {max}"

def zeroFailure (label : String) : Panic := .message s!"{label} must not be the zero address"

def emptyFailure (label : String) : Panic := .message s!"{label} cannot be empty"

/-- The ways every call on a proposal may fail before it looks at a deadline. -/
def proposalFailures : List Panic :=
  [.message "contract is paused", .message "module is paused",
    .message "proposal id must be positive", .message "governance not configured",
    .message "proposal not found", .message "proposal not active"]

def voteFailures (voter : Address) : List Panic :=
  proposalFailures ++
    [.unauthorized voter, zeroFailure "voter",
      .message "vote window closed", .message "already voted"]

/-- The ways a proposal may fail to be applied. -/
def applyFailures : List Panic :=
  [rangeFailure "fee_bps" 0 MAX_FEE_BPS, .message "treasury proposal missing new_address",
    zeroFailure "new_address", rangeFailure "cooldown_ledgers" 1 U32_MAX,
    rangeFailure "quorum" 1 MAX_QUORUM, .message "quorum must be >= quorum_floor",
    rangeFailure "time_lock_ledgers" 1 U32_MAX, rangeFailure "vote_window_ledgers" 1 U32_MAX,
    rangeFailure "moderation_slash_bps" 0 MAX_FEE_BPS]

/-- The ways `gov_execute` may fail once the time lock has expired. -/
def concludeFailures : List Panic :=
  [.message "governance not configured", .message "proposal not found",
    .message "proposal has expired", .message "no votes cast", .message "quorum not met"] ++
    applyFailures

def executeFailures : List Panic :=
  proposalFailures ++ .message "time-lock not expired" :: concludeFailures

def vetoFailures (signers : List Address) : List Panic :=
  proposalFailures ++
    [emptyFailure "signers", .message "veto only during time-lock window",
      .message "pool not found", .message "insufficient signers",
      .message "unauthorized signer"] ++
    signers.map .unauthorized ++
    (List.range signers.length).map fun i => .message s!"signers[{i}] must not be the zero address"

/-! ## What is asked of the deadlines -/

/-- A call on the proposal gets as far as its deadlines. -/
structure State.AtDeadline (s : State) (id : Nat) (config : GovConfig) (p : GovProposal) :
    Prop where
  running : Running s .governance
  positive : 0 < id
  config : s.gov.config = some config
  stored : s.gov.proposal.get id = some p
  active : p.status = .active

/-- The calls on the proposal fail in the ways that have a text only, and where voting is
over a veto comes too late exactly when `gov_execute` finds the time lock expired. -/
structure DeadlinesHold (s : State) (id : Nat) : Prop where
  vote : ∀ env voter support e, env.sequence ≤ U32_MAX →
    govVote env s voter id support = .error e → e ∈ voteFailures voter
  execute : ∀ env e, env.sequence ≤ U32_MAX →
    govExecute env s id = .error e → e ∈ executeFailures
  veto : ∀ env signers poolId e, env.sequence ≤ U32_MAX →
    govVeto env s signers poolId id = .error e → e ∈ vetoFailures signers
  sameEnd : ∀ env config p signers poolId, env.sequence ≤ U32_MAX → s.AtDeadline id config p →
    signers ≠ [] → (∀ a ∈ signers, isZeroAddress a = false) →
    p.createdLedger + config.voteWindowLedgers ≤ env.sequence →
    (govVeto env s signers poolId id = .error (.message "veto only during time-lock window") ↔
      govExecute env s id ≠ .error (.message "time-lock not expired"))

/-- The sums of the proposal are `u32` values, and its time lock is still the configured
one. -/
structure GovProposal.DeadlinesFit (p : GovProposal) (config : GovConfig) : Prop where
  ends : p.createdLedger + config.voteWindowLedgers + config.timeLockLedgers ≤ U32_MAX
  lock : p.timeLockLedgers = config.timeLockLedgers
  votesFor : p.votesFor < U32_MAX
  votesAgainst : p.votesAgainst < U32_MAX
  total : p.votesFor + p.votesAgainst ≤ U32_MAX

/-! ## The failures of the checks -/

section Avoids

variable {bad : Panic → Prop}

theorem validateAddressList_avoids {label : String} {l : List Address}
    (h : ¬bad (.message s!"{label} cannot be empty"))
    (h' : ∀ i, i < l.length → ¬bad (.message s!"{label}[{i}] must not be the zero address")) :
    Checked.Avoids bad (validateAddressList label l) := by
  unfold validateAddressList
  refine .bind (requireWithError_avoids h) fun _ _ => .forM fun p hp => ?_
  exact requireWithError_avoids (h' p.2 (List.snd_lt_of_mem_zipIdx hp))

theorem requireSigners_avoids {env : Env} {pool : Pool} {signers : List Address}
    (h : ¬bad (.message "insufficient signers")) (h' : ¬bad (.message "unauthorized signer"))
    (ha : ∀ a ∈ signers, ¬bad (.unauthorized a)) :
    Checked.Avoids bad (requireSigners env pool signers) := by
  unfold requireSigners
  refine .bind (requireWithError_avoids h) fun _ _ => .forM fun a hmem => ?_
  exact .bind (requireWithError_avoids h') fun _ _ => requireAuth_avoids (ha a hmem)

/-! A sum that is known to fit does not fail. -/

theorem u32_fits {n : Nat} (h : n ≤ U32_MAX) : Checked.Avoids bad (u32 n) := by
  rw [u32, if_pos h]
  exact .ok n

theorem u64_fits {n : Nat} (h : n ≤ U64_MAX) : Checked.Avoids bad (u64 n) := by
  rw [u64, if_pos h]
  exact .ok n

end Avoids

/-! ## What is stored stays within its type -/

structure GovProposal.InType (p : GovProposal) : Prop where
  lock : p.timeLockLedgers ≤ U32_MAX
  expiry : p.expiryLedgers = 0
  votesFor : p.votesFor ≤ U32_MAX
  votesAgainst : p.votesAgainst ≤ U32_MAX

structure Gov.InType (g : Gov) : Prop where
  config : ∀ c, g.config = some c → c.timeLockLedgers ≤ U32_MAX ∧ c.proposalExpiryLedgers = 0
  proposal : ∀ id p, g.proposal.get id = some p → p.InType

namespace Gov.InType

variable {g g' : Gov}

theorem congr (h : g.InType) (hconfig : g'.config = g.config)
    (hproposal : g'.proposal = g.proposal) : g'.InType :=
  ⟨by rw [hconfig]; exact h.config, by rw [hproposal]; exact h.proposal⟩

theorem write (h : g.InType) {id : Nat} {p : GovProposal} (hp : p.InType)
    (hconfig : g'.config = g.config) (hproposal : g'.proposal = g.proposal.set id p) :
    g'.InType := by
  refine ⟨by rw [hconfig]; exact h.config, fun i q hq => ?_⟩
  rw [hproposal, Store.get_set] at hq
  split at hq
  · obtain rfl := Option.some.inj hq
    exact hp
  · exact h.proposal i q hq

theorem countVote {p q : GovProposal} {support : Bool} (hp : p.InType)
    (h : countVote p support = .ok q) : q.InType := by
  unfold Contract.countVote at h
  cases support with
  | false =>
    simp only [Bool.false_eq_true, if_false, Checked.bind_eq_ok, Checked.pure_eq_ok,
      u32_eq_ok] at h
    obtain ⟨_, ⟨hle, rfl⟩, rfl⟩ := h
    exact ⟨hp.lock, hp.expiry, hp.votesFor, hle⟩
  | true =>
    simp only [if_true, Checked.bind_eq_ok, Checked.pure_eq_ok, u32_eq_ok] at h
    obtain ⟨_, ⟨hle, rfl⟩, rfl⟩ := h
    exact ⟨hp.lock, hp.expiry, hle, hp.votesAgainst⟩

theorem applyProposal {s t : State} {config : GovConfig} {p : GovProposal} (h : s.gov.InType)
    (hconfig : s.gov.config = some config) (ha : applyProposal s config p = .ok t) :
    t.gov.InType := by
  have hc := h.config config hconfig
  have hval : p.newValue % 2 ^ 32 ≤ U32_MAX := Nat.le_pred_of_lt (Nat.mod_lt _ (by decide))
  unfold Contract.applyProposal at ha
  cases hparam : p.parameter with
  | govQuorum =>
    simp only [hparam, Checked.bind_eq_ok, Checked.pure_eq_ok] at ha
    obtain ⟨-, -, -, -, rfl⟩ := ha
    refine ⟨fun c hc' => ?_, h.proposal⟩
    obtain rfl := Option.some.inj hc'
    exact hc
  | govTimeLock =>
    simp only [hparam, Checked.bind_eq_ok, Checked.pure_eq_ok] at ha
    obtain ⟨-, -, rfl⟩ := ha
    refine ⟨fun c hc' => ?_, h.proposal⟩
    obtain rfl := Option.some.inj hc'
    exact ⟨hval, hc.2⟩
  | govVoteWindow =>
    simp only [hparam, Checked.bind_eq_ok, Checked.pure_eq_ok] at ha
    obtain ⟨-, -, rfl⟩ := ha
    refine ⟨fun c hc' => ?_, h.proposal⟩
    obtain rfl := Option.some.inj hc'
    exact hc
  | treasury =>
    simp only [hparam, Checked.bind_eq_ok, Checked.pure_eq_ok] at ha
    obtain ⟨_, -, -, -, rfl⟩ := ha
    exact h.congr rfl rfl
  | _ =>
    simp only [hparam, Checked.bind_eq_ok, Checked.pure_eq_ok] at ha
    obtain ⟨-, -, rfl⟩ := ha
    exact h.congr rfl rfl

theorem exec {σ : Type} {host : Host σ} {env : Env} {w w' : World σ} {c : Call}
    (h : w.store.gov.InType) (he : exec host env w c = .ok w') : w'.store.gov.InType := by
  cases c with
  | govInitConfig admin quorum timeLockLedgers voteWindowLedgers =>
    have hs := (World.onStore_eq_ok.mp he).1
    simp only [govInitConfig, Checked.bind_eq_ok, Checked.pure_eq_ok, validateU32Range_eq_ok,
      exists_const] at hs
    obtain ⟨-, -, -, -, -, -, -, ⟨-, hlock⟩, -, -, -, -, hs⟩ := hs
    rw [← hs]
    refine ⟨fun c hc => ?_, h.proposal⟩
    obtain rfl := Option.some.inj hc
    exact ⟨hlock, rfl⟩
  | govPropose =>
    obtain ⟨r, hr, hs⟩ := Checked.map_eq_ok.mp (World.onStore_eq_ok.mp he).1
    obtain ⟨-, config, hconfig, p, rfl, rfl⟩ := govPropose_ok hr
    obtain ⟨hlock, hexpiry⟩ := h.config config hconfig
    rw [← hs]
    exact h.write ⟨hlock, hexpiry, Nat.zero_le _, Nat.zero_le _⟩ rfl rfl
  | govVote =>
    obtain ⟨-, p, q, -, hp, -, -, -, hq, hs⟩ := govVote_ok (World.onStore_eq_ok.mp he).1
    rw [hs]
    exact h.write (countVote (h.proposal _ p hp) hq) rfl rfl
  | govExecute =>
    obtain ⟨config, p, t, hconfig, hp, -, -, ht, hs⟩ := govExecute_ok (World.onStore_eq_ok.mp he).1
    have hclosed : ({ p with status := .executed } : GovProposal).InType :=
      { h.proposal _ p hp with }
    rw [hs]
    exact (h.applyProposal hconfig ht).write hclosed rfl rfl
  | govVeto =>
    obtain ⟨-, -, -, -, -, p, hp, -, -, -, -, -, -, -, hs⟩ :=
      govVeto_eq_ok.mp (World.onStore_eq_ok.mp he).1
    have hclosed : ({ p with status := .vetoed } : GovProposal).InType :=
      { h.proposal _ p hp with }
    rw [← hs]
    exact h.write hclosed rfl rfl
  | govDelegate =>
    obtain ⟨delegation, hs⟩ := govDelegate_ok (World.onStore_eq_ok.mp he).1
    rw [hs]
    exact h.congr rfl rfl
  | govRevokeDelegation =>
    rw [govRevokeDelegation_ok (World.onStore_eq_ok.mp he).1]
    exact h.congr rfl rfl
  | _ =>
    have hgov : w'.store.gov = w.store.gov := exec_frame (p := .gov) he (by simp [Call.parts])
    exact hgov ▸ h

theorem of_reachable {σ : Type} {host : Host σ} {w : World σ} (h : Reachable host w) :
    w.store.gov.InType := by
  refine h.store_invariant (I := fun s => s.gov.InType) ?_ (fun w env c w' hw he => hw.exec he)
  intro s env admin treasury feeBps hs
  obtain ⟨-, -, access, events, rfl⟩ := initializeContract_ok hs
  exact ⟨nofun, fun _ _ h => by cases h⟩

end Gov.InType

/-! ## The sums fit -/

/-- Nothing but a listed failure comes out of the computation. -/
abbrev FailsIn {α : Type} (l : List Panic) (x : Except Panic α) : Prop :=
  Checked.Avoids (fun e => e ∉ l) x

theorem FailsIn.mem {α : Type} {l : List Panic} {x : Except Panic α} (h : FailsIn l x) {e : Panic}
    (he : x = .error e) : e ∈ l := not_not.mp (h e he)

section Fits

variable {s : State} {id : Nat}

/-- The condition on what is stored about the proposal. -/
def DeadlinesFit (s : State) (id : Nat) : Prop :=
  ∀ config p, s.AtDeadline id config p → p.DeadlinesFit config

/-- `applyProposal` reports a value out of range, a missing or a zero address. -/
theorem applyProposal_avoids {bad : Panic → Prop} (h : ∀ e ∈ applyFailures, ¬bad e)
    (config : GovConfig) (p : GovProposal) : Checked.Avoids bad (applyProposal s config p) := by
  have hrange : ∀ label value min max, rangeFailure label min max ∈ applyFailures →
      Checked.Avoids bad (validateU32Range label value min max) :=
    fun label value min max hmem => requireWithError_avoids (h _ hmem)
  unfold applyProposal
  cases p.parameter with
  | feeBps => exact .bind (hrange _ _ _ _ (by simp [applyFailures])) fun _ _ => .pure _
  | treasury =>
    refine .bind (expect_avoids (h _ (by simp [applyFailures]))) fun addr _ => ?_
    refine .bind (requireWithError_avoids (h _ ?_)) fun _ _ => .pure _
    simp [applyFailures, zeroFailure]
  | tipCooldownWindow =>
    exact .bind (hrange _ _ _ _ (by simp [applyFailures])) fun _ _ => .pure _
  | govQuorum =>
    refine .bind (hrange _ _ _ _ (by simp [applyFailures])) fun _ _ => ?_
    refine .bind (requireWithError_avoids (h _ ?_)) fun _ _ => .pure _
    simp [applyFailures]
  | govTimeLock => exact .bind (hrange _ _ _ _ (by simp [applyFailures])) fun _ _ => .pure _
  | govVoteWindow => exact .bind (hrange _ _ _ _ (by simp [applyFailures])) fun _ _ => .pure _
  | moderationSlashBps =>
    exact .bind (hrange _ _ _ _ (by simp [applyFailures])) fun _ _ => .pure _

/-- The product of `effective_quorum` is taken in `u64`, where it always fits. -/
theorem effectiveQuorum_avoids {bad : Panic → Prop} (h : ∀ e ∈ concludeFailures, ¬bad e)
    (hrange : ∀ c, s.gov.config = some c → c.InRange) {env : Env}
    (henv : env.sequence ≤ U32_MAX) : Checked.Avoids bad (effectiveQuorum env s id) := by
  unfold effectiveQuorum
  refine .bind (expect_avoids (h _ (by simp [concludeFailures]))) fun config hconfig => ?_
  refine .bind (expect_avoids (h _ (by simp [concludeFailures]))) fun p _ => ?_
  have hrate := (hrange config (expect_eq_ok.mp hconfig)).decay_le
  have helapsed : env.sequence - p.createdLedger ≤ U32_MAX := le_trans (Nat.sub_le _ _) henv
  have hproduct : (env.sequence - p.createdLedger) * config.quorumDecayRateBps ≤ U64_MAX :=
    le_trans (Nat.mul_le_mul helapsed hrate) (by decide)
  exact .bind (u64_fits hproduct) fun _ _ => .pure _

theorem concludeProposal_avoids {bad : Panic → Prop} (h : ∀ e ∈ concludeFailures, ¬bad e)
    (hrange : ∀ c, s.gov.config = some c → c.InRange) {env : Env}
    (henv : env.sequence ≤ U32_MAX) (config : GovConfig) {p : GovProposal}
    (htotal : Checked.Avoids bad (u32 (p.votesFor + p.votesAgainst))) :
    Checked.Avoids bad (concludeProposal env s id config p) := by
  unfold concludeProposal
  refine .bind (requireWithError_avoids (h _ (by simp [concludeFailures]))) fun _ _ => ?_
  have happly : ∀ e ∈ applyFailures, ¬bad e := fun e he => h e (List.mem_append_right _ he)
  refine .bind ?_ fun _ _ => .bind (applyProposal_avoids happly config p) fun _ _ => .pure _
  refine .bind htotal fun _ _ => ?_
  refine .bind (requireWithError_avoids (h _ (by simp [concludeFailures]))) fun _ _ => ?_
  refine .bind (effectiveQuorum_avoids h hrange henv) fun _ _ => ?_
  exact requireWithError_avoids (h _ (by simp [concludeFailures]))

theorem govVote_failsIn (hfit : DeadlinesFit s id) (env : Env) (voter : Address)
    (support : Bool) : FailsIn (voteFailures voter) (govVote env s voter id support) := by
  have hmem : ∀ e ∈ voteFailures voter, ¬e ∉ voteFailures voter := fun e he => not_not.mpr he
  unfold govVote
  refine .bind (requireNotPaused_avoids (hmem _ ?_) (hmem _ ?_)) fun _ hrun => ?_
  · simp [voteFailures, proposalFailures]
  · simp [voteFailures, proposalFailures]
  refine .bind (requireAuth_avoids (hmem _ (by simp [voteFailures]))) fun _ _ => ?_
  refine .bind (requireWithError_avoids (hmem _ ?_)) fun _ _ => ?_
  · simp [voteFailures, zeroFailure]
  refine .bind (requireWithError_avoids (hmem _ ?_)) fun _ hpos => ?_
  · simp [voteFailures, proposalFailures]
  refine .bind (expect_avoids (hmem _ ?_)) fun config hconfig => ?_
  · simp [voteFailures, proposalFailures]
  refine .bind (expect_avoids (hmem _ ?_)) fun p hp => ?_
  · simp [voteFailures, proposalFailures]
  refine .bind (requireWithError_avoids (hmem _ ?_)) fun _ hactive => ?_
  · simp [voteFailures, proposalFailures]
  have hp' := hfit config p ⟨requireNotPaused_eq_ok.mp hrun, requireWithError_eq_ok.mp hpos,
    expect_eq_ok.mp hconfig, expect_eq_ok.mp hp, requireWithError_eq_ok.mp hactive⟩
  have hends := hp'.ends
  have hfor := hp'.votesFor
  have hagainst := hp'.votesAgainst
  refine .bind (u32_fits (by omega)) fun _ _ => ?_
  refine .bind (requireWithError_avoids (hmem _ (by simp [voteFailures]))) fun _ _ => ?_
  refine .bind (requireWithError_avoids (hmem _ (by simp [voteFailures]))) fun _ _ => ?_
  refine .bind ?_ fun _ _ => .pure _
  unfold countVote
  cases support with
  | false => exact .bind (u32_fits (by omega)) fun _ _ => .pure _
  | true => exact .bind (u32_fits (by omega)) fun _ _ => .pure _

/-- `gov_execute` up to the expiry of the time lock, whatever comes after it. -/
theorem govExecute_avoids {bad : Panic → Prop} (hs : s.gov.InType) {env : Env}
    (h : ∀ e ∈ proposalFailures, ¬bad e) (hlocked : ¬bad (.message "time-lock not expired"))
    (hend : ∀ config p, s.AtDeadline id config p →
      Checked.Avoids bad (u32 (p.createdLedger + config.voteWindowLedgers)))
    (hlate : ∀ config p, s.AtDeadline id config p →
      Checked.Avoids bad (concludeProposal env s id config p)) :
    Checked.Avoids bad (govExecute env s id) := by
  rw [govExecute_eq]
  refine .bind (requireNotPaused_avoids (h _ ?_) (h _ ?_)) fun _ hrun => ?_
  · simp [proposalFailures]
  · simp [proposalFailures]
  refine .bind (requireWithError_avoids (h _ (by simp [proposalFailures]))) fun _ hpos => ?_
  refine .bind (expect_avoids (h _ (by simp [proposalFailures]))) fun config hconfig => ?_
  refine .bind (expect_avoids (h _ (by simp [proposalFailures]))) fun p hp => ?_
  refine .bind (requireWithError_avoids (h _ ?_)) fun _ hactive => ?_
  · simp [proposalFailures]
  have hat : s.AtDeadline id config p := ⟨requireNotPaused_eq_ok.mp hrun,
    requireWithError_eq_ok.mp hpos, expect_eq_ok.mp hconfig, expect_eq_ok.mp hp,
    requireWithError_eq_ok.mp hactive⟩
  refine .bind (hend config p hat) fun voteEnd hvote => ?_
  obtain ⟨hle, rfl⟩ := u32_eq_ok.mp hvote
  have hlock := (hs.proposal id p hat.stored).lock
  have hsum : p.createdLedger + config.voteWindowLedgers + p.timeLockLedgers ≤ U64_MAX :=
    le_trans (Nat.add_le_add hle hlock) (by decide)
  refine .bind (u64_fits hsum) fun _ _ => ?_
  exact .bind (requireWithError_avoids hlocked) fun _ _ => hlate config p hat

theorem govExecute_failsIn (hs : s.gov.InType)
    (hrange : ∀ c, s.gov.config = some c → c.InRange) (hfit : DeadlinesFit s id) {env : Env}
    (henv : env.sequence ≤ U32_MAX) : FailsIn executeFailures (govExecute env s id) := by
  refine govExecute_avoids hs (fun e he => not_not.mpr (List.mem_append_left _ he))
    (not_not.mpr (List.mem_append_right _ List.mem_cons_self)) ?_ ?_
  · intro config p h
    have hends := (hfit config p h).ends
    exact u32_fits (by omega)
  · intro config p h
    refine concludeProposal_avoids (fun e he => not_not.mpr ?_) hrange henv config
      (u32_fits (hfit config p h).total)
    exact List.mem_append_right _ (List.mem_cons_of_mem _ he)

theorem govVeto_failsIn (hfit : DeadlinesFit s id) (env : Env) (signers : List Address)
    (poolId : Symbol) : FailsIn (vetoFailures signers) (govVeto env s signers poolId id) := by
  have hmem : ∀ e ∈ vetoFailures signers, ¬e ∉ vetoFailures signers := fun e he => not_not.mpr he
  have hmem' : ∀ e ∈ proposalFailures, ¬e ∉ vetoFailures signers := fun e he => hmem e
    (List.mem_append_left _ (List.mem_append_left _ (List.mem_append_left _ he)))
  unfold govVeto
  refine .bind (requireNotPaused_avoids (hmem' _ ?_) (hmem' _ ?_)) fun _ hrun => ?_
  · simp [proposalFailures]
  · simp [proposalFailures]
  refine .bind (validateAddressList_avoids (hmem _ ?_) fun i hi => hmem _ ?_) fun _ _ => ?_
  · simp [vetoFailures, emptyFailure]
  · exact List.mem_append_right _ (List.mem_map.mpr ⟨i, List.mem_range.mpr hi, rfl⟩)
  refine .bind (requireWithError_avoids (hmem' _ (by simp [proposalFailures]))) fun _ hpos => ?_
  refine .bind (expect_avoids (hmem' _ (by simp [proposalFailures]))) fun config hconfig => ?_
  refine .bind (expect_avoids (hmem' _ (by simp [proposalFailures]))) fun p hp => ?_
  refine .bind (requireWithError_avoids (hmem' _ ?_)) fun _ hactive => ?_
  · simp [proposalFailures]
  have hp' := hfit config p ⟨requireNotPaused_eq_ok.mp hrun, requireWithError_eq_ok.mp hpos,
    expect_eq_ok.mp hconfig, expect_eq_ok.mp hp, requireWithError_eq_ok.mp hactive⟩
  have hends := hp'.ends
  refine .bind (u32_fits (by omega)) fun voteEnd hend => ?_
  obtain ⟨-, rfl⟩ := u32_eq_ok.mp hend
  refine .bind (u32_fits hends) fun _ _ => ?_
  refine .bind (requireWithError_avoids (hmem _ (by simp [vetoFailures]))) fun _ _ => ?_
  refine .bind (expect_avoids (hmem _ (by simp [vetoFailures]))) fun pool _ => ?_
  refine .bind (requireSigners_avoids (hmem _ ?_) (hmem _ ?_) fun a ha => hmem _ ?_)
    fun _ _ => .pure _
  · simp [vetoFailures]
  · simp [vetoFailures]
  · simp [vetoFailures, ha]

end Fits

/-! ## The sums that do not fit -/

/-- An invocation that everybody has authorised. -/
def everybodyAt (ledger : Nat) : Env where
  sequence := ledger
  timestamp := ledger
  auth _ := true

namespace State.AtDeadline

variable {s : State} {id : Nat} {config : GovConfig} {p : GovProposal}

theorem not_paused (h : s.AtDeadline id config p) : requireNotPaused s .governance = .ok () :=
  requireNotPaused_eq_ok.mpr h.running

theorem positive_id (h : s.AtDeadline id config p) :
    requireWithError (0 < id) "proposal id must be positive" = .ok () :=
  requireWithError_eq_ok.mpr h.positive

theorem configured (h : s.AtDeadline id config p) :
    expect s.gov.config "governance not configured" = .ok config :=
  expect_eq_ok.mpr h.config

theorem found (h : s.AtDeadline id config p) :
    expect (s.gov.proposal.get id) "proposal not found" = .ok p :=
  expect_eq_ok.mpr h.stored

theorem is_active (h : s.AtDeadline id config p) :
    requireWithError (p.status = .active) "proposal not active" = .ok () :=
  requireWithError_eq_ok.mpr h.active

theorem u32_overflows {n : Nat} (h : U32_MAX < n) : u32 n = .error .overflow :=
  if_neg (Nat.not_le.mpr h)

/-- What `gov_execute` does once it has found the proposal active. -/
theorem govExecute_eq (h : s.AtDeadline id config p) (env : Env) :
    govExecute env s id = (do
      let voteEnd ← u32 (p.createdLedger + config.voteWindowLedgers)
      let executionAfter ← u64 (voteEnd + p.timeLockLedgers)
      requireWithError (executionAfter ≤ env.sequence) "time-lock not expired"
      concludeProposal env s id config p) := by
  rw [Contract.govExecute_eq, Checked.bind_of_ok h.not_paused, Checked.bind_of_ok h.positive_id,
    Checked.bind_of_ok h.configured, Checked.bind_of_ok h.found, Checked.bind_of_ok h.is_active]

/-- The time lock of `gov_execute`, where the end of voting is a `u32`. -/
theorem govExecute_locked_iff (h : s.AtDeadline id config p)
    (hrange : ∀ c, s.gov.config = some c → c.InRange)
    (hend : p.createdLedger + config.voteWindowLedgers ≤ U32_MAX)
    (hlock : p.timeLockLedgers ≤ U32_MAX) {env : Env} (henv : env.sequence ≤ U32_MAX) :
    govExecute env s id = .error (.message "time-lock not expired") ↔
      env.sequence < p.createdLedger + config.voteWindowLedgers + p.timeLockLedgers := by
  have hsum : p.createdLedger + config.voteWindowLedgers + p.timeLockLedgers ≤ U64_MAX :=
    le_trans (Nat.add_le_add hend hlock) (by decide)
  rw [h.govExecute_eq, Checked.bind_of_ok (u32_eq_ok.mpr ⟨hend, rfl⟩),
    Checked.bind_of_ok (u64_eq_ok.mpr ⟨hsum, rfl⟩)]
  constructor
  · intro he
    by_contra hpast
    have hopen : requireWithError (p.createdLedger + config.voteWindowLedgers +
        p.timeLockLedgers ≤ env.sequence) "time-lock not expired" = .ok () :=
      requireWithError_eq_ok.mpr (Nat.not_lt.mp hpast)
    rw [Checked.bind_of_ok hopen] at he
    have hlate : ∀ e ∈ concludeFailures, ¬e = .message "time-lock not expired" := by decide
    exact concludeProposal_avoids hlate hrange henv config (u32_avoids nofun) _ he rfl
  · intro hbefore
    exact Checked.bind_of_error (if_neg (Nat.not_le.mpr hbefore)) _

/-- What `gov_veto` does once it has found the proposal active. -/
theorem govVeto_eq (h : s.AtDeadline id config p) {signers : List Address} (hne : signers ≠ [])
    (hzero : ∀ a ∈ signers, isZeroAddress a = false) (env : Env) (poolId : Symbol) :
    govVeto env s signers poolId id = (do
      let voteEnd ← u32 (p.createdLedger + config.voteWindowLedgers)
      let timeLockEnd ← u32 (voteEnd + config.timeLockLedgers)
      requireWithError (voteEnd ≤ env.sequence ∧ env.sequence < timeLockEnd)
        "veto only during time-lock window"
      let pool ← expect (s.pools.get poolId) "pool not found"
      requireSigners env pool signers
      let gov := { s.gov with
        proposal := s.gov.proposal.set id { p with status := .vetoed } }
      return { s with gov }.publish (.govProposalVetoed id)) := by
  have hlist : validateAddressList "signers" signers = .ok () :=
    validateAddressList_eq_ok.mpr ⟨hne, hzero⟩
  rw [govVeto, Checked.bind_of_ok h.not_paused, Checked.bind_of_ok hlist,
    Checked.bind_of_ok h.positive_id, Checked.bind_of_ok h.configured,
    Checked.bind_of_ok h.found, Checked.bind_of_ok h.is_active]

/-- The window of `gov_veto`, where its end is a `u32` and voting is over. -/
theorem govVeto_late_iff (h : s.AtDeadline id config p) {signers : List Address}
    (hne : signers ≠ []) (hzero : ∀ a ∈ signers, isZeroAddress a = false)
    (hend : p.createdLedger + config.voteWindowLedgers + config.timeLockLedgers ≤ U32_MAX)
    {env : Env} (hover : p.createdLedger + config.voteWindowLedgers ≤ env.sequence)
    (poolId : Symbol) :
    govVeto env s signers poolId id = .error (.message "veto only during time-lock window") ↔
      p.createdLedger + config.voteWindowLedgers + config.timeLockLedgers ≤ env.sequence := by
  have hvote : p.createdLedger + config.voteWindowLedgers ≤ U32_MAX := by omega
  rw [h.govVeto_eq hne hzero, Checked.bind_of_ok (u32_eq_ok.mpr ⟨hvote, rfl⟩),
    Checked.bind_of_ok (u32_eq_ok.mpr ⟨hend, rfl⟩)]
  constructor
  · intro he
    by_contra hbefore
    have hopen : requireWithError (p.createdLedger + config.voteWindowLedgers ≤ env.sequence ∧
        env.sequence < p.createdLedger + config.voteWindowLedgers + config.timeLockLedgers)
        "veto only during time-lock window" = .ok () :=
      requireWithError_eq_ok.mpr ⟨hover, Nat.not_le.mp hbefore⟩
    rw [Checked.bind_of_ok hopen] at he
    have hrest : Checked.Avoids (fun e => e = .message "veto only during time-lock window") (do
        let pool ← expect (s.pools.get poolId) "pool not found"
        requireSigners env pool signers
        let gov := { s.gov with
          proposal := s.gov.proposal.set id { p with status := .vetoed } }
        return { s with gov }.publish (.govProposalVetoed id)) := by
      refine .bind (expect_avoids (by decide)) fun pool _ => ?_
      exact .bind (requireSigners_avoids (by decide) (by decide) fun _ _ => nofun)
        fun _ _ => .pure _
    exact hrest _ he rfl
  · intro hpast
    exact Checked.bind_of_error (if_neg fun hopen => Nat.not_lt.mpr hpast hopen.2) _

/-! A sum that leaves its type is an error of the call. -/

theorem ends_of_hold (h : s.AtDeadline id config p) (hold : DeadlinesHold s id) :
    p.createdLedger + config.voteWindowLedgers ≤ U32_MAX ∧
      p.createdLedger + config.voteWindowLedgers + config.timeLockLedgers ≤ U32_MAX := by
  have hvote : p.createdLedger + config.voteWindowLedgers ≤ U32_MAX := by
    by_contra hover
    have he : govExecute (everybodyAt 0) s id = .error .overflow := by
      rw [h.govExecute_eq, Checked.bind_of_error (u32_overflows (Nat.not_le.mp hover))]
    have hmem := hold.execute (everybodyAt 0) _ (Nat.zero_le _) he
    revert hmem
    decide
  refine ⟨hvote, ?_⟩
  by_contra hover
  have he : govVeto (everybodyAt 0) s [alice] "" id = .error .overflow := by
    rw [h.govVeto_eq (List.cons_ne_nil _ _) (by decide),
      Checked.bind_of_ok (u32_eq_ok.mpr ⟨hvote, rfl⟩),
      Checked.bind_of_error (u32_overflows (Nat.not_le.mp hover))]
  have hmem := hold.veto (everybodyAt 0) [alice] "" _ (Nat.zero_le _) he
  revert hmem
  decide

/-- Two time locks that differ part the end of the veto window from the first ledger at
which the proposal can be executed. -/
theorem lock_of_hold (h : s.AtDeadline id config p) (hold : DeadlinesHold s id)
    (hrange : ∀ c, s.gov.config = some c → c.InRange) (hlock : p.timeLockLedgers ≤ U32_MAX) :
    p.timeLockLedgers = config.timeLockLedgers := by
  obtain ⟨hvote, hend⟩ := h.ends_of_hold hold
  have hsame : ∀ ledger, ledger ≤ U32_MAX →
      p.createdLedger + config.voteWindowLedgers ≤ ledger →
      (p.createdLedger + config.voteWindowLedgers + config.timeLockLedgers ≤ ledger ↔
        ¬ledger < p.createdLedger + config.voteWindowLedgers + p.timeLockLedgers) := by
    intro ledger hfits hover
    have hiff := hold.sameEnd (everybodyAt ledger) config p [alice] "" hfits h
      (List.cons_ne_nil _ _) (by decide) hover
    rw [h.govVeto_late_iff (List.cons_ne_nil _ _) (by decide) hend hover, Ne,
      h.govExecute_locked_iff hrange hvote hlock hfits] at hiff
    exact hiff
  have hveto := hsame _ hend (Nat.le_add_right _ _)
  by_cases hfits : p.createdLedger + config.voteWindowLedgers + p.timeLockLedgers ≤ U32_MAX
  · have hexecute := hsame _ hfits (Nat.le_add_right _ _)
    omega
  · omega

theorem total_of_hold (h : s.AtDeadline id config p) (hold : DeadlinesHold s id)
    (hlock : p.timeLockLedgers = config.timeLockLedgers) (hexpiry : p.expiryLedgers = 0) :
    p.votesFor + p.votesAgainst ≤ U32_MAX := by
  obtain ⟨hvote, hend⟩ := h.ends_of_hold hold
  rw [← hlock] at hend
  by_contra hover
  have hopen : requireWithError (p.createdLedger + config.voteWindowLedgers +
      p.timeLockLedgers ≤ (everybodyAt U32_MAX).sequence) "time-lock not expired" = .ok () :=
    requireWithError_eq_ok.mpr hend
  have hfresh : requireWithError (0 < p.expiryLedgers → (everybodyAt U32_MAX).sequence <
      p.createdLedger + p.expiryLedgers) "proposal has expired" = .ok () :=
    requireWithError_eq_ok.mpr fun hpos => by omega
  have happroval : requireApproval (everybodyAt U32_MAX) s id p = .error .overflow := by
    rw [requireApproval, Checked.bind_of_error (u32_overflows (Nat.not_le.mp hover))]
  have he : govExecute (everybodyAt U32_MAX) s id = .error .overflow := by
    rw [h.govExecute_eq, Checked.bind_of_ok (u32_eq_ok.mpr ⟨hvote, rfl⟩),
      Checked.bind_of_ok (u64_eq_ok.mpr ⟨le_trans hend (by decide), rfl⟩),
      Checked.bind_of_ok hopen, concludeProposal, Checked.bind_of_ok hfresh,
      Checked.bind_of_error happroval]
  have hmem := hold.execute (everybodyAt U32_MAX) _ le_rfl he
  revert hmem
  decide

/-- The vote of somebody who has not voted yet overflows a tally that is full. -/
theorem tally_of_hold (h : s.AtDeadline id config p) (hold : DeadlinesHold s id) {voter : Address}
    (hvoter : isZeroAddress voter = false) (hnew : s.gov.vote.get (id, voter) = none) :
    p.votesFor < U32_MAX ∧ p.votesAgainst < U32_MAX := by
  obtain ⟨hvote, -⟩ := h.ends_of_hold hold
  have hcount : ∀ support, countVote p support ≠ .error .overflow := by
    intro support hfull
    have hauth : requireAuth (everybodyAt 0) voter = .ok () := requireAuth_eq_ok.mpr rfl
    have hzero : validateNonDefaultAddress "voter" voter = .ok () :=
      validateNonDefaultAddress_eq_ok.mpr hvoter
    have hopen : requireWithError ((everybodyAt 0).sequence ≤
        p.createdLedger + config.voteWindowLedgers) "vote window closed" = .ok () :=
      requireWithError_eq_ok.mpr (Nat.zero_le _)
    have hfree : requireWithError (s.gov.vote.has (id, voter) = false) "already voted" = .ok () :=
      requireWithError_eq_ok.mpr (Store.has_eq_false_iff.mpr hnew)
    have he : govVote (everybodyAt 0) s voter id support = .error .overflow := by
      rw [govVote, Checked.bind_of_ok h.not_paused, Checked.bind_of_ok hauth,
        Checked.bind_of_ok hzero, Checked.bind_of_ok h.positive_id,
        Checked.bind_of_ok h.configured, Checked.bind_of_ok h.found,
        Checked.bind_of_ok h.is_active, Checked.bind_of_ok (u32_eq_ok.mpr ⟨hvote, rfl⟩),
        Checked.bind_of_ok hopen, Checked.bind_of_ok hfree, Checked.bind_of_error hfull]
    have hmem := hold.vote (everybodyAt 0) voter support _ (Nat.zero_le _) he
    simp [voteFailures, proposalFailures, zeroFailure] at hmem
  constructor
  · by_contra hfull
    refine hcount true ?_
    rw [countVote, if_pos rfl, Checked.bind_of_error (u32_overflows (by omega))]
  · by_contra hfull
    refine hcount false ?_
    rw [countVote, if_neg Bool.false_ne_true, Checked.bind_of_error (u32_overflows (by omega))]

end State.AtDeadline

/-! ## When the deadlines hold -/

/-- There are more accounts than a finite set of at most `2 ^ 33` voters can hold. -/
theorem exists_not_mem_voters (g : Gov) (id : Nat) (hfew : (voters g id).ncard ≤ 2 ^ 33) :
    ∃ voter, isZeroAddress voter = false ∧ g.vote.get (id, voter) = none := by
  by_contra hall
  push Not at hall
  let account : Nat → Address := fun n => .account (BitVec.ofNat 256 (n + 1))
  have hval : ∀ n, n ≤ 2 ^ 33 → (BitVec.ofNat 256 (n + 1)).toNat = n + 1 := by
    intro n hn
    rw [BitVec.toNat_ofNat, Nat.mod_eq_of_lt (by omega)]
  have hle : ∀ n ∈ Finset.range (2 ^ 33 + 1), n ≤ 2 ^ 33 :=
    fun n hn => Nat.le_of_lt_succ (Finset.mem_range.mp hn)
  have hinj : Set.InjOn account (Finset.range (2 ^ 33 + 1)) := by
    intro a ha b hb hab
    have hnat := congrArg BitVec.toNat (Address.account.inj hab)
    rw [hval a (hle a ha), hval b (hle b hb)] at hnat
    omega
  have hsub : ∀ n ∈ Finset.range (2 ^ 33 + 1), account n ∈ voters g id := by
    intro n hn
    refine Store.has_iff_exists.mpr (Option.ne_none_iff_exists'.mp (hall _ ?_))
    have hne : BitVec.ofNat 256 (n + 1) ≠ 0#256 := by
      intro hzero
      have hnat := congrArg BitVec.toNat hzero
      rw [hval n (hle n hn)] at hnat
      simp at hnat
    simp [isZeroAddress, ZERO_ACCOUNT_ADDRESS, ZERO_CONTRACT_ADDRESS, account, hne]
  have himage : account '' (Finset.range (2 ^ 33 + 1)) ⊆ voters g id := by
    rintro _ ⟨n, hn, rfl⟩
    exact hsub n hn
  have hcard := Set.ncard_le_ncard himage (finite_voters g id)
  rw [hinj.ncard_image, Set.ncard_coe_finset, Finset.card_range] at hcard
  omega

theorem deadlines_hold_iff {σ : Type} {host : Host σ} {w : World σ} (hw : Reachable host w)
    (id : Nat) : DeadlinesHold w.store id ↔ DeadlinesFit w.store id := by
  have htype : w.store.gov.InType := .of_reachable hw
  have hrange : ∀ c, w.store.gov.config = some c → c.InRange :=
    (ParametersInRange.of_reachable hw).config
  have hsound : BallotsSound w.store.gov := .of_reachable hw
  constructor
  · intro hold config p h
    have hp := htype.proposal id p h.stored
    have hlock := h.lock_of_hold hold hrange hp.lock
    have htally := hsound.tally id p h.stored
    have hfew : (voters w.store.gov id).ncard ≤ 2 ^ 33 := by
      have hsum : p.votesFor + p.votesAgainst ≤ U32_MAX + U32_MAX :=
        Nat.add_le_add hp.votesFor hp.votesAgainst
      rw [← htally]
      exact le_trans hsum (by decide)
    obtain ⟨voter, hvoter, hnew⟩ := exists_not_mem_voters _ _ hfew
    obtain ⟨hfor, hagainst⟩ := h.tally_of_hold hold hvoter hnew
    exact ⟨(h.ends_of_hold hold).2, hlock, hfor, hagainst, h.total_of_hold hold hlock hp.expiry⟩
  · intro hfit
    refine ⟨fun env voter support e _ he => (govVote_failsIn hfit env voter support).mem he,
      fun env e henv he => (govExecute_failsIn htype hrange hfit henv).mem he,
      fun env signers poolId e _ he => (govVeto_failsIn hfit env signers poolId).mem he, ?_⟩
    intro env config p signers poolId henv h hne hzero hover
    have hp := hfit config p h
    have hends := hp.ends
    rw [h.govVeto_late_iff hne hzero hp.ends hover, Ne,
      h.govExecute_locked_iff hrange (by omega) (htype.proposal id p h.stored).lock henv, hp.lock]
    exact Nat.not_lt.symm

/-- Votes, a veto window and an execution at ordinary numbers. -/
theorem deadlines_hold_of_fee_proposal :
    ∃ w : World Book, Reachable (bookHost linkora) w ∧
      (w.store.gov.proposal.get 1).isSome = true ∧ DeadlinesHold w.store 1 := by
  have hdemo : (demo (fun _ _ _ => True) (fun _ _ => 0)
      [(signedAt 2, .govInitConfig alice 60 10 20 0 30),
        (signedAt 5, .govPropose carol .feeBps 300 none none),
        (signedAt 6, .govVote carol 1 true)]).map
        (fun w => (w.store.gov.config, w.store.gov.proposal.get 1)) =
      some (some ⟨60, 10, 20, 0, 30, 0⟩,
        some ⟨1, carol, .feeBps, 300, none, 1, 0, 5, 10, .active, 0, none⟩) := by decide
  obtain ⟨w, hw, hsee⟩ := reachable_demo hdemo
  obtain ⟨hconfig, hstored⟩ := Prod.mk.inj hsee
  refine ⟨w, hw.reachable, by rw [hstored]; rfl, (deadlines_hold_iff hw.reachable 1).mpr ?_⟩
  intro config p h
  obtain rfl := Option.some.inj (h.config.symm.trans hconfig)
  obtain rfl := Option.some.inj (h.stored.symm.trans hstored)
  exact ⟨by decide, rfl, by decide, by decide, by decide⟩

/-- A vote window of `u32::MAX` is accepted, and every vote under it aborts. -/
theorem vote_aborts_under_longest_window :
    ¬∀ w : World Book, Reachable (bookHost linkora) w → ∀ id, DeadlinesHold w.store id := by
  intro hclaim
  have hdemo : (demo (fun _ _ _ => True) (fun _ _ => 0)
      [(signedAt 2, .govInitConfig alice 60 10 U32_MAX 0 30),
        (signedAt 5, .govPropose carol .feeBps 300 none none)]).map
        (fun w => match govVote (signedAt 6) w.store carol 1 true with
          | .error e => some e
          | .ok _ => none) = some (some .overflow) := by decide
  obtain ⟨w, hw, hsee⟩ := reachable_demo hdemo
  split at hsee
  · rename_i e he
    obtain rfl := Option.some.inj hsee
    have hmem := (hclaim w hw.reachable 1).vote (signedAt 6) carol true _ (by decide) he
    revert hmem
    decide
  · cases hsee

end Contract
end Linkora
