import Linkora.Lib.Run
import Linkora.Contract.Profiles
import Linkora.Contract.Moderation
import Linkora.Contract.Credentials
import Linkora.Contract.Access
import Linkora.Contract.Ledger

/-!
# The contract as a transition system

Every entry point that can change the storage, with its arguments, is a `Call`,
and `exec` runs one.  Between two calls the token contracts may change by
themselves.  The frame theorem at the end says which groups of the storage a call
can touch, so that an invariant has to look only at the calls that touch its own.
-/

namespace Linkora
namespace Contract

/-- The entry points that can write, in the order of the source. -/
inductive Call where
  | initializeContract (admin treasury : Address) (feeBps : Nat)
  | grantRole (admin account : Address) (role : Role)
  | revokeRole (admin account : Address) (role : Role)
  | setProfile (user : Address) (username : Bytes) (creatorToken : Address)
  | deleteProfile (user : Address)
  | batchCleanupProfile (user : Address) (maxEntries : Nat)
  | setCredentialAuthority (admin : Address) (pubkey : Bytes32)
  | updateCredentialRoot (user : Address) (newRoot : Bytes32) (signature : Bytes64)
  | verifyCredential (user : Address) (proof : List Bytes32) (leaf nullifier : Bytes32)
  | pruneNullifiers (user : Address) (epoch : Nat) (nullifiers : List Bytes32)
  | publishDmKey (user : Address) (x25519Pubkey : Bytes32)
  | follow (follower followee : Address)
  | unfollow (follower followee : Address)
  | migrateFollowGraph (admin : Address) (users : List Address)
  | blockUser (blocker blocked : Address)
  | unblockUser (blocker blocked : Address)
  | createPost (author : Address) (content : Bytes)
  | batchCreatePost (author : Address) (contents : List Bytes)
  | setPostContentHash (author : Address) (postId : Nat) (contentHash : Bytes32)
  | commitPost (author : Address) (contentHash : Bytes32) (revealTime : Nat)
  | revealPost (author : Address) (postId : Nat) (content : Bytes)
  | deletePost (author : Address) (postId : Nat)
  | batchCleanupPost (postId maxEntries : Nat)
  | likePost (user : Address) (postId : Nat)
  | tip (tipper : Address) (postId : Nat) (token : Address) (amount : Int)
  | createPool (admin : Address) (poolId : Symbol) (token : Address)
      (initialAdmins : List Address) (threshold : Nat)
  | poolDeposit (depositor : Address) (poolId : Symbol) (token : Address) (amount : Int)
  | poolWithdraw (signers : List Address) (poolId : Symbol) (amount : Int) (recipient : Address)
      (minOutAmount : Option Int) (deadline : Option Nat)
  | addPoolAdmin (signers : List Address) (poolId : Symbol) (newAdmin : Address)
  | removePoolAdmin (signers : List Address) (poolId : Symbol) (admin : Address)
  | updatePoolThreshold (signers : List Address) (poolId : Symbol) (threshold : Nat)
  | setFee (admin : Address) (feeBps : Nat)
  | setTreasury (admin treasury : Address)
  | setTipCooldownWindow (admin : Address) (cooldownLedgers : Nat)
  | govInitConfig (admin : Address) (quorum timeLockLedgers voteWindowLedgers quorumDecayRateBps
      quorumFloor : Nat)
  | govPropose (proposer : Address) (parameter : GovParameter) (newValue : Nat)
      (newAddress : Option Address) (metadata : Option ProposalMetadata)
  | govVote (voter : Address) (proposalId : Nat) (support : Bool)
  | govDelegate (delegator delegate : Address)
  | govRevokeDelegation (delegator : Address)
  | govExecute (proposalId : Nat)
  | govVeto (signers : List Address) (poolId : Symbol) (proposalId : Nat)
  | registerOracle (admin : Address) (name : Symbol) (pubkey : Bytes32)
  | verifyAnalyticsAttestation (oracleName : Symbol) (reportCbor : Bytes) (signature : Bytes64)
      (creator : Address) (windowStart windowEnd : Nat)
  | upgrade (upgrader : Address) (newWasmHash : Bytes32)
  | payRent (user token : Address) (amount : Int)
  | setRentRateBps (admin : Address) (rate : Nat)
  | batchBumpUserGraph (admin user : Address)
  | reportPost (reporter : Address) (postId : Nat) (token : Address) (stakeAmount : Int)
      (reasonHash : Bytes32)
  | reviewReport (moderator : Address) (signers : List Address) (postId : Nat)
      (reporter : Address) (verdict : ReportStatus)
  | appealModeration (appellant : Address) (postId : Nat) (reasonHash : Bytes32)
  | reviewAppeal (reviewer : Address) (postId : Nat) (approve : Bool)
  | pause
  | unpause
  | pauseModule (admin : Address) (m : PauseModule)
  | unpauseModule (admin : Address) (m : PauseModule)

variable {σ : Type}

def World.onStore (w : World σ) (r : Except Panic State) : Except Panic (World σ) :=
  r.map fun store => { w with store }

theorem World.onStore_eq_ok {w w' : World σ} {r : Except Panic State} :
    w.onStore r = .ok w' ↔ r = .ok w'.store ∧ w'.tokens = w.tokens := by
  rw [World.onStore, Checked.map_eq_ok]
  constructor
  · rintro ⟨s, hs, rfl⟩
    exact ⟨hs, rfl⟩
  · rintro ⟨hs, ht⟩
    exact ⟨w'.store, hs, by rw [← ht]⟩

/-- Run a call.  What it returns besides the storage is dropped. -/
def exec (host : Host σ) (env : Env) (w : World σ) : Call → Except Panic (World σ)
  | .initializeContract admin treasury feeBps =>
    w.onStore (initializeContract env w.store admin treasury feeBps)
  | .grantRole admin account role => w.onStore (grantRole env w.store admin account role)
  | .revokeRole admin account role => w.onStore (revokeRole env w.store admin account role)
  | .setProfile user username creatorToken =>
    w.onStore (setProfile env w.store user username creatorToken)
  | .deleteProfile user => w.onStore (deleteProfile env w.store user)
  | .batchCleanupProfile user maxEntries =>
    w.onStore (batchCleanupProfile w.store user maxEntries)
  | .setCredentialAuthority admin pubkey =>
    w.onStore (setCredentialAuthority env w.store admin pubkey)
  | .updateCredentialRoot user newRoot signature =>
    w.onStore (updateCredentialRoot host env w.store user newRoot signature)
  | .verifyCredential user proof leaf nullifier =>
    w.onStore ((verifyCredential host w.store user proof leaf nullifier).map (·.2))
  | .pruneNullifiers user epoch nullifiers =>
    w.onStore (pruneNullifiers w.store user epoch nullifiers)
  | .publishDmKey user x25519Pubkey => w.onStore (publishDmKey env w.store user x25519Pubkey)
  | .follow follower followee => w.onStore (follow env w.store follower followee)
  | .unfollow follower followee => w.onStore (unfollow env w.store follower followee)
  | .migrateFollowGraph admin users => w.onStore (migrateFollowGraph env w.store admin users)
  | .blockUser blocker blocked => w.onStore (blockUser env w.store blocker blocked)
  | .unblockUser blocker blocked => w.onStore (unblockUser env w.store blocker blocked)
  | .createPost author content =>
    w.onStore ((createPost env w.store author content).map (·.2))
  | .batchCreatePost author contents =>
    w.onStore ((batchCreatePost env w.store author contents).map (·.2))
  | .setPostContentHash author postId contentHash =>
    w.onStore (setPostContentHash env w.store author postId contentHash)
  | .commitPost author contentHash revealTime =>
    w.onStore ((commitPost env w.store author contentHash revealTime).map (·.2))
  | .revealPost author postId content =>
    w.onStore (revealPost host env w.store author postId content)
  | .deletePost author postId => w.onStore (deletePost env w.store author postId)
  | .batchCleanupPost postId maxEntries => w.onStore (batchCleanupPost w.store postId maxEntries)
  | .likePost user postId => w.onStore (likePost env w.store user postId)
  | .tip tipper postId token amount => tip host env w tipper postId token amount
  | .createPool admin poolId token initialAdmins threshold =>
    w.onStore (createPool env w.store admin poolId token initialAdmins threshold)
  | .poolDeposit depositor poolId token amount =>
    poolDeposit host env w depositor poolId token amount
  | .poolWithdraw signers poolId amount recipient minOutAmount deadline =>
    poolWithdraw host env w signers poolId amount recipient minOutAmount deadline
  | .addPoolAdmin signers poolId newAdmin =>
    w.onStore (addPoolAdmin env w.store signers poolId newAdmin)
  | .removePoolAdmin signers poolId admin =>
    w.onStore (removePoolAdmin env w.store signers poolId admin)
  | .updatePoolThreshold signers poolId threshold =>
    w.onStore (updatePoolThreshold env w.store signers poolId threshold)
  | .setFee admin feeBps => w.onStore (setFee env w.store admin feeBps)
  | .setTreasury admin treasury => w.onStore (setTreasury env w.store admin treasury)
  | .setTipCooldownWindow admin cooldownLedgers =>
    w.onStore (setTipCooldownWindow env w.store admin cooldownLedgers)
  | .govInitConfig admin quorum timeLockLedgers voteWindowLedgers quorumDecayRateBps
      quorumFloor =>
    w.onStore (govInitConfig env w.store admin quorum timeLockLedgers voteWindowLedgers
      quorumDecayRateBps quorumFloor)
  | .govPropose proposer parameter newValue newAddress metadata =>
    w.onStore ((govPropose env w.store proposer parameter newValue newAddress metadata).map (·.2))
  | .govVote voter proposalId support => w.onStore (govVote env w.store voter proposalId support)
  | .govDelegate delegator delegate => w.onStore (govDelegate env w.store delegator delegate)
  | .govRevokeDelegation delegator => w.onStore (govRevokeDelegation env w.store delegator)
  | .govExecute proposalId => w.onStore (govExecute env w.store proposalId)
  | .govVeto signers poolId proposalId =>
    w.onStore (govVeto env w.store signers poolId proposalId)
  | .registerOracle admin name pubkey => w.onStore (registerOracle env w.store admin name pubkey)
  | .verifyAnalyticsAttestation oracleName reportCbor signature creator windowStart windowEnd =>
    w.onStore (verifyAnalyticsAttestation host env w.store oracleName reportCbor signature creator
      windowStart windowEnd)
  | .upgrade upgrader newWasmHash => w.onStore (upgrade host env w.store upgrader newWasmHash)
  | .payRent user token amount => payRent host env w user token amount
  | .setRentRateBps admin rate => w.onStore (setRentRateBps env w.store admin rate)
  | .batchBumpUserGraph admin user =>
    (batchBumpUserGraph env w.store admin user).map fun _ => w
  | .reportPost reporter postId token stakeAmount reasonHash =>
    reportPost host env w reporter postId token stakeAmount reasonHash
  | .reviewReport moderator signers postId reporter verdict =>
    reviewReport host env w moderator signers postId reporter verdict
  | .appealModeration appellant postId reasonHash =>
    w.onStore (appealModeration env w.store appellant postId reasonHash)
  | .reviewAppeal reviewer postId approve =>
    w.onStore (reviewAppeal env w.store reviewer postId approve)
  | .pause => w.onStore (pause host w.store)
  | .unpause => w.onStore (unpause host w.store)
  | .pauseModule admin m => w.onStore (pauseModule env w.store admin m)
  | .unpauseModule admin m => w.onStore (unpauseModule env w.store admin m)

/-! ## Runs -/

/-- A step of the system: a call of the contract, or a change of the token
contracts that the contract has no part in. -/
inductive Action (σ : Type) where
  | call (env : Env) (c : Call)
  | others (tokens : σ)

inductive Step (host : Host σ) : World σ → Action σ → World σ → Prop where
  | call {w w' : World σ} {env : Env} {c : Call} :
      exec host env w c = .ok w' → Step host w (.call env c) w'
  | others {w : World σ} {tokens : σ} :
      host.others w.tokens tokens → Step host w (.others tokens) { w with tokens }

/-- The contract has been initialised and not been called since. -/
def Started (w : World σ) : Prop :=
  ∃ env admin treasury feeBps,
    initializeContract env State.empty admin treasury feeBps = .ok w.store

def Reachable (host : Host σ) (w : World σ) : Prop :=
  ∃ w₀ acts, Started w₀ ∧ Run (Step host) w₀ acts w

theorem Reachable.run {host : Host σ} {w w' : World σ} {acts : List (Action σ)}
    (h : Reachable host w) (hrun : Run (Step host) w acts w') : Reachable host w' := by
  obtain ⟨w₀, acts₀, hs, h₀⟩ := h
  exact ⟨w₀, acts₀ ++ acts, hs, h₀.trans hrun⟩

/-- A condition on a call and on the storage it finds. -/
abbrev Condition := State → Env → Call → Prop

def Condition.Met (C : Condition) (w : World σ) : Action σ → Prop
  | .call env c => C w.store env c
  | .others _ => True

/-- Reachable by calls that all meet `C`. -/
def ReachableUnder (host : Host σ) (C : Condition) (w : World σ) : Prop :=
  ∃ w₀ acts, Started w₀ ∧ Run (Run.Guarded (Step host) C.Met) w₀ acts w

theorem ReachableUnder.reachable {host : Host σ} {C : Condition} {w : World σ}
    (h : ReachableUnder host C w) : Reachable host w := by
  obtain ⟨w₀, acts, hs, hr⟩ := h
  exact ⟨w₀, acts, hs, hr.of_guarded⟩

theorem ReachableUnder.mono {host : Host σ} {C C' : Condition} {w : World σ}
    (h : ReachableUnder host C w) (hC : ∀ s env c, C s env c → C' s env c) :
    ReachableUnder host C' w := by
  obtain ⟨w₀, acts, hs, hr⟩ := h
  refine ⟨w₀, acts, hs, hr.mono fun a l b hl => ⟨hl.1, ?_⟩⟩
  cases l with
  | call env c => exact hC _ _ _ hl.2
  | others => trivial

theorem ReachableUnder.call {host : Host σ} {C : Condition} {w w' : World σ} {env : Env}
    {c : Call} (h : ReachableUnder host C w) (hc : C w.store env c)
    (he : exec host env w c = .ok w') : ReachableUnder host C w' := by
  obtain ⟨w₀, acts, hs, hr⟩ := h
  exact ⟨w₀, _, hs, hr.snoc ⟨.call he, hc⟩⟩

theorem ReachableUnder.others {host : Host σ} {C : Condition} {w : World σ} {tokens : σ}
    (h : ReachableUnder host C w) (ho : host.others w.tokens tokens) :
    ReachableUnder host C { w with tokens } := by
  obtain ⟨w₀, acts, hs, hr⟩ := h
  exact ⟨w₀, _, hs, hr.snoc ⟨.others ho, trivial⟩⟩

theorem Reachable.under {host : Host σ} {w : World σ} (h : Reachable host w) :
    ReachableUnder host (fun _ _ _ => True) w := by
  obtain ⟨w₀, acts, hs, hr⟩ := h
  refine ⟨w₀, acts, hs, hr.mono (fun a l b hl => ⟨hl, ?_⟩)⟩
  cases l <;> trivial

theorem ReachableUnder.invariant {host : Host σ} {C : Condition} {I : World σ → Prop}
    {w : World σ} (h : ReachableUnder host C w) (hstart : ∀ w, Started w → I w)
    (hcall : ∀ w env c w', I w → C w.store env c → exec host env w c = .ok w' → I w')
    (hothers : ∀ w tokens, I w → host.others w.tokens tokens → I { w with tokens }) : I w := by
  obtain ⟨w₀, acts, hs, hr⟩ := h
  refine hr.invariant ?_ (hstart w₀ hs)
  rintro a l b ha ⟨hl, hc⟩
  cases hl with
  | call h => exact hcall _ _ _ _ ha hc h
  | others h => exact hothers _ _ ha h

/-- An invariant of the storage alone need not look at the token contracts. -/
theorem ReachableUnder.store_invariant {host : Host σ} {C : Condition} {I : State → Prop}
    {w : World σ} (h : ReachableUnder host C w)
    (hstart : ∀ s env admin treasury feeBps,
      initializeContract env State.empty admin treasury feeBps = .ok s → I s)
    (hcall : ∀ w env c w', I w.store → C w.store env c → exec host env w c = .ok w' →
      I w'.store) : I w.store := by
  refine h.invariant (I := fun w => I w.store) ?_ hcall (fun w tokens hw _ => hw)
  rintro w ⟨env, admin, treasury, feeBps, hs⟩
  exact hstart _ _ _ _ _ hs

theorem Reachable.store_invariant {host : Host σ} {I : State → Prop} {w : World σ}
    (h : Reachable host w)
    (hstart : ∀ s env admin treasury feeBps,
      initializeContract env State.empty admin treasury feeBps = .ok s → I s)
    (hcall : ∀ w env c w', I w.store → exec host env w c = .ok w' → I w'.store) : I w.store :=
  h.under.store_invariant hstart (fun w env c w' hw _ he => hcall w env c w' hw he)

/-- A step of the induction may use what is known of every reachable state. -/
theorem ReachableUnder.store_induction {host : Host σ} {C : Condition} {I : State → Prop}
    {w : World σ} (h : ReachableUnder host C w)
    (hstart : ∀ s env admin treasury feeBps,
      initializeContract env State.empty admin treasury feeBps = .ok s → I s)
    (hcall : ∀ w env c w', ReachableUnder host C w → I w.store → C w.store env c →
      exec host env w c = .ok w' → I w'.store) : I w.store := by
  refine (h.invariant (I := fun w => ReachableUnder host C w ∧ I w.store) ?_ ?_ ?_).2
  · rintro w ⟨env, admin, treasury, feeBps, hs⟩
    exact ⟨⟨w, [], ⟨env, admin, treasury, feeBps, hs⟩, .nil⟩, hstart _ _ _ _ _ hs⟩
  · rintro w env c w' ⟨hr, hw⟩ hc he
    exact ⟨hr.call hc he, hcall w env c w' hr hw hc he⟩
  · rintro w tokens ⟨hr, hw⟩ ho
    exact ⟨hr.others ho, hw⟩

theorem Reachable.store_induction {host : Host σ} {I : State → Prop} {w : World σ}
    (h : Reachable host w)
    (hstart : ∀ s env admin treasury feeBps,
      initializeContract env State.empty admin treasury feeBps = .ok s → I s)
    (hcall : ∀ w env c w', Reachable host w → I w.store → exec host env w c = .ok w' →
      I w'.store) : I w.store :=
  h.under.store_induction hstart
    (fun w env c w' hr hw _ he => hcall w env c w' hr.reachable hw he)

/-! ## Replaying a run

A list of calls can be run from a fresh deployment and its end looked at, which
shows that a state with what is seen there is reachable. -/

def start (env : Env) (admin treasury : Address) (feeBps : Nat) (tokens : σ) :
    Option (World σ) :=
  (initializeContract env State.empty admin treasury feeBps).toOption.map (⟨·, tokens⟩)

/-- Run the calls one after another, as long as each meets `C` and succeeds. -/
def replay (host : Host σ) (C : Condition) [∀ s env c, Decidable (C s env c)] :
    List (Env × Call) → World σ → Option (World σ)
  | [], w => some w
  | (env, c) :: rest, w =>
    if C w.store env c then (exec host env w c).toOption.bind (replay host C rest) else none

theorem toOption_eq_some {ε α : Type} {x : Except ε α} {a : α} :
    x.toOption = some a ↔ x = .ok a := by
  cases x <;> simp [Except.toOption]

theorem run_of_replay {host : Host σ} {C : Condition} [∀ s env c, Decidable (C s env c)]
    {w w' : World σ} {calls : List (Env × Call)} (h : replay host C calls w = some w') :
    Run (Run.Guarded (Step host) C.Met) w (calls.map fun ec => .call ec.1 ec.2) w' := by
  induction calls generalizing w with
  | nil =>
    rw [replay, Option.some.injEq] at h
    exact h ▸ .nil
  | cons ec rest ih =>
    obtain ⟨env, c⟩ := ec
    rw [replay] at h
    split at h
    · rename_i hc
      obtain ⟨v, hv, h⟩ := Option.bind_eq_some_iff.mp h
      exact (Run.single ⟨Step.call (toOption_eq_some.mp hv), hc⟩).trans (ih h)
    · cases h

theorem run_of_start {host : Host σ} {C : Condition} [∀ s env c, Decidable (C s env c)]
    {env : Env} {admin treasury : Address} {feeBps : Nat} {tokens : σ} {calls : List (Env × Call)}
    {β : Type} {see : World σ → β} {b : β}
    (h : ((start env admin treasury feeBps tokens).bind (replay host C calls)).map see = some b) :
    ∃ w₀ w, Started w₀ ∧ see w = b ∧
      Run (Run.Guarded (Step host) C.Met) w₀ (calls.map fun ec => .call ec.1 ec.2) w := by
  obtain ⟨w, hw, hb⟩ := Option.map_eq_some_iff.mp h
  obtain ⟨w₀, hw₀, hw⟩ := Option.bind_eq_some_iff.mp hw
  obtain ⟨s, hs, rfl⟩ := Option.map_eq_some_iff.mp hw₀
  exact ⟨_, w, ⟨_, _, _, _, toOption_eq_some.mp hs⟩, hb, run_of_replay hw⟩

/-- A run on books of balances, from a deployment by `alice` with `bob` as the
treasury. -/
def demo (C : Condition) [∀ s env c, Decidable (C s env c)] (tokens : Book)
    (calls : List (Env × Call)) : Option (World Book) :=
  (start (signedAt 1) alice bob 250 tokens).bind (replay (bookHost linkora) C calls)

theorem run_demo {C : Condition} [∀ s env c, Decidable (C s env c)] {tokens : Book}
    {calls : List (Env × Call)} {β : Type} {see : World Book → β} {b : β}
    (h : (demo C tokens calls).map see = some b) :
    ∃ w₀ w, Started w₀ ∧ see w = b ∧
      Run (Run.Guarded (Step (bookHost linkora)) C.Met) w₀
        (calls.map fun ec => .call ec.1 ec.2) w :=
  run_of_start h

theorem reachable_demo {C : Condition} [∀ s env c, Decidable (C s env c)] {tokens : Book}
    {calls : List (Env × Call)} {β : Type} {see : World Book → β} {b : β}
    (h : (demo C tokens calls).map see = some b) :
    ∃ w, ReachableUnder (bookHost linkora) C w ∧ see w = b := by
  obtain ⟨w₀, w, hs, hb, hrun⟩ := run_demo h
  exact ⟨w, ⟨w₀, _, hs, hrun⟩, hb⟩

/-- A run with one of its calls singled out, and what is seen before the call, after
it, and at the end. -/
def demoAround {β : Type} (C : Condition) [∀ s env c, Decidable (C s env c)] (tokens : Book)
    (before : List (Env × Call)) (call : Env × Call) (after : List (Env × Call))
    (see : World Book → World Book → World Book → β) : Option β :=
  (demo (fun _ _ _ => True) tokens before).bind fun w₀ =>
    (exec (bookHost linkora) call.1 w₀ call.2).toOption.bind fun w₁ =>
      (replay (bookHost linkora) C after w₁).map (see w₀ w₁)

theorem run_demoAround {β : Type} {C : Condition} [∀ s env c, Decidable (C s env c)]
    {tokens : Book} {before after : List (Env × Call)} {call : Env × Call}
    {see : World Book → World Book → World Book → β} {b : β}
    (h : demoAround C tokens before call after see = some b) :
    ∃ w₀ w₁ w₂, Reachable (bookHost linkora) w₀ ∧
      exec (bookHost linkora) call.1 w₀ call.2 = .ok w₁ ∧
      Run (Run.Guarded (Step (bookHost linkora)) C.Met) w₁
        (after.map fun ec => .call ec.1 ec.2) w₂ ∧ see w₀ w₁ w₂ = b := by
  obtain ⟨w₀, hw₀, h⟩ := Option.bind_eq_some_iff.mp h
  obtain ⟨w₁, hw₁, h⟩ := Option.bind_eq_some_iff.mp h
  obtain ⟨w₂, hw₂, hb⟩ := Option.map_eq_some_iff.mp h
  have hdemo : (demo (fun _ _ _ => True) tokens before).map id = some w₀ := by
    rw [hw₀, Option.map_some, id]
  obtain ⟨v, hv, rfl⟩ := reachable_demo hdemo
  exact ⟨v, w₁, w₂, hv.reachable, toOption_eq_some.mp hw₁, run_of_replay hw₂, hb⟩

/-! ## Frames -/

/-- The groups of the storage, the event log apart. -/
inductive Part where
  | access
  | params
  | profiles
  | graph
  | blocks
  | posts
  | likes
  | tips
  | pools
  | gov
  | credentials
  | oracle
  | reports
  | appeals
  deriving DecidableEq

def State.SameOn (s s' : State) : Part → Prop
  | .access => s'.access = s.access
  | .params => s'.params = s.params
  | .profiles => s'.profiles = s.profiles
  | .graph => s'.graph = s.graph
  | .blocks => s'.blocks = s.blocks
  | .posts => s'.posts = s.posts
  | .likes => s'.likes = s.likes
  | .tips => s'.tips = s.tips
  | .pools => s'.pools = s.pools
  | .gov => s'.gov = s.gov
  | .credentials => s'.credentials = s.credentials
  | .oracle => s'.oracle = s.oracle
  | .reports => s'.reports = s.reports
  | .appeals => s'.appeals = s.appeals

/-- The groups a call can write. -/
def Call.parts : Call → List Part
  | .initializeContract .. => [.access, .params]
  | .grantRole .. | .revokeRole .. => [.access]
  | .setProfile .. => [.profiles, .graph]
  | .deleteProfile .. => [.profiles, .credentials, .blocks]
  | .batchCleanupProfile .. => [.profiles, .graph, .posts, .likes, .reports, .tips]
  | .setCredentialAuthority .. | .updateCredentialRoot .. | .verifyCredential ..
  | .pruneNullifiers .. => [.credentials]
  | .publishDmKey .. => [.profiles]
  | .follow .. | .unfollow .. | .migrateFollowGraph .. => [.graph]
  | .blockUser .. => [.blocks, .graph, .posts, .likes]
  | .unblockUser .. => [.blocks]
  | .createPost .. | .batchCreatePost .. | .setPostContentHash .. | .commitPost ..
  | .revealPost .. | .deletePost .. => [.posts]
  | .batchCleanupPost .. => [.posts, .likes, .reports, .tips]
  | .likePost .. => [.posts, .likes]
  | .tip .. => [.posts, .tips]
  | .createPool .. | .poolDeposit .. | .poolWithdraw .. | .addPoolAdmin .. | .removePoolAdmin ..
  | .updatePoolThreshold .. => [.pools]
  | .setFee .. | .setTreasury .. | .setTipCooldownWindow .. | .setRentRateBps .. => [.params]
  | .govInitConfig .. | .govPropose .. | .govVote .. | .govDelegate .. | .govRevokeDelegation ..
  | .govVeto .. => [.gov]
  | .govExecute .. => [.params, .gov]
  | .registerOracle .. | .verifyAnalyticsAttestation .. => [.oracle]
  | .upgrade .. | .pause | .unpause | .pauseModule .. | .unpauseModule .. => [.access]
  | .payRent .. | .batchBumpUserGraph .. => []
  | .reportPost .. => [.reports]
  | .reviewReport .. => [.posts, .appeals, .reports]
  | .appealModeration .. => [.appeals]
  | .reviewAppeal .. => [.posts, .appeals]

/-- The authored-posts loop writes the posts and what hangs on them. -/
theorem drain_cleanupAuthorPost_frame {count left : Nat} {p : List Nat × State}
    {r : Nat × Nat × List Nat × State}
    (h : Checked.drain cleanupAuthorPost count left p = .ok r) :
    ∃ posts likes reports tips, r.2.2.2 = { p.2 with posts, likes, reports, tips } := by
  have hstep : ∀ i (b b' : List Nat × State),
      (∃ posts likes reports tips, b.2 = { p.2 with posts, likes, reports, tips }) →
      cleanupAuthorPost i b = .ok b' →
      ∃ posts likes reports tips, b'.2 = { p.2 with posts, likes, reports, tips } := by
    rintro i b b' ⟨posts, likes, reports, tips, hb⟩ hb'
    obtain ⟨postId, -, -, hq⟩ := cleanupAuthorPost_ok hb'
    rw [hq, hb]
    exact ⟨_, _, _, _, rfl⟩
  exact Checked.drain_invariant (P := fun _ b => ∃ posts likes reports tips,
    b.2 = { p.2 with posts, likes, reports, tips }) hstep ⟨_, _, _, _, rfl⟩ h

/-- Only the graph loops of a profile's cleanup write the graph. -/
theorem batchCleanupProfile_graph {s s' : State} {user : Address} {maxEntries : Nat}
    (h : batchCleanupProfile s user maxEntries = .ok s') : ∃ fCount followingCount left,
      s.graph.cleanupUser user maxEntries = .ok (fCount, followingCount, left, s'.graph) := by
  obtain ⟨-, fCount, followingCount, left, graph, r, authorPosts, deletedProfile, hgraph, hr, -,
    rfl⟩ := batchCleanupProfile_ok h
  obtain ⟨posts, likes, reports, tips, hr⟩ := drain_cleanupAuthorPost_frame hr
  rw [hr]
  exact ⟨fCount, followingCount, left, hgraph⟩

theorem frame_access (s : State) {s' : State} {access : Access} {events : List Event}
    (h : s' = { s with access, events }) {p : Part} (hp : p ∉ [Part.access]) :
    s.SameOn s' p := by
  subst h
  cases p <;> first | rfl | simp at hp

theorem frame_params (s : State) {s' : State} {params : Params} {events : List Event}
    (h : s' = { s with params, events }) {p : Part} (hp : p ∉ [Part.params]) :
    s.SameOn s' p := by
  subst h
  cases p <;> first | rfl | simp at hp

theorem frame_posts (s : State) {s' : State} {posts : Posts} {events : List Event}
    (h : s' = { s with posts, events }) {p : Part} (hp : p ∉ [Part.posts]) :
    s.SameOn s' p := by
  subst h
  cases p <;> first | rfl | simp at hp

theorem frame_graph (s : State) {s' : State} {graph : Graph} {events : List Event}
    (h : s' = { s with graph, events }) {p : Part} (hp : p ∉ [Part.graph]) :
    s.SameOn s' p := by
  subst h
  cases p <;> first | rfl | simp at hp

theorem frame_pools (s : State) {s' : State} {pools : Store Symbol Pool} {events : List Event}
    (h : s' = { s with pools, events }) {p : Part} (hp : p ∉ [Part.pools]) :
    s.SameOn s' p := by
  subst h
  cases p <;> first | rfl | simp at hp

theorem frame_gov (s : State) {s' : State} {gov : Gov} {events : List Event}
    (h : s' = { s with gov, events }) {p : Part} (hp : p ∉ [Part.gov]) :
    s.SameOn s' p := by
  subst h
  cases p <;> first | rfl | simp at hp

theorem frame_credentials (s : State) {s' : State} {credentials : Credentials} {events : List Event}
    (h : s' = { s with credentials, events }) {p : Part} (hp : p ∉ [Part.credentials]) :
    s.SameOn s' p := by
  subst h
  cases p <;> first | rfl | simp at hp

theorem frame_oracle (s : State) {s' : State} {oracle : Oracle} {events : List Event}
    (h : s' = { s with oracle, events }) {p : Part} (hp : p ∉ [Part.oracle]) :
    s.SameOn s' p := by
  subst h
  cases p <;> first | rfl | simp at hp

/-- A successful call keeps every group outside its footprint. -/
theorem exec_frame {host : Host σ} {env : Env} {w w' : World σ} {c : Call}
    (h : exec host env w c = .ok w') {p : Part} (hp : p ∉ c.parts) :
    w.store.SameOn w'.store p := by
  cases c with
  | initializeContract =>
    obtain ⟨-, -, _, _, hs⟩ := initializeContract_ok (World.onStore_eq_ok.mp h).1
    rw [hs]
    cases p <;> first | rfl | simp [Call.parts] at hp
  | grantRole =>
    obtain ⟨_, _, hs⟩ := grantRole_ok (World.onStore_eq_ok.mp h).1
    exact frame_access w.store hs hp
  | revokeRole =>
    obtain ⟨_, _, hs⟩ := revokeRole_ok (World.onStore_eq_ok.mp h).1
    exact frame_access w.store hs hp
  | setProfile =>
    obtain ⟨-, -, _, hs, -⟩ := setProfile_ok (World.onStore_eq_ok.mp h).1
    rw [hs]
    cases p <;> first | rfl | simp [Call.parts] at hp
  | deleteProfile =>
    obtain ⟨-, _, _, hs, -⟩ := deleteProfile_ok (World.onStore_eq_ok.mp h).1
    rw [hs]
    cases p <;> first | rfl | simp [Call.parts] at hp
  | batchCleanupProfile =>
    obtain ⟨-, _, _, _, _, _, _, _, -, hr, -, hs⟩ :=
      batchCleanupProfile_ok (World.onStore_eq_ok.mp h).1
    obtain ⟨_, _, _, _, hr⟩ := drain_cleanupAuthorPost_frame hr
    rw [hs, hr]
    cases p <;> first | rfl | simp [Call.parts] at hp
  | setCredentialAuthority =>
    have hs := setCredentialAuthority_ok (World.onStore_eq_ok.mp h).1
    exact frame_credentials w.store hs hp
  | updateCredentialRoot =>
    obtain ⟨_, _, _, hs⟩ := updateCredentialRoot_ok (World.onStore_eq_ok.mp h).1
    exact frame_credentials w.store hs hp
  | verifyCredential =>
    obtain ⟨r, hr, hrs⟩ := Checked.map_eq_ok.mp (World.onStore_eq_ok.mp h).1
    obtain ⟨_, _, hs⟩ := verifyCredential_ok hr
    exact frame_credentials w.store (hrs.symm.trans hs) hp
  | pruneNullifiers =>
    obtain ⟨_, hs⟩ := pruneNullifiers_ok (World.onStore_eq_ok.mp h).1
    exact frame_credentials w.store hs hp
  | publishDmKey =>
    rw [publishDmKey_ok (World.onStore_eq_ok.mp h).1]
    cases p <;> first | rfl | simp [Call.parts] at hp
  | follow =>
    obtain ⟨-, -, -, -, -, -, -, -, -, _, -, hs⟩ := follow_eq_ok.mp (World.onStore_eq_ok.mp h).1
    exact frame_graph w.store hs.symm hp
  | unfollow =>
    obtain ⟨-, -, -, -, -, _, -, hs⟩ := unfollow_eq_ok.mp (World.onStore_eq_ok.mp h).1
    exact frame_graph w.store hs.symm hp
  | migrateFollowGraph =>
    obtain ⟨_, -, hs⟩ := migrateFollowGraph_ok (World.onStore_eq_ok.mp h).1
    exact frame_graph w.store hs hp
  | blockUser =>
    obtain ⟨-, _, -, hs⟩ := blockUser_ok (World.onStore_eq_ok.mp h).1
    rw [hs]
    cases p <;> first | rfl | simp [Call.parts] at hp
  | unblockUser =>
    rw [unblockUser_ok (World.onStore_eq_ok.mp h).1]
    cases p <;> first | rfl | simp [Call.parts] at hp
  | createPost =>
    obtain ⟨r, hr, hrs⟩ := Checked.map_eq_ok.mp (World.onStore_eq_ok.mp h).1
    obtain ⟨_, -, -, -, -, -, -, hs⟩ := insertPost_ok (createPost_ok hr).2.2
    exact frame_posts w.store (hrs.symm.trans hs) hp
  | batchCreatePost =>
    obtain ⟨r, hr, hrs⟩ := Checked.map_eq_ok.mp (World.onStore_eq_ok.mp h).1
    rw [← hrs]
    refine (batchCreatePost_ok hr).2.2 (fun b => w.store.SameOn b.2 p) ?_ ?_
    · intro b content q hb hq
      obtain ⟨_, -, -, -, -, -, -, hs⟩ := insertPost_ok hq
      rw [hs]
      cases p <;> first | exact hb | simp [Call.parts] at hp
    · cases p <;> rfl
  | setPostContentHash =>
    have hs := setPostContentHash_ok (World.onStore_eq_ok.mp h).1
    exact frame_posts w.store hs hp
  | commitPost =>
    obtain ⟨r, hr, hrs⟩ := Checked.map_eq_ok.mp (World.onStore_eq_ok.mp h).1
    obtain ⟨-, -, q, hq, rfl⟩ := commitPost_ok hr
    obtain ⟨_, -, -, -, -, -, -, hs⟩ := insertPost_ok hq
    rw [← hrs, hs]
    exact frame_posts w.store rfl hp
  | revealPost => exact absurd (World.onStore_eq_ok.mp h).1 revealPost_ne_ok
  | deletePost =>
    obtain ⟨_, -, -, hs⟩ := deletePost_ok (World.onStore_eq_ok.mp h).1
    exact frame_posts w.store hs hp
  | batchCleanupPost =>
    obtain ⟨-, _, _, _, _, -, -, -, -, hs⟩ := batchCleanupPost_ok (World.onStore_eq_ok.mp h).1
    rw [hs]
    cases p <;> first | rfl | simp [Call.parts] at hp
  | likePost =>
    rcases likePost_ok (World.onStore_eq_ok.mp h).1 with ⟨-, hs⟩ | ⟨_, -, -, -, -, hs⟩
    · rw [hs]
      cases p <;> rfl
    · rw [hs]
      cases p <;> first | rfl | simp [Call.parts] at hp
  | tip =>
    obtain ⟨-, -, _, _, _, _, _, _, -, -, -, -, -, rfl⟩ := tip_ok h
    cases p <;> first | rfl | simp [Call.parts] at hp
  | createPool =>
    obtain ⟨-, -, -, hs⟩ := createPool_ok (World.onStore_eq_ok.mp h).1
    exact frame_pools w.store hs hp
  | poolDeposit =>
    obtain ⟨-, -, _, _, -, -, -, -, rfl⟩ := poolDeposit_ok h
    exact frame_pools w.store rfl hp
  | poolWithdraw =>
    obtain ⟨-, _, _, -, -, -, -, rfl⟩ := poolWithdraw_ok h
    exact frame_pools w.store rfl hp
  | addPoolAdmin =>
    obtain ⟨_, -, -, -, hs⟩ := addPoolAdmin_ok (World.onStore_eq_ok.mp h).1
    exact frame_pools w.store hs hp
  | removePoolAdmin =>
    obtain ⟨_, -, -, -, hs⟩ := removePoolAdmin_ok (World.onStore_eq_ok.mp h).1
    exact frame_pools w.store hs hp
  | updatePoolThreshold =>
    obtain ⟨_, -, -, -, -, hs⟩ := updatePoolThreshold_ok (World.onStore_eq_ok.mp h).1
    exact frame_pools w.store hs hp
  | setFee =>
    obtain ⟨-, _, hs⟩ := setFee_ok (World.onStore_eq_ok.mp h).1
    exact frame_params w.store hs hp
  | setTreasury =>
    obtain ⟨-, _, hs⟩ := setTreasury_ok (World.onStore_eq_ok.mp h).1
    exact frame_params w.store hs hp
  | setTipCooldownWindow =>
    obtain ⟨-, hs⟩ := setTipCooldownWindow_ok (World.onStore_eq_ok.mp h).1
    exact frame_params w.store hs hp
  | govInitConfig =>
    obtain ⟨-, hs⟩ := govInitConfig_ok (World.onStore_eq_ok.mp h).1
    exact frame_gov w.store hs hp
  | govPropose =>
    obtain ⟨r, hr, hrs⟩ := Checked.map_eq_ok.mp (World.onStore_eq_ok.mp h).1
    obtain ⟨-, _, -, _, -, rfl⟩ := govPropose_ok hr
    exact frame_gov w.store hrs.symm hp
  | govVote =>
    obtain ⟨_, _, _, -, -, -, -, -, -, hs⟩ := govVote_ok (World.onStore_eq_ok.mp h).1
    exact frame_gov w.store hs hp
  | govDelegate =>
    obtain ⟨_, hs⟩ := govDelegate_ok (World.onStore_eq_ok.mp h).1
    exact frame_gov w.store hs hp
  | govRevokeDelegation =>
    exact frame_gov w.store (govRevokeDelegation_ok (World.onStore_eq_ok.mp h).1) hp
  | govExecute =>
    obtain ⟨_, _, _, -, -, -, -, ht, hs⟩ := govExecute_ok (World.onStore_eq_ok.mp h).1
    obtain ⟨_, _, ht, -⟩ := applyProposal_ok ht
    rw [hs, ht]
    cases p <;> first | rfl | simp [Call.parts] at hp
  | govVeto =>
    obtain ⟨-, -, -, _, -, _, -, -, -, -, -, _, -, -, hs⟩ :=
      govVeto_eq_ok.mp (World.onStore_eq_ok.mp h).1
    exact frame_gov w.store hs.symm hp
  | registerOracle =>
    obtain ⟨_, hs⟩ := registerOracle_ok (World.onStore_eq_ok.mp h).1
    exact frame_oracle w.store hs hp
  | verifyAnalyticsAttestation =>
    obtain ⟨_, _, hs⟩ := verifyAnalyticsAttestation_ok (World.onStore_eq_ok.mp h).1
    exact frame_oracle w.store hs hp
  | upgrade =>
    obtain ⟨_, _, hs⟩ := upgrade_ok (World.onStore_eq_ok.mp h).1
    exact frame_access w.store hs hp
  | payRent =>
    obtain ⟨-, -, _, _, _, _, _, -, -, rfl⟩ := payRent_ok h
    cases p <;> rfl
  | setRentRateBps =>
    obtain ⟨-, -, hs⟩ := setRentRateBps_ok (World.onStore_eq_ok.mp h).1
    exact frame_params w.store hs hp
  | batchBumpUserGraph =>
    obtain ⟨_, -, rfl⟩ := Checked.map_eq_ok.mp h
    cases p <;> rfl
  | reportPost =>
    obtain ⟨-, -, -, -, _, _, -, rfl⟩ := reportPost_ok h
    cases p <;> first | rfl | simp [Call.parts] at hp
  | reviewReport =>
    obtain ⟨-, _, _, v, -, -, -, -, hv, rfl⟩ := reviewReport_ok h
    obtain ⟨_, _, _, hs, -⟩ := resolveReport_store hv
    rw [hs]
    cases p <;> first | rfl | simp [Call.parts] at hp
  | appealModeration =>
    obtain ⟨_, _, hs⟩ := appealModeration_ok (World.onStore_eq_ok.mp h).1
    rw [hs]
    cases p <;> first | rfl | simp [Call.parts] at hp
  | reviewAppeal =>
    obtain ⟨_, _, hs | hs⟩ := reviewAppeal_ok (World.onStore_eq_ok.mp h).1
    · rw [hs]
      cases p <;> first | rfl | simp [Call.parts] at hp
    · rw [hs]
      cases p <;> first | rfl | simp [Call.parts] at hp
  | pause =>
    obtain ⟨-, -, hs⟩ := pause_eq_ok.mp (World.onStore_eq_ok.mp h).1
    exact frame_access w.store hs.symm hp
  | unpause =>
    obtain ⟨-, -, hs⟩ := unpause_eq_ok.mp (World.onStore_eq_ok.mp h).1
    exact frame_access w.store hs.symm hp
  | pauseModule =>
    obtain ⟨_, _, hs⟩ := pauseModule_ok (World.onStore_eq_ok.mp h).1
    exact frame_access w.store hs hp
  | unpauseModule =>
    obtain ⟨_, _, hs⟩ := unpauseModule_ok (World.onStore_eq_ok.mp h).1
    exact frame_access w.store hs hp

/-- Only two calls write the configuration of governance. -/
theorem exec_config {host : Host σ} {env : Env} {w w' : World σ} {c : Call}
    (h : exec host env w c = .ok w')
    (hinit : ∀ admin quorum timeLock voteWindow decay floor,
      c ≠ .govInitConfig admin quorum timeLock voteWindow decay floor)
    (hexec : ∀ id, c ≠ .govExecute id) : w'.store.gov.config = w.store.gov.config := by
  cases c with
  | govInitConfig => exact absurd rfl (hinit _ _ _ _ _ _)
  | govExecute => exact absurd rfl (hexec _)
  | govPropose =>
    obtain ⟨r, hr, hs⟩ := Checked.map_eq_ok.mp (World.onStore_eq_ok.mp h).1
    obtain ⟨-, _, -, _, -, rfl⟩ := govPropose_ok hr
    rw [← hs]
    rfl
  | govVote =>
    obtain ⟨_, _, _, -, -, -, -, -, -, hs⟩ := govVote_ok (World.onStore_eq_ok.mp h).1
    rw [hs]
    rfl
  | govDelegate =>
    obtain ⟨_, hs⟩ := govDelegate_ok (World.onStore_eq_ok.mp h).1
    rw [hs]
  | govRevokeDelegation =>
    rw [govRevokeDelegation_ok (World.onStore_eq_ok.mp h).1]
  | govVeto =>
    obtain ⟨-, -, -, _, -, _, -, -, -, -, -, _, -, -, hs⟩ :=
      govVeto_eq_ok.mp (World.onStore_eq_ok.mp h).1
    rw [← hs]
    rfl
  | _ =>
    have hgov : w.store.SameOn w'.store .gov := exec_frame h (by simp [Call.parts])
    exact congrArg Gov.config hgov

end Contract
end Linkora
