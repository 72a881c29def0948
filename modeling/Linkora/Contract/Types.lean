import Linkora.Lib.Store
import Linkora.Lib.Index

/-!
# Data types of the Linkora contract

The records and enumerations of `linkora-contracts/src/lib.rs`.  The unsigned
integers are natural numbers and `i128` amounts are integers; the places where
the source relies on a width check it explicitly, as the release profile
compiles with `overflow-checks = true`.  A Soroban `String` is its bytes.
-/

namespace Linkora
namespace Contract

abbrev Bytes := List UInt8

/-- `BytesN<32>`, read as a big-endian number. -/
abbrev Bytes32 := BitVec 256

/-- `BytesN<64>`. -/
abbrev Bytes64 := BitVec 512

abbrev Symbol := String

/-- An account key or a contract id. -/
inductive Address where
  | account (key : Bytes32)
  | contract (id : Bytes32)
  deriving DecidableEq

/-- Why a call aborted.  Every abort rolls the whole call back. -/
inductive Panic where
  /-- `panic!`, `assert!`, `expect` and `require_with_error!`, with their text. -/
  | message (text : String)
  /-- `require_auth` of an address that did not authorise the call. -/
  | unauthorized (address : Address)
  /-- A checked arithmetic operation left the range of its type. -/
  | overflow
  /-- `extend_ttl` of an entry that is not stored. -/
  | missingEntry
  /-- The host rejected an Ed25519 signature. -/
  | badSignature
  /-- The called token contract failed. -/
  | tokenCall
  /-- The new implementation has not been uploaded. -/
  | wasmMissing
  deriving DecidableEq

structure Post where
  id : Nat
  author : Address
  content : Bytes
  tipTotal : Int
  timestamp : Nat
  likeCount : Nat
  deriving DecidableEq

structure Profile where
  address : Address
  username : Bytes
  creatorToken : Address
  deriving DecidableEq

structure Pool where
  token : Address
  balance : Int
  admins : List Address
  threshold : Nat
  deriving DecidableEq

structure CommittedPost where
  postId : Nat
  author : Address
  contentHash : Bytes32
  revealTime : Nat
  timestamp : Nat
  deriving DecidableEq

structure ContractState where
  version : Nat
  implementationWasmHash : Option Bytes32
  deriving DecidableEq

inductive GovParameter where
  | feeBps
  | treasury
  | tipCooldownWindow
  | govQuorum
  | govTimeLock
  | govVoteWindow
  | moderationSlashBps
  deriving DecidableEq

inductive Role where
  | admin
  | moderator
  | pauser
  | upgrader
  deriving DecidableEq

inductive GovStatus where
  | active
  | passed
  | executed
  | vetoed
  | failed
  deriving DecidableEq

structure ProposalMetadata where
  title : Bytes
  description : Bytes
  rationale : Option Bytes
  deriving DecidableEq

structure GovProposal where
  id : Nat
  proposer : Address
  parameter : GovParameter
  newValue : Nat
  newAddress : Option Address
  votesFor : Nat
  votesAgainst : Nat
  createdLedger : Nat
  timeLockLedgers : Nat
  status : GovStatus
  expiryLedgers : Nat
  metadata : Option ProposalMetadata
  deriving DecidableEq

structure GovConfig where
  quorum : Nat
  timeLockLedgers : Nat
  voteWindowLedgers : Nat
  quorumDecayRateBps : Nat
  quorumFloor : Nat
  proposalExpiryLedgers : Nat
  deriving DecidableEq

inductive ReportStatus where
  | pending
  | dismissed
  | upheld
  deriving DecidableEq

structure Report where
  postId : Nat
  reporter : Address
  stakeAmount : Int
  token : Address
  reasonHash : Bytes32
  createdLedger : Nat
  status : ReportStatus
  weightBps : Nat
  deriving DecidableEq

inductive AppealStatus where
  | pending
  | approved
  | rejected
  deriving DecidableEq

structure ModerationRecord where
  postId : Nat
  reporter : Address
  removedLedger : Nat
  appealDeadline : Nat
  deriving DecidableEq

structure Appeal where
  postId : Nat
  appellant : Address
  reasonHash : Bytes32
  filedLedger : Nat
  status : AppealStatus
  approvers : List Address
  rejecters : List Address
  deriving DecidableEq

inductive PauseModule where
  | posts
  | tips
  | pools
  | governance
  | credentials
  | social
  deriving DecidableEq

def pauseBit : PauseModule → Nat
  | .posts => 1
  | .tips => 2
  | .pools => 4
  | .governance => 8
  | .credentials => 16
  | .social => 32

/-- The events the contract publishes.  The `version` topic, which is the
constant `EVENT_VERSION` wherever a struct has it, is left out. -/
inductive Event where
  | rentPaid (user payer token : Address) (amount : Int) (extendedToLedger : Nat)
  | profileSet (user : Address) (username : Bytes)
  | follow (follower followee : Address)
  | unfollow (follower followee : Address)
  | block (blocker blocked : Address)
  | unblock (blocker blocked : Address)
  | postCreated (id : Nat) (author : Address)
  | postCommitted (postId : Nat) (author : Address) (contentHash : Bytes32) (revealTime : Nat)
  | postRevealed (postId : Nat) (author : Address) (contentHash : Bytes32)
  | tip (tipper : Address) (postId : Nat) (amount fee : Int)
  | poolDeposit (depositor : Address) (poolId : Symbol) (amount : Int)
  | poolWithdraw (recipient : Address) (poolId : Symbol) (amount : Int)
  | poolCreated (poolId : Symbol) (token : Address) (admins : List Address) (threshold : Nat)
  | likePost (user : Address) (postId : Nat)
  | contractUpgraded (newWasmHash : Bytes32)
  | paused (admin : Address)
  | unpaused (admin : Address)
  | modulePaused (module_ : PauseModule) (admin : Address)
  | moduleUnpaused (module_ : PauseModule) (admin : Address)
  | postDeleted (postId : Nat) (author : Address)
  | profileDeleted (user : Address) (username : Bytes)
  | poolAdminAdded (poolId : Symbol) (newAdmin : Address)
  | poolAdminRemoved (poolId : Symbol) (admin : Address)
  | poolThresholdUpdated (poolId : Symbol) (oldThreshold newThreshold : Nat)
  | dmKeyPublished (user : Address) (publicKey : Bytes32)
  | credentialRootUpdated (user : Address) (root : Bytes32)
  | credentialVerified (user : Address) (nullifier : Bytes32)
  | feeUpdated (name : Symbol) (oldFeeBps newFeeBps : Nat)
  | treasuryUpdated (name : Symbol) (oldTreasury newTreasury : Address)
  | roleGranted (role : Role) (account sender : Address)
  | roleRevoked (role : Role) (account sender : Address)
  | govProposalCreated (proposalId : Nat) (proposer : Address) (parameter : GovParameter)
      (newValue : Nat)
  | govVote (proposalId : Nat) (voter : Address) (support : Bool)
  | govProposalExecuted (proposalId : Nat) (parameter : GovParameter) (newValue : Nat)
  | govProposalVetoed (proposalId : Nat)
  | emergencyBypass (action : Symbol)
  | attestationVerified (oracleName : Symbol) (reportHash : Bytes32) (creator : Address)
      (windowStart windowEnd : Nat)
  | postReported (postId : Nat) (reporter : Address) (stakeAmount : Int)
  | postRemovedByModeration (postId : Nat) (reporter : Address)
  | reportDismissed (postId : Nat) (reporter : Address)
  | postContentHashSet (postId : Nat) (author : Address) (contentHash : Bytes32)
  | appealFiled (postId : Nat) (appellant : Address)
  | appealResolved (postId : Nat) (approved : Bool)

end Contract
end Linkora
