import Linkora.Wire.Values

/-!
# The event structs of the contract

The `#[contractevent]` structs of `linkora-contracts/src/lib.rs`, in the order of the source,
and how a value of one is published: the topics are the name in snake case, or the name that
the attribute gives, and the topic fields in their order, and the data is a map of the other
fields.
-/

namespace Linkora
namespace Wire

inductive FieldType where
  | u32
  | u64
  | i128
  | bool
  | symbol
  | string
  | address
  | bytes32
  | addresses
  | role
  | govParameter
  | pauseModule
  deriving DecidableEq

structure FieldDecl where
  name : String
  isTopic : Bool
  type : FieldType
  deriving DecidableEq

structure EventStruct where
  name : String
  topics : Option String := none
  fields : List FieldDecl
  deriving DecidableEq

def topic (name : String) (type : FieldType) : FieldDecl := ⟨name, true, type⟩

def data (name : String) (type : FieldType) : FieldDecl := ⟨name, false, type⟩

def version : FieldDecl := topic "version" .u32

def eventStructs : List EventStruct := [
  { name := "RentPaidEvent",
    fields := [version, topic "user" .address, topic "payer" .address, topic "token" .address,
      data "amount" .i128, data "extended_to_ledger" .u32] },
  { name := "ProfileSetEvent",
    fields := [version, topic "user" .address, data "username" .string] },
  { name := "FollowEvent",
    fields := [version, topic "follower" .address, topic "followee" .address] },
  { name := "UnfollowEvent",
    fields := [version, topic "follower" .address, topic "followee" .address] },
  { name := "BlockEvent",
    fields := [version, topic "blocker" .address, topic "blocked" .address] },
  { name := "UnblockEvent",
    fields := [version, topic "blocker" .address, topic "blocked" .address] },
  { name := "PostCreatedEvent",
    fields := [version, topic "id" .u64, topic "author" .address] },
  { name := "PostCommittedEvent",
    fields := [version, topic "post_id" .u64, topic "author" .address,
      data "content_hash" .bytes32, data "reveal_time" .u64] },
  { name := "PostRevealedEvent",
    fields := [version, topic "post_id" .u64, topic "author" .address,
      data "content_hash" .bytes32] },
  { name := "TipEvent",
    fields := [version, topic "tipper" .address, topic "post_id" .u64, data "amount" .i128,
      data "fee" .i128] },
  { name := "PoolDepositEvent",
    fields := [version, topic "depositor" .address, topic "pool_id" .symbol,
      data "amount" .i128] },
  { name := "PoolWithdrawEvent",
    fields := [version, topic "recipient" .address, topic "pool_id" .symbol,
      data "amount" .i128] },
  { name := "WithdrawalSlippageExceededEvent", topics := some "withdrawal_slippage_exceeded",
    fields := [version, topic "pool_id" .symbol, data "requested_amount" .i128,
      data "received_amount" .i128, data "min_out_amount" .i128] },
  { name := "PoolCreatedEvent",
    fields := [version, topic "pool_id" .symbol, data "token" .address,
      data "admins" .addresses, data "threshold" .u32] },
  { name := "LikePostEvent",
    fields := [version, topic "user" .address, topic "post_id" .u64] },
  { name := "ContractUpgraded",
    fields := [data "new_wasm_hash" .bytes32] },
  { name := "PausedEvent",
    fields := [version, topic "admin" .address] },
  { name := "UnpausedEvent",
    fields := [version, topic "admin" .address] },
  { name := "ModulePausedEvent",
    fields := [version, data "module" .pauseModule, data "admin" .address] },
  { name := "ModuleUnpausedEvent",
    fields := [version, data "module" .pauseModule, data "admin" .address] },
  { name := "PostDeleted",
    fields := [topic "post_id" .u64, topic "author" .address] },
  { name := "ProfileDeletedEvent",
    fields := [version, topic "user" .address, data "username" .string] },
  { name := "ProposalCreatedEvent",
    fields := [version, topic "pool_id" .symbol, topic "proposal_id" .u64,
      data "proposer" .address, data "amount" .i128, data "recipient" .address] },
  { name := "ProposalSignedEvent",
    fields := [version, topic "pool_id" .symbol, topic "proposal_id" .u64,
      data "signer" .address] },
  { name := "ProposalExecutedEvent",
    fields := [version, topic "pool_id" .symbol, topic "proposal_id" .u64, data "amount" .i128,
      data "recipient" .address] },
  { name := "PoolAdminAddedEvent",
    fields := [version, topic "pool_id" .symbol, data "new_admin" .address] },
  { name := "PoolAdminRemovedEvent",
    fields := [version, topic "pool_id" .symbol, data "admin" .address] },
  { name := "PoolThresholdUpdatedEvent",
    fields := [version, topic "pool_id" .symbol, data "old_threshold" .u32,
      data "new_threshold" .u32] },
  { name := "DmKeyPublishedEvent",
    fields := [version, topic "user" .address, data "public_key" .bytes32] },
  { name := "CredentialRootUpdatedEvent",
    fields := [version, topic "user" .address, data "root" .bytes32] },
  { name := "CredentialVerifiedEvent",
    fields := [version, topic "user" .address, topic "nullifier" .bytes32] },
  { name := "FeeUpdatedEvent",
    fields := [version, topic "name" .symbol, data "old_fee_bps" .u32, data "new_fee_bps" .u32] },
  { name := "TreasuryUpdatedEvent",
    fields := [version, topic "name" .symbol, data "old_treasury" .address,
      data "new_treasury" .address] },
  { name := "RoleGrantedEvent",
    fields := [version, topic "role" .role, topic "account" .address, data "sender" .address] },
  { name := "RoleRevokedEvent",
    fields := [version, topic "role" .role, topic "account" .address, data "sender" .address] },
  { name := "GovProposalCreatedEvent",
    fields := [version, topic "proposal_id" .u64, data "proposer" .address,
      data "parameter" .govParameter, data "new_value" .u64] },
  { name := "GovVoteEvent",
    fields := [version, topic "proposal_id" .u64, topic "voter" .address, data "support" .bool] },
  { name := "GovProposalExecutedEvent",
    fields := [version, topic "proposal_id" .u64, data "parameter" .govParameter,
      data "new_value" .u64] },
  { name := "GovProposalVetoedEvent",
    fields := [version, topic "proposal_id" .u64] },
  { name := "EmergencyBypassEvent",
    fields := [version, topic "action" .symbol] },
  { name := "AttestationVerifiedEvent",
    fields := [version, topic "oracle_name" .symbol, topic "report_hash" .bytes32,
      data "creator" .address, data "window_start" .u64, data "window_end" .u64] },
  { name := "PostReportedEvent",
    fields := [version, topic "post_id" .u64, topic "reporter" .address,
      data "stake_amount" .i128] },
  { name := "PostRemovedByModerationEvent",
    fields := [version, topic "post_id" .u64, topic "reporter" .address] },
  { name := "ReportDismissedEvent",
    fields := [version, topic "post_id" .u64, topic "reporter" .address] },
  { name := "PostContentHashSetEvent",
    fields := [version, topic "post_id" .u64, topic "author" .address,
      data "content_hash" .bytes32] },
  { name := "AppealFiledEvent",
    fields := [version, topic "post_id" .u64, topic "appellant" .address] },
  { name := "AppealResolvedEvent",
    fields := [version, topic "post_id" .u64, topic "approved" .bool] }]

/-! ## Publishing -/

/-- The texts that a symbol can hold. -/
def isSymbol (s : String) : Bool :=
  s.length ≤ 32 && s.toList.all fun c => c.isAlphanum || c == '_'

def roles : List String := ["Admin", "Moderator", "Pauser", "Upgrader"]

def govParameters : List String :=
  ["FeeBps", "Treasury", "TipCooldownWindow", "GovQuorum", "GovTimeLock", "GovVoteWindow",
    "ModerationSlashBps"]

def pauseModules : List String := ["Posts", "Tips", "Pools", "Governance", "Credentials", "Social"]

/-- The values of a type. -/
def FieldType.Has : FieldType → ScVal → Prop
  | .u32, .u32 n => n < 2 ^ 32
  | .u64, .u64 n => n < 2 ^ 64
  | .i128, .i128 z => -2 ^ 127 ≤ z ∧ z < 2 ^ 127
  | .bool, .bool _ => True
  | .symbol, .symbol s => isSymbol s = true
  | .string, .string _ => True
  | .address, .address _ => True
  | .bytes32, .bytes b => b.length = 32
  | .addresses, .addresses _ => True
  | .role, .unit variant => variant ∈ roles
  | .govParameter, .unit variant => variant ∈ govParameters
  | .pauseModule, .unit variant => variant ∈ pauseModules
  | _, _ => False

/-- An underscore before every capital but the first. -/
def snakeCase : List Char → List Char
  | [] => []
  | first :: rest =>
    first.toLower :: rest.flatMap fun c => if c.isUpper then ['_', c.toLower] else [c]

def EventStruct.topicName (s : EventStruct) : String :=
  s.topics.getD (String.ofList (snakeCase s.name.toList))

/-- A published event: a value of the type for each field of one of the structs. -/
structure Published where
  struct : EventStruct
  mem : struct ∈ eventStructs
  value : String → ScVal
  typed : ∀ f ∈ struct.fields, f.type.Has (value f.name)

namespace Published

def topics (e : Published) : List ScVal :=
  .symbol e.struct.topicName ::
    (e.struct.fields.filter fun f => f.isTopic).map fun f => e.value f.name

def data (e : Published) : List (String × ScVal) :=
  (e.struct.fields.filter fun f => !f.isTopic).map fun f => (f.name, e.value f.name)

end Published

example : (eventStructs.take 4).map EventStruct.topicName =
    ["rent_paid_event", "profile_set_event", "follow_event", "unfollow_event"] := by decide

end Wire
end Linkora
