import Linkora.Lib.Text
import Linkora.Wire.Structs

/-!
# Reading the events of the contract

`parseContractEvent` of `packages/sdk/src/events/types.ts` and `processEvent` of
`services/indexer/src/domain-processor.ts`.  Both look for the short names of the events, and
read every field by its name, from the data or from a topic that is an object.  The contract
publishes the names of the structs, and the topic fields by position.
-/

namespace Linkora
namespace Wire

/-- A field as a reader has it. -/
inductive Out where
  | text (s : String)
  | bigint (z : Int)
  | number (z : Option Int)
  | flag (b : Bool)
  | texts (items : List String)
  | raw (v : JsValue)
  deriving DecidableEq

/-- The field is the published value: a number for an integer, a text for an address, a symbol,
a string or a variant, bytes as they are or in base 64. -/
def Out.Equals : Out → ScVal → Prop
  | .text s, .symbol s' => s = s'
  | .text s, .string s' => s = s'
  | .text s, .address a => s = Indexer.strkey a
  | .text s, .bytes b => s = base64 b
  | .text s, .unit variant => s = variant
  | .bigint z, .u64 n => z = n
  | .bigint z, .i128 z' => z = z'
  | .number z, .u32 n => z = some (n : Int)
  | .number z, .u64 n => z = some (n : Int)
  | .flag b, .bool b' => b = b'
  | .texts items, .addresses as => items = as.map Indexer.strkey
  | .raw v, .bytes b => v = .scalar (.bytes b)
  | _, _ => False

/-! ## The SDK -/

/-- `EVENT_NAMES` -/
def eventNames : List (String × String) :=
  [("RentPaidEvent", "rent_paid"), ("rent_paid", "rent_paid"), ("ProfileSetEvent", "profile_set"),
   ("profile_set", "profile_set"), ("FollowEvent", "follow"), ("follow", "follow"),
   ("UnfollowEvent", "unfollow"), ("unfollow", "unfollow"), ("BlockEvent", "block"),
   ("block", "block"), ("UnblockEvent", "unblock"), ("unblock", "unblock"),
   ("PostCreatedEvent", "post_created"), ("post", "post_created"),
   ("post_created", "post_created"), ("PostDeleted", "post_deleted"),
   ("PostDeletedEvent", "post_deleted"), ("post_deleted", "post_deleted"),
   ("LikePostEvent", "like"), ("Like", "like"), ("like", "like"), ("TipEvent", "tip"),
   ("tip", "tip"), ("PoolDepositEvent", "pool_deposit"), ("deposit", "pool_deposit"),
   ("pool_deposit", "pool_deposit"), ("PoolWithdrawEvent", "pool_withdraw"),
   ("withdraw", "pool_withdraw"), ("pool_withdraw", "pool_withdraw"),
   ("WithdrawalSlippageExceededEvent", "withdrawal_slippage_exceeded"),
   ("withdrawal_slippage_exceeded", "withdrawal_slippage_exceeded"),
   ("PoolCreatedEvent", "pool_created"), ("pool_created", "pool_created"),
   ("ContractUpgraded", "contract_upgraded"), ("contract_upgraded", "contract_upgraded"),
   ("ProposalCreatedEvent", "proposal_created"), ("proposal_created", "proposal_created"),
   ("ProposalSignedEvent", "proposal_signed"), ("proposal_signed", "proposal_signed"),
   ("ProposalExecutedEvent", "proposal_executed"), ("proposal_executed", "proposal_executed"),
   ("PoolAdminAddedEvent", "pool_admin_added"), ("pool_admin_added", "pool_admin_added"),
   ("PoolAdminRemovedEvent", "pool_admin_removed"), ("pool_admin_removed", "pool_admin_removed"),
   ("PoolThresholdUpdatedEvent", "pool_threshold_updated"),
   ("pool_threshold_updated", "pool_threshold_updated"),
   ("DmKeyPublishedEvent", "dm_key_published"), ("dm_key_published", "dm_key_published"),
   ("CredentialRootUpdatedEvent", "credential_root_updated"),
   ("credential_root_updated", "credential_root_updated"),
   ("CredentialVerifiedEvent", "credential_verified"),
   ("credential_verified", "credential_verified"), ("FeeUpdatedEvent", "fee_updated"),
   ("fee_updated", "fee_updated"), ("TreasuryUpdatedEvent", "treasury_updated"),
   ("treasury_updated", "treasury_updated"), ("GovProposalCreatedEvent", "gov_proposal_created"),
   ("gov_proposal_created", "gov_proposal_created"), ("GovVoteEvent", "gov_vote"),
   ("gov_vote", "gov_vote"), ("GovProposalExecutedEvent", "gov_proposal_executed"),
   ("gov_proposal_executed", "gov_proposal_executed"),
   ("GovProposalVetoedEvent", "gov_proposal_vetoed"),
   ("gov_proposal_vetoed", "gov_proposal_vetoed"), ("EmergencyBypassEvent", "emergency_bypass"),
   ("emergency_bypass", "emergency_bypass"), ("PostCommittedEvent", "post_committed"),
   ("post_committed", "post_committed"), ("PostRevealedEvent", "post_revealed"),
   ("post_revealed", "post_revealed"), ("AttestationVerifiedEvent", "attestation_verified"),
   ("attestation_verified", "attestation_verified"), ("PostReportedEvent", "post_reported"),
   ("post_reported", "post_reported"),
   ("PostRemovedByModerationEvent", "post_removed_by_moderation"),
   ("post_removed_by_moderation", "post_removed_by_moderation"),
   ("ReportDismissedEvent", "report_dismissed"), ("report_dismissed", "report_dismissed")]

/-- What every object has by its prototype. -/
def inherited : List String :=
  ["constructor", "hasOwnProperty", "isPrototypeOf", "propertyIsEnumerable", "toLocaleString",
    "toString", "valueOf", "__defineGetter__", "__defineSetter__", "__lookupGetter__",
    "__lookupSetter__", "__proto__"]

/-- `EVENT_NAMES[topic]`; what is inherited is no name of an event. -/
inductive Named where
  | event (type : String)
  | inherited
  deriving DecidableEq

def nameOf (topic : String) : Option Named :=
  match eventNames.lookup topic with
  | some type => some (.event type)
  | none => if topic ∈ inherited then some .inherited else none

def findEventType : List JsValue → Option Named
  | [] => none
  | .scalar (.string topic) :: rest => (nameOf topic).or (findEventType rest)
  | _ :: rest => findEventType rest

def payloadFrom (topics : List JsValue) (data : Payload) : Payload :=
  data ++ topics.flatMap topicEntries

/-- How a case of the `switch` reads a field. -/
inductive Reader where
  | str
  | num
  | big
  | boolean
  | strArray
  /-- `as Uint8Array` -/
  | asBytes
  /-- The same, of another field if there is none of the name. -/
  | asBytesOr (other : String)
  deriving DecidableEq

def JsValue.str : JsValue → String
  | .scalar (.bytes b) => base64 b
  | v => v.text

/-- `big` throws where there is no integer. -/
def Reader.read (payload : Payload) (name : String) : Reader → Option Out
  | .str => some (.text (payload.get name).str)
  | .num => some (.number (payload.get name).number)
  | .big => (payload.get name).bigInt.map .bigint
  | .boolean => some (.flag (payload.get name).truthy)
  | .strArray => some <| .texts <|
    match payload.get name with
    | .array items => items.map fun item => JsValue.str (.scalar item)
    | _ => []
  | .asBytes => some (.raw (payload.get name))
  | .asBytesOr other => some <| .raw <|
    if payload.get name = .undefined then payload.get other else payload.get name

/-- The cases of the `switch`. -/
def parseCases : List (String × List (String × Reader)) := [
  ("rent_paid", [("user", .str), ("payer", .str), ("token", .str), ("amount", .big),
    ("extended_to_ledger", .num)]),
  ("profile_set", [("user", .str), ("username", .str)]),
  ("follow", [("follower", .str), ("followee", .str)]),
  ("unfollow", [("follower", .str), ("followee", .str)]),
  ("block", [("blocker", .str), ("blocked", .str)]),
  ("unblock", [("blocker", .str), ("blocked", .str)]),
  ("post_created", [("id", .big), ("author", .str)]),
  ("post_deleted", [("post_id", .big), ("author", .str)]),
  ("like", [("user", .str), ("post_id", .big)]),
  ("tip", [("tipper", .str), ("post_id", .big), ("amount", .big), ("fee", .big)]),
  ("pool_deposit", [("depositor", .str), ("pool_id", .str), ("amount", .big)]),
  ("pool_withdraw", [("recipient", .str), ("pool_id", .str), ("amount", .big)]),
  ("withdrawal_slippage_exceeded", [("pool_id", .str), ("requested_amount", .big),
    ("received_amount", .big), ("min_out_amount", .big)]),
  ("pool_created", [("pool_id", .str), ("token", .str), ("admins", .strArray),
    ("threshold", .num)]),
  ("contract_upgraded", [("new_wasm_hash", .asBytes)]),
  ("proposal_created", [("pool_id", .str), ("proposal_id", .big), ("proposer", .str),
    ("amount", .big), ("recipient", .str)]),
  ("proposal_signed", [("pool_id", .str), ("proposal_id", .big), ("signer", .str)]),
  ("proposal_executed", [("pool_id", .str), ("proposal_id", .big), ("amount", .big),
    ("recipient", .str)]),
  ("pool_admin_added", [("pool_id", .str), ("new_admin", .str)]),
  ("pool_admin_removed", [("pool_id", .str), ("admin", .str)]),
  ("pool_threshold_updated", [("pool_id", .str), ("old_threshold", .num),
    ("new_threshold", .num)]),
  ("dm_key_published", [("user", .str), ("public_key", .asBytesOr "key")]),
  ("credential_root_updated", [("user", .str), ("root", .str)]),
  ("credential_verified", [("user", .str), ("nullifier", .str)]),
  ("fee_updated", [("name", .str), ("old_fee_bps", .num), ("new_fee_bps", .num)]),
  ("treasury_updated", [("name", .str), ("old_treasury", .str), ("new_treasury", .str)]),
  ("gov_proposal_created", [("proposal_id", .big), ("proposer", .str), ("parameter", .str),
    ("new_value", .big)]),
  ("gov_vote", [("proposal_id", .big), ("voter", .str), ("support", .boolean)]),
  ("gov_proposal_executed", [("proposal_id", .big), ("parameter", .str), ("new_value", .big)]),
  ("gov_proposal_vetoed", [("proposal_id", .big)]),
  ("emergency_bypass", [("action", .str)]),
  ("attestation_verified", [("oracle_name", .str), ("report_hash", .str), ("creator", .str),
    ("window_start", .num), ("window_end", .num)]),
  ("post_reported", [("post_id", .big), ("reporter", .str), ("stake_amount", .big)]),
  ("post_removed_by_moderation", [("post_id", .big), ("reporter", .str)]),
  ("report_dismissed", [("post_id", .big), ("reporter", .str)]),
  ("post_committed", [("version", .num), ("post_id", .big), ("author", .str),
    ("content_hash", .asBytes), ("reveal_time", .big)]),
  ("post_revealed", [("version", .num), ("post_id", .big), ("author", .str),
    ("content_hash", .asBytes)])]

/-- An event of the SDK: its type and its fields. -/
structure ParsedEvent where
  type : String
  fields : List (String × Out)
  deriving DecidableEq

/-- One field of the result. -/
def readField (payload : Payload) (field : String × Reader) : Option (String × Out) :=
  (field.2.read payload field.1).map fun out => (field.1, out)

/-- What `parseContractEvent` makes of the decoded topics and the decoded data. -/
def parseDecoded (topics : List JsValue) (data : Payload) : Option ParsedEvent :=
  match findEventType topics with
  | some (.event type) =>
    (parseCases.lookup type).bind fun fields =>
      (fields.mapM (readField (payloadFrom topics data))).map fun outs => ⟨type, outs⟩
  | _ => none

def decodeMap (data : List (String × ScVal)) : Payload :=
  data.map fun entry => (entry.1, scValToNative entry.2)

def parseContractEvent (topics : List ScVal) (data : List (String × ScVal)) : Option ParsedEvent :=
  parseDecoded (topics.map scValToNative) (decodeMap data)

/-! ## The indexer -/

/-- An event as the RPC server delivers it, apart from its topics and its data.  Its id is the
position of its transaction or operation and its place there. -/
structure EventInfo where
  toid : Nat
  index : Nat
  txHash : String
  ledgerClosedAt : String
  pagingToken : String

def digitChars (k n : Nat) : List Char :=
  (Indexer.baseDigits 10 k n).map fun d => Char.ofNat (48 + d)

def EventInfo.id (info : EventInfo) : String :=
  String.ofList (digitChars 19 info.toid ++ '-' :: digitChars 10 info.index)

/-- How `processEvent` reads a value; `??` passes over what is undefined. -/
inductive IndexerReader where
  | asString
  | asBigInt
  | boolean
  | stringArray
  /-- `Number(value) || 1` -/
  | numberOrOne
  deriving DecidableEq

structure Argument where
  name : String
  keys : List String
  reader : IndexerReader
  deriving DecidableEq

structure HandlerCase where
  handler : String
  needsDb : Bool
  arguments : List Argument
  deriving DecidableEq

def str (name : String) (keys : List String) : Argument := ⟨name, keys, .asString⟩

def big (name : String) (keys : List String) : Argument := ⟨name, keys, .asBigInt⟩

def followArguments : List Argument :=
  [str "follower" ["follower", "from"], str "followee" ["followee", "to"]]

def tipCase : HandlerCase :=
  ⟨"handleTip", false, [str "tipper" ["tipper", "from"], big "post_id" ["post_id"],
    big "amount" ["amount"], big "fee" ["fee"], str "txHash" ["txHash", "tx_hash"]]⟩

def likeCase : HandlerCase :=
  ⟨"handleLike", false, [str "user" ["user", "actor"], big "post_id" ["post_id"],
    str "txHash" ["txHash", "tx_hash"]]⟩

def blockArguments : List Argument := [str "blocker" ["blocker"], str "blocked" ["blocked"]]

/-- The cases of the `switch`, with what they pass to their handlers. -/
def handlerCases : List (String × HandlerCase) := [
  ("follow", ⟨"handleFollow", false, followArguments⟩),
  ("unfollow", ⟨"handleUnfollow", false, followArguments⟩),
  ("tip", tipCase),
  ("tip_received", tipCase),
  ("like", likeCase),
  ("like_received", likeCase),
  ("gov_proposal_created", ⟨"handleGovProposalCreated", true,
    [big "proposal_id" ["proposal_id"], str "proposer" ["proposer"],
      str "parameter" ["parameter"], big "new_value" ["new_value"]]⟩),
  ("gov_vote", ⟨"handleGovVote", true, [big "proposal_id" ["proposal_id"],
    str "voter" ["voter"], ⟨"support", ["support"], .boolean⟩]⟩),
  ("gov_proposal_executed", ⟨"handleGovProposalExecuted", true,
    [big "proposal_id" ["proposal_id"], str "parameter" ["parameter"],
      big "new_value" ["new_value"]]⟩),
  ("gov_proposal_vetoed", ⟨"handleGovProposalVetoed", true,
    [big "proposal_id" ["proposal_id"]]⟩),
  ("post_reported", ⟨"handlePostReported", true, [big "post_id" ["post_id"],
    str "reporter_address" ["reporter_address", "reporter"], str "reason" ["reason"],
    str "txHash" ["txHash", "tx_hash"]]⟩),
  ("report_dismissed", ⟨"handleReportDismissed", true, [big "post_id" ["post_id"],
    str "reporter_address" ["reporter_address", "reporter"],
    str "moderator_address" ["moderator_address", "moderator"],
    str "moderator_notes" ["moderator_notes"], str "txHash" ["txHash", "tx_hash"]]⟩),
  ("post_removed_by_moderation", ⟨"handlePostRemovedByModeration", true,
    [big "post_id" ["post_id"], str "moderator_address" ["moderator_address", "moderator"],
      str "reason" ["reason"], str "txHash" ["txHash", "tx_hash"]]⟩),
  ("block", ⟨"handleBlock", false, blockArguments⟩),
  ("unblock", ⟨"handleUnblock", false, blockArguments⟩),
  ("dm_key_published", ⟨"handleDmKeyPublished", false, [str "address" ["user"],
    str "x25519_pubkey" ["public_key", "key"]]⟩),
  ("profile_set", ⟨"handleProfileSet", true, [str "user" ["user", "address"],
    str "username" ["username"], str "creator_token" ["creator_token", "creatorToken"]]⟩),
  ("profile_deleted", ⟨"deleteProfile", true, [str "user" ["user", "address"]]⟩),
  ("post_created", ⟨"insertPost", true, [big "id" ["id", "post_id"], str "author" ["author"],
    str "content" ["content"]]⟩),
  ("post_deleted", ⟨"markPostDeleted", true, [big "post_id" ["post_id", "id"]]⟩),
  ("pool_created", ⟨"handlePoolCreated", true, [str "pool_id" ["pool_id"], str "token" ["token"],
    ⟨"admins", ["admins"], .stringArray⟩, ⟨"threshold", ["threshold"], .numberOrOne⟩]⟩),
  ("pool_deposit", ⟨"handlePoolDeposit", true, [str "pool_id" ["pool_id"],
    str "depositor" ["depositor", "user", "from"], str "token" ["token"],
    big "amount" ["amount"]]⟩),
  ("pool_withdraw", ⟨"handlePoolWithdraw", true, [str "pool_id" ["pool_id"],
    str "recipient" ["recipient", "user", "to"], big "amount" ["amount"]]⟩),
  ("pool_admin_added", ⟨"handlePoolAdminAdded", true, [str "pool_id" ["pool_id"],
    str "new_admin" ["new_admin", "admin"]]⟩),
  ("pool_admin_removed", ⟨"handlePoolAdminRemoved", true, [str "pool_id" ["pool_id"],
    str "removed_admin" ["removed_admin", "admin"]]⟩)]

/-- `data.a ?? data.b` -/
def Payload.getFirst (payload : Payload) : List String → JsValue
  | [] => .undefined
  | key :: rest =>
    if payload.get key = .undefined then payload.getFirst rest else payload.get key

/-- `String(value ?? "")` -/
def JsValue.asString (v : JsValue) : String := if v = .undefined then "" else v.text

/-- None stands for a `MalformedEventValueError`. -/
def Argument.read (payload : Payload) (argument : Argument) : Option (String × Out) :=
  let value := payload.getFirst argument.keys
  match argument.reader with
  | .asString => some (argument.name, .text value.asString)
  | .asBigInt =>
    match value with
    | .scalar (.bigint z) => some (argument.name, .bigint z)
    | _ => value.number.map fun z => (argument.name, .bigint z)
  | .boolean => some (argument.name, .flag value.truthy)
  | .stringArray =>
    match value with
    | .array items => some (argument.name, .texts (items.map fun item =>
        JsValue.asString (.scalar item)))
    | _ => some (argument.name, .texts [])
  | .numberOrOne => some (argument.name, .number (some ((value.number.filter (· ≠ 0)).getD 1)))

structure HandlerCall where
  handler : String
  arguments : List (String × Out)
  deriving DecidableEq

/-- What the data is read from: the map that the event holds, or what was delivered with it if
the map is empty. -/
def indexerPayload (topics : List JsValue) (data : Payload) (value : String) (info : EventInfo) :
    Payload :=
  let delivered : Payload := [("id", .scalar (.string info.id)), ("value", .scalar (.string value)),
    ("txHash", .scalar (.string info.txHash)),
    ("ledgerClosedAt", .scalar (.string info.ledgerClosedAt)),
    ("pagingToken", .scalar (.string info.pagingToken))]
  (if data = [] then delivered else data) ++ topics.flatMap topicEntries

def lowerCase (s : String) : String := String.ofList (s.toList.map Char.toLower)

def topicText : List JsValue → String
  | .scalar (.string topic) :: _ => lowerCase topic
  | _ => ""

/-- The handler that is called, if one is; `.error` for a malformed value.  Some handlers need
the database. -/
def processDecoded (db : Bool) (topics : List JsValue) (payload : Payload) :
    Except Unit (Option HandlerCall) :=
  match handlerCases.lookup (topicText topics) with
  | none => .ok none
  | some c =>
    if c.needsDb && !db then .ok none
    else
      match c.arguments.mapM (Argument.read payload) with
      | none => .error ()
      | some arguments => .ok (some ⟨c.handler, arguments⟩)

/-- `value` is the text that the data was delivered as. -/
def processEvent (db : Bool) (topics : List ScVal) (data : List (String × ScVal)) (value : String)
    (info : EventInfo) : Except Unit (Option HandlerCall) :=
  let natives := topics.map scValToNative
  processDecoded db natives (indexerPayload natives (decodeMap data) value info)

/-! ## What is aimed at -/

/-- The SDK's type for the struct. -/
def sdkType (s : EventStruct) : Option String :=
  match nameOf s.name with
  | some (.event type) => some type
  | _ => none

/-- The case of the indexer that is meant for the struct.  A deleted profile is no event of the
SDK. -/
def indexerTopic (s : EventStruct) : Option String :=
  ((sdkType s).or (if s.name = "ProfileDeletedEvent" then some "profile_deleted" else none)).filter
    fun topic => (handlerCases.lookup topic).isSome

namespace Published

/-- The SDK returns an event of the type with the published fields. -/
def Parsed (e : Published) (type : String) : Prop :=
  ∃ fields, parseContractEvent e.topics e.data = some ⟨type, fields⟩ ∧
    ∀ field ∈ fields, field.2.Equals (e.value field.1)

/-- The indexer calls the handler of the case, with the published fields. -/
def Dispatched (e : Published) (topic : String) (db : Bool) (value : String) (info : EventInfo) :
    Prop :=
  ∃ c arguments, handlerCases.lookup topic = some c ∧
    processEvent db e.topics e.data value info = .ok (some ⟨c.handler, arguments⟩) ∧
    ∀ argument ∈ c.arguments, ∀ f ∈ e.struct.fields, f.name ∈ argument.keys →
      ∃ out, (argument.name, out) ∈ arguments ∧ out.Equals (e.value f.name)

end Published

/-! ## The tables -/

/-- The fields that the case of a type reads. -/
def reads (type : String) : List (String × Reader) := (parseCases.lookup type).getD []

def upgraded : EventStruct := ⟨"ContractUpgraded", none, [data "new_wasm_hash" .bytes32]⟩

def slippageExceeded : EventStruct :=
  ⟨"WithdrawalSlippageExceededEvent", some "withdrawal_slippage_exceeded",
    [version, topic "pool_id" .symbol, data "requested_amount" .i128,
      data "received_amount" .i128, data "min_out_amount" .i128]⟩

def deleted : EventStruct :=
  ⟨"PostDeleted", none, [topic "post_id" .u64, topic "author" .address]⟩

/-- The names in the structs, compared as bytes where their characters matter. -/
theorem structs_checked : ∀ s ∈ eventStructs, (s.fields.map FieldDecl.name).Nodup ∧
    (∀ f ∈ s.fields, (Text.utf8 f.name).all (· < 128) = true ∧
      ((Text.utf8 f.name).map fun b => Char.ofNat b.toNat).all Char.isDigit = false) ∧
    (s.name = "ContractUpgraded" → s = upgraded) ∧
    (s.name = "WithdrawalSlippageExceededEvent" → s = slippageExceeded) := by
  decide +kernel

theorem names_nodup : ∀ s ∈ eventStructs, (s.fields.map FieldDecl.name).Nodup :=
  fun s hs => (structs_checked s hs).1

theorem names_not_numeric : ∀ s ∈ eventStructs, ∀ f ∈ s.fields,
    f.name.toList.all Char.isDigit = false := by
  intro s hs f hf
  obtain ⟨hascii, hdigits⟩ := (structs_checked s hs).2.1 f hf
  rw [Text.toList_of_ascii hascii]
  exact hdigits

theorem eq_upgraded : ∀ s ∈ eventStructs, s.name = "ContractUpgraded" → s = upgraded :=
  fun s hs => (structs_checked s hs).2.2.1

theorem eq_slippageExceeded : ∀ s ∈ eventStructs, s.name = "WithdrawalSlippageExceededEvent" →
    s = slippageExceeded :=
  fun s hs => (structs_checked s hs).2.2.2

/-- The topic fields are numbers, or symbols that the SDK reads as texts. -/
def OnlySymbols (s : EventStruct) (type : String) : Prop :=
  ∀ f ∈ s.fields, f.isTopic = true →
    f.type = .u32 ∨ (f.type = .symbol ∧ (f.name, Reader.str) ∈ reads type)

/-- A topic field that is no text is read. -/
def ReadsTopic (s : EventStruct) (type : String) : Prop :=
  ∃ f ∈ s.fields, f.isTopic = true ∧ f.type ∉ [.symbol, .string] ∧
    ∃ r ∈ [Reader.str, .num, .big], (f.name, r) ∈ reads type

instance (s : EventStruct) (type : String) : Decidable (OnlySymbols s type) :=
  inferInstanceAs (Decidable (∀ f ∈ s.fields, _))

instance (s : EventStruct) (type : String) : Decidable (ReadsTopic s type) :=
  inferInstanceAs (Decidable (∃ f ∈ s.fields, _))

/-- The list is long; its parts are evaluated one after another. -/
theorem forall_of_parts {P : EventStruct → Prop} (h₀ : ∀ s ∈ eventStructs.take 14, P s)
    (h₁ : ∀ s ∈ (eventStructs.drop 14).take 14, P s)
    (h₂ : ∀ s ∈ (eventStructs.drop 28).take 14, P s)
    (h₃ : ∀ s ∈ eventStructs.drop 42, P s) : ∀ s ∈ eventStructs, P s := by
  intro s hs
  rw [← List.take_append_drop 14 eventStructs] at hs
  rcases List.mem_append.mp hs with hs | hs
  · exact h₀ s hs
  rw [← List.take_append_drop 14 (eventStructs.drop 14), List.drop_drop] at hs
  rcases List.mem_append.mp hs with hs | hs
  · exact h₁ s hs
  rw [← List.take_append_drop 14 (eventStructs.drop 28), List.drop_drop] at hs
  rcases List.mem_append.mp hs with hs | hs
  · exact h₂ s hs
  · exact h₃ s hs

theorem topic_read : ∀ s ∈ eventStructs, ∀ type ∈ sdkType s, s ≠ upgraded →
    s ≠ slippageExceeded → ReadsTopic s type ∨ OnlySymbols s type := by
  apply forall_of_parts
  · decide +kernel
  · decide +kernel
  · decide +kernel
  · decide +kernel

/-! ## The names

A struct whose name ends in `Event` is published under a name that ends in `_event`, and no
reader looks for such a name. -/

def endsInEvent (name : List Char) : Bool := ['_', 'e', 'v', 'e', 'n', 't'].isSuffixOf name

/-- The suffix can be seen in the bytes of the name. -/
theorem utf8_of_endsInEvent {name : String} (h : endsInEvent name.toList = true) :
    (Text.utf8 "_event").isSuffixOf (Text.utf8 name) = true := by
  obtain ⟨front, hfront⟩ := List.isSuffixOf_iff_suffix.mp h
  have hname : name = String.ofList front ++ "_event" := by
    apply String.toList_inj.mp
    rw [String.toList_append, String.toList_ofList, ← hfront]
    rfl
  rw [hname, Text.utf8_append]
  exact List.isSuffixOf_iff_suffix.mpr (List.suffix_append _ _)

theorem endsInEvent_of_utf8 {name : String}
    (h : (Text.utf8 "_event").isSuffixOf (Text.utf8 name) = false) :
    endsInEvent name.toList = false := by
  apply Bool.eq_false_iff.mpr
  intro hends
  rw [utf8_of_endsInEvent hends] at h
  cases h

theorem structs_endInEvent : ∀ s ∈ eventStructs, s = upgraded ∨ s = slippageExceeded ∨
    s = deleted ∨ (s.topics = none ∧ endsInEvent (snakeCase s.name.toList) = true) := by
  have hbytes : ∀ s ∈ eventStructs, (Text.utf8 s.name).all (· < 128) = true ∧
      (s = upgraded ∨ s = slippageExceeded ∨ s = deleted ∨ (s.topics = none ∧
        endsInEvent (snakeCase ((Text.utf8 s.name).map fun b => Char.ofNat b.toNat)) = true)) := by
    decide +kernel
  intro s hs
  rw [Text.toList_of_ascii (hbytes s hs).1]
  exact (hbytes s hs).2

/-- What the readers look names up in. -/
theorem tables_not_endInEvent : ∀ name ∈ eventNames.map Prod.fst ++ inherited ++
    handlerCases.map Prod.fst, endsInEvent name.toList = false := by
  have hbytes : ∀ name ∈ eventNames.map Prod.fst ++ inherited ++ handlerCases.map Prod.fst,
      (Text.utf8 "_event").isSuffixOf (Text.utf8 name) = false := by
    decide +kernel
  exact fun name hname => endsInEvent_of_utf8 (hbytes name hname)

theorem eventNames_not_endsInEvent : ∀ entry ∈ eventNames,
    endsInEvent entry.1.toList = false :=
  fun _ hentry => tables_not_endInEvent _
    (List.mem_append_left _ (List.mem_append_left _ (List.mem_map_of_mem hentry)))

theorem inherited_not_endsInEvent : ∀ name ∈ inherited, endsInEvent name.toList = false :=
  fun _ hname => tables_not_endInEvent _ (List.mem_append_left _ (List.mem_append_right _ hname))

theorem handlerCases_not_endsInEvent : ∀ entry ∈ handlerCases,
    endsInEvent entry.1.toList = false :=
  fun _ hentry => tables_not_endInEvent _ (List.mem_append_right _ (List.mem_map_of_mem hentry))

theorem topicName_endsInEvent {s : EventStruct} (hs : s ∈ eventStructs) (hup : s ≠ upgraded)
    (hslip : s ≠ slippageExceeded) (hdel : s ≠ deleted) :
    endsInEvent s.topicName.toList = true := by
  rcases structs_endInEvent s hs with h | h | h | ⟨htopics, hends⟩
  · exact absurd h hup
  · exact absurd h hslip
  · exact absurd h hdel
  · rw [EventStruct.topicName, htopics, Option.getD_none, String.toList_ofList]
    exact hends

theorem lookup_eq_none_of_forall {β : Type} {table : List (String × β)} {name : String}
    (h : ∀ entry ∈ table, entry.1 ≠ name) : table.lookup name = none := by
  apply List.lookup_eq_none_iff.mpr
  intro entry hentry
  have hne := h entry hentry
  simpa using hne.symm

theorem nameOf_of_endsInEvent {name : String} (h : endsInEvent name.toList = true) :
    nameOf name = none := by
  have hlookup : eventNames.lookup name = none := by
    apply lookup_eq_none_of_forall
    rintro entry hentry rfl
    rw [eventNames_not_endsInEvent entry hentry] at h
    cases h
  have hinherited : name ∉ inherited := by
    intro hmem
    rw [inherited_not_endsInEvent name hmem] at h
    cases h
  rw [nameOf, hlookup]
  exact if_neg hinherited

theorem lowerCase_endsInEvent {name : String} (h : endsInEvent name.toList = true) :
    endsInEvent (lowerCase name).toList = true := by
  obtain ⟨front, hfront⟩ := List.isSuffixOf_iff_suffix.mp h
  apply List.isSuffixOf_iff_suffix.mpr
  rw [lowerCase, String.toList_ofList, ← hfront, List.map_append]
  exact ⟨front.map Char.toLower, rfl⟩

theorem handler_of_topicName {s : EventStruct} (hs : s ∈ eventStructs) (hdel : s ≠ deleted) :
    handlerCases.lookup (lowerCase s.topicName) = none := by
  by_cases hup : s = upgraded
  · rw [hup]
    decide +kernel
  by_cases hslip : s = slippageExceeded
  · rw [hslip]
    decide +kernel
  apply lookup_eq_none_of_forall
  intro entry hentry heq
  have hends := lowerCase_endsInEvent (topicName_endsInEvent hs hup hslip hdel)
  rw [← heq, handlerCases_not_endsInEvent entry hentry] at hends
  cases hends

end Wire
end Linkora
