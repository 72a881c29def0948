import Linkora.Lib.Rows
import Linkora.Lib.Run
import Linkora.Relay.Auth
import Linkora.Sdk.Dm

/-!
# The messages of the DM relay

`services/dm-relay/src/database.ts`, `validation.ts`, `utils.ts` and what
`middleware/auth.ts` and `routes.ts` share between the routes: the table `dm_messages`, the
schemas that a request has to meet, and the responses.  The id of a conversation is a hash of
its two addresses, so with a hash that does not collide the rows of a conversation are all
between the same two.
-/

namespace Linkora
namespace Relay

/-! ## Numbers and library calls -/

inductive JsNumber where
  | nan
  | infinite (positive : Bool)
  | finite (value : Rat)
  deriving DecidableEq

/-- Node, PostgreSQL and the regular expressions. -/
structure Platform extends Stellar where
  /-- `Number(s)` -/
  number : String → JsNumber
  /-- `parseInt(s, 10)`, without a value for `NaN`. -/
  parseInt : String → Option Int
  /-- `buffer.toString("utf-8")` -/
  decodeUtf8 : List UInt8 → String
  /-- `new Date(s).getTime()`, without a value for `NaN`. -/
  dateParse : String → Option Int
  /-- `date.toISOString()` of the date with these milliseconds. -/
  toISOString : Int → String
  /-- What PostgreSQL makes of a date that is a parameter: microseconds, or an error text. -/
  timestamptz : Int → Except String Int
  /-- What PostgreSQL makes of a text that is a UUID parameter: its normal form, or an error
  text. -/
  uuid : String → Except String String
  /-- Some expression of `INTERNAL_PATTERNS` matches. -/
  containsInternalDetail : String → Bool

/-! ## Responses -/

inductive Problem where
  | invalidType (expected received : String)
  | notInteger
  | tooSmall (minimum : Nat)
  | tooBig (maximum : Nat)
  /-- The message of a `regex` or a `refine`. -/
  | custom (message : String)
  deriving DecidableEq

structure Issue where
  path : String
  problem : Problem
  deriving DecidableEq

structure ErrorBody where
  code : String
  message : String
  details : Option (List Issue)
  requestId : String
  deriving DecidableEq

structure ConversationMessage where
  id : String
  sender : String
  recipient : String
  ciphertextB64 : String
  messageIndex : Int
  timestamp : Int
  createdAt : String
  deriving DecidableEq

structure MessagePage where
  messages : List ConversationMessage
  hasMore : Bool
  nextCursor : Option String
  deriving DecidableEq

inductive ResponseBody where
  | error (error : ErrorBody)
  | ofAddress (page : MessagePage) (address : String)
  | ofConversation (page : MessagePage) (conversationId : String)
  | ofSearch (query note : String) (page : MessagePage) (conversationId : String)
  | created (messageId conversationId : String)
  /-- `error`, `message` and `requestId` at the top, as the idempotency middleware writes them. -/
  | refused (error message requestId : String)
  /-- What the rate limiter writes. -/
  | limited (text : String)
  deriving DecidableEq

structure ApiResponse where
  status : Nat
  body : ResponseBody
  deriving DecidableEq

def validationError (message : String) (details : Option (List Issue)) (requestId : String) :
    ApiResponse :=
  ⟨400, .error ⟨"VALIDATION_ERROR", message, details, requestId⟩⟩

def unauthorizedError (message requestId : String) : ApiResponse :=
  ⟨401, .error ⟨"UNAUTHORIZED", message, none, requestId⟩⟩

def forbiddenError (message requestId : String) : ApiResponse :=
  ⟨403, .error ⟨"FORBIDDEN", message, none, requestId⟩⟩

def conflictError (message requestId : String) : ApiResponse :=
  ⟨409, .error ⟨"CONFLICT", message, none, requestId⟩⟩

def internalError (message requestId : String) : ApiResponse :=
  ⟨500, .error ⟨"INTERNAL_ERROR", message, none, requestId⟩⟩

def SAFE_PREFIXES : List String :=
  ["Invalid sender", "Invalid recipient", "Invalid signature", "Signature verification failed",
    "Timestamp", "Authentication", "Validation", "Invalid cursor", "Message index",
    "already exists"]

def isSafeMessage (message : String) : Bool := SAFE_PREFIXES.any (Text.startsWith message)

def sanitizeError (P : Platform) (message : String) : String :=
  if P.containsInternalDetail message = true then "Internal server error"
  else if isSafeMessage message = true then message
  else "Internal server error"

/-- The response to an `Error` that a route throws. -/
def handleRouteError (P : Platform) (message requestId : String) : ApiResponse :=
  if Text.includes message "Invalid signature" = true ∨ Text.includes message "Timestamp" = true ∨
      Text.includes message "Authentication" = true then
    unauthorizedError message requestId
  else if Text.includes message "already exists" = true then
    conflictError "Message index already used for this sender-recipient pair" requestId
  else if Text.includes message "Invalid cursor" = true then
    validationError message none requestId
  else internalError (sanitizeError P message) requestId

/-! ## Schemas -/

/-- `/^G[A-Z2-7]{55}$/` -/
def isStellarAddress (s : String) : Bool :=
  match s.toList with
  | 'G' :: rest => decide (rest.length = 55) &&
      rest.all fun c => decide (('A' ≤ c ∧ c ≤ 'Z') ∨ ('2' ≤ c ∧ c ≤ '7'))
  | _ => false

/-- `/^[A-Za-z0-9+/]*={0,2}$/` -/
def isBase64Text (s : String) : Bool :=
  let padding := s.toList.dropWhile fun c => decide (('A' ≤ c ∧ c ≤ 'Z') ∨ ('a' ≤ c ∧ c ≤ 'z') ∨
    ('0' ≤ c ∧ c ≤ '9') ∨ c = '+' ∨ c = '/')
  decide (padding.length ≤ 2) && padding.all (· = '=')

/-- `/^[a-fA-F0-9]{n}$/` -/
def isHexText (n : Nat) (s : String) : Bool :=
  decide (s.toList.length = n) && s.toList.all fun c => (Text.hexValue c).isSome

def stellarAddressSchema (path s : String) : List Issue :=
  if isStellarAddress s = true then [] else [⟨path, .custom "Invalid Stellar address format"⟩]

def conversationIdSchema (path s : String) : List Issue :=
  if isHexText 64 s = true then []
  else [⟨path, .custom "Invalid conversation ID format (must be 64-char hex)"⟩]

def hex64BytesSchema (path s : String) : List Issue :=
  if isHexText 128 s = true then [] else [⟨path, .custom "Invalid signature format"⟩]

/-- `z.number().int().min(minimum).max(maximum)`, with a maximum or without. -/
def integerSchema (path : String) (minimum : Nat) (maximum : Option Nat) : JsNumber → List Issue
  | .nan => [⟨path, .invalidType "number" "nan"⟩]
  | .infinite positive => ⟨path, .notInteger⟩ ::
      if positive = true then maximum.toList.map fun m => ⟨path, .tooBig m⟩
      else [⟨path, .tooSmall minimum⟩]
  | .finite r =>
    (if r.den = 1 then [] else [⟨path, .notInteger⟩]) ++
    (if r < minimum then [⟨path, .tooSmall minimum⟩] else []) ++
    match maximum with
    | none => []
    | some m => if m < r then [⟨path, .tooBig m⟩] else []

/-- A member of a JSON object: its value, or the type that it has instead. -/
abbrev Member (α : Type) := Except String α

def Member.check {α : Type} (path expected : String) (m : Member α) (issues : α → List Issue) :
    List Issue :=
  match m with
  | .error received => [⟨path, .invalidType expected received⟩]
  | .ok a => issues a

/-- The body of `POST /messages`. -/
structure RawMessage where
  sender : Member String
  recipient : Member String
  ciphertextB64 : Member String
  messageIndex : Member JsNumber
  timestamp : Member JsNumber
  signature : Member String
  deriving DecidableEq

def ciphertextIssues (maxBytes : Nat) (s : String) : List Issue :=
  let path := "ciphertext_b64"
  let maxBase64Chars := (maxBytes + 2) / 3 * 4 + 4
  (if isBase64Text s = true then [] else [⟨path, .custom "Invalid base64 format"⟩]) ++
  (if s.length < 1 then [⟨path, .tooSmall 1⟩] else []) ++
  (if maxBase64Chars < (Text.utf16 s).length ∨ maxBytes < (Text.fromBase64 s).length then
    [⟨path, .custom ("Ciphertext size exceeds maximum allowed size of " ++ toString maxBytes ++
      " bytes")⟩]
  else [])

def sendMessageIssues (maxBytes : Nat) (raw : RawMessage) : List Issue :=
  raw.sender.check "sender" "string" (stellarAddressSchema "sender") ++
  raw.recipient.check "recipient" "string" (stellarAddressSchema "recipient") ++
  raw.ciphertextB64.check "ciphertext_b64" "string" (ciphertextIssues maxBytes) ++
  raw.messageIndex.check "message_index" "number"
    (integerSchema "message_index" 0 (some 2147483647)) ++
  raw.timestamp.check "timestamp" "number" (integerSchema "timestamp" 1 none) ++
  raw.signature.check "signature" "string" (hex64BytesSchema "signature")

/-- `SendMessageSchema.parse(body)`, as what `verifyMessageAuth` is called with. -/
def parseSendMessage (maxBytes : Nat) : Member RawMessage → Except (List Issue) AuthData
  | .error received => .error [⟨"", .invalidType "object" received⟩]
  | .ok raw =>
    match raw, sendMessageIssues maxBytes raw with
    | ⟨.ok sender, .ok recipient, .ok ciphertext, .ok (.finite index), .ok (.finite time),
        .ok signature⟩, [] =>
      .ok ⟨sender, recipient, index.num, time.num, ciphertext, signature⟩
    | _, issues => .error issues

/-! ## The table -/

/-- A row of `dm_messages`, with the microseconds at which it was created. -/
structure DbMessage where
  id : String
  conversationId : String
  sender : String
  recipient : String
  ciphertextB64 : String
  messageIndex : Int
  timestamp : Int
  createdAt : Int
  deriving DecidableEq

def createConversationId (lib : Stellar) (addressA addressB : String) : String :=
  let sorted :=
    if Text.before addressB addressA = true then (addressB, addressA) else (addressA, addressB)
  Text.hex (lib.sha256 (Text.utf8 (sorted.1 ++ sorted.2)))

def uniqueViolation : String :=
  "Message with this index already exists for this sender-recipient pair"

/-- The insert with the id and the time that the database gives the row. -/
def insertMessage (rows : List DbMessage) (row : DbMessage) : Except String (List DbMessage) :=
  if row.id ∈ rows.map (·.id) ∨ (row.sender, row.recipient, row.messageIndex) ∈
      rows.map fun r => (r.sender, r.recipient, r.messageIndex) then
    .error uniqueViolation
  else .ok (rows ++ [row])

structure CursorParts where
  createdAt : Int
  id : String
  deriving DecidableEq

/-- `ORDER BY created_at DESC, id DESC`. -/
def newestFirst (a b : DbMessage) : Bool :=
  decide (b.createdAt < a.createdAt ∨ b.createdAt = a.createdAt ∧ b.id ≤ a.id)

/-- The newest rows that meet the condition and are before the cursor, whose parts PostgreSQL
reads first. -/
def selectMessages (P : Platform) (rows : List DbMessage) (condition : DbMessage → Bool)
    (limit : Nat) (cursor : Option CursorParts) : Except String (List DbMessage) :=
  match cursor with
  | none => .ok (Rows.select condition newestFirst limit rows)
  | some parts => do
    let createdAt ← P.timestamptz parts.createdAt
    let id ← P.uuid parts.id
    return Rows.select (fun r => condition r &&
        decide (r.createdAt < createdAt ∨ r.createdAt = createdAt ∧ r.id < id))
      newestFirst limit rows

def getMessages (P : Platform) (rows : List DbMessage) (conversationId : String) :
    Nat → Option CursorParts → Except String (List DbMessage) :=
  selectMessages P rows fun r => decide (r.conversationId = conversationId)

def getMessagesByRecipient (P : Platform) (rows : List DbMessage) (recipient : String) :
    Nat → Option CursorParts → Except String (List DbMessage) :=
  selectMessages P rows fun r => decide (r.recipient = recipient)

def isConversationParticipant (rows : List DbMessage) (conversationId address : String) : Bool :=
  rows.any fun r => decide (r.conversationId = conversationId ∧
    (r.sender = address ∨ r.recipient = address))

/-! ## Stored messages -/

/-- The row that `POST /messages` stores. -/
def AuthData.toRow (lib : Stellar) (data : AuthData) (id : String) (createdAt : Int) :
    DbMessage where
  id
  conversationId := createConversationId lib data.sender data.recipient
  sender := data.sender
  recipient := data.recipient
  ciphertextB64 := data.ciphertext
  messageIndex := data.nonce
  timestamp := data.timestamp
  createdAt

/-- What changes the table: a post that stores its message, and the retention job. -/
inductive TableAction where
  | post (body : Member RawMessage) (id : String) (createdAt : Int)
  | expire (id : String)

def TableAction.next (lib : Stellar) (maxBytes : Nat) (rows : List DbMessage) :
    TableAction → Option (List DbMessage)
  | .post body id createdAt =>
    match parseSendMessage maxBytes body with
    | .error _ => none
    | .ok data => (insertMessage rows (data.toRow lib id createdAt)).toOption
  | .expire id => some (rows.filter fun r => decide (r.id ≠ id))

/-- What holds of every table that such actions build. -/
structure WellKept (lib : Stellar) (rows : List DbMessage) : Prop where
  ids : Rows.Keyed (·.id) rows
  conversation : ∀ r ∈ rows, r.conversationId = createConversationId lib r.sender r.recipient
  addresses : ∀ r ∈ rows, r.sender.length = 56 ∧ r.recipient.length = 56

section Facts

variable {lib : Stellar} {maxBytes : Nat} {rows rows' : List DbMessage} {row : DbMessage}

theorem insertMessage_eq_ok : insertMessage rows row = .ok rows' ↔
    row.id ∉ rows.map (·.id) ∧
    (row.sender, row.recipient, row.messageIndex) ∉
      rows.map (fun r => (r.sender, r.recipient, r.messageIndex)) ∧ rows' = rows ++ [row] := by
  unfold insertMessage
  split
  · rename_i hused
    exact ⟨nofun, fun h => absurd hused (by simp only [not_or]; exact ⟨h.1, h.2.1⟩)⟩
  · rename_i hfree
    rw [not_or] at hfree
    exact ⟨fun h => ⟨hfree.1, hfree.2, (Except.ok.inj h).symm⟩, fun h => by rw [h.2.2]⟩

theorem length_of_isStellarAddress {s : String} (h : isStellarAddress s = true) :
    s.length = 56 := by
  unfold isStellarAddress at h
  split at h
  · rename_i rest hlist
    have hrest : rest.length = 55 := of_decide_eq_true (Bool.and_eq_true_iff.mp h).1
    rw [← String.length_toList, hlist, List.length_cons, hrest]
  · cases h

theorem stellarAddressSchema_eq_nil {path s : String} :
    stellarAddressSchema path s = [] ↔ isStellarAddress s = true := by
  unfold stellarAddressSchema
  split
  · rename_i h
    exact ⟨fun _ => h, fun _ => rfl⟩
  · rename_i h
    exact ⟨nofun, fun h' => absurd h' h⟩

theorem parseSendMessage_addresses {body : Member RawMessage} {data : AuthData}
    (h : parseSendMessage maxBytes body = .ok data) :
    isStellarAddress data.sender = true ∧ isStellarAddress data.recipient = true := by
  unfold parseSendMessage at h
  split at h
  · cases h
  · split at h
    · rename_i sender recipient ciphertext index time signature hissues
      obtain rfl := Except.ok.inj h
      simp only [sendMessageIssues, Member.check, List.append_eq_nil_iff] at hissues
      obtain ⟨⟨⟨⟨⟨hsender, hrecipient⟩, -⟩, -⟩, -⟩, -⟩ := hissues
      exact ⟨stellarAddressSchema_eq_nil.mp hsender, stellarAddressSchema_eq_nil.mp hrecipient⟩
    · cases h

/-- The first message of a pair, at second 100, if each of its texts is well formed. -/
theorem parseSendMessage_first {maxBytes : Nat} {sender recipient ciphertext signature : String}
    (hsender : isStellarAddress sender = true) (hrecipient : isStellarAddress recipient = true)
    (hciphertext : ciphertextIssues maxBytes ciphertext = [])
    (hsignature : isHexText 128 signature = true) :
    parseSendMessage maxBytes (.ok ⟨.ok sender, .ok recipient, .ok ciphertext, .ok (.finite 0),
      .ok (.finite 100), .ok signature⟩) = .ok ⟨sender, recipient, 0, 100, ciphertext, signature⟩ := by
  have hissues : sendMessageIssues maxBytes ⟨.ok sender, .ok recipient, .ok ciphertext,
      .ok (.finite 0), .ok (.finite 100), .ok signature⟩ = [] := by
    simp only [sendMessageIssues, Member.check, stellarAddressSchema_eq_nil.mpr hsender,
      stellarAddressSchema_eq_nil.mpr hrecipient, hciphertext, hex64BytesSchema,
      hsignature, if_true]
    decide
  unfold parseSendMessage
  dsimp only
  rw [hissues]
  rfl

namespace WellKept

theorem nil : WellKept lib [] :=
  ⟨.nil, fun _ h => absurd h List.not_mem_nil, fun _ h => absurd h List.not_mem_nil⟩

theorem next {action : TableAction} (h : WellKept lib rows)
    (hnext : action.next lib maxBytes rows = some rows') : WellKept lib rows' := by
  cases action with
  | expire id =>
    obtain rfl := Option.some.inj hnext
    exact ⟨h.ids.filter _, fun r hr => h.conversation r (List.mem_of_mem_filter hr),
      fun r hr => h.addresses r (List.mem_of_mem_filter hr)⟩
  | post body id createdAt =>
    rw [TableAction.next] at hnext
    split at hnext
    · cases hnext
    · rename_i data hparse
      cases hinsert : insertMessage rows (data.toRow lib id createdAt) with
      | error err =>
        rw [hinsert] at hnext
        cases hnext
      | ok rows'' =>
        rw [hinsert] at hnext
        obtain rfl : rows'' = rows' := Option.some.inj hnext
        obtain ⟨hid, -, rfl⟩ := insertMessage_eq_ok.mp hinsert
        obtain ⟨hsender, hrecipient⟩ := parseSendMessage_addresses hparse
        refine ⟨h.ids.append hid, fun r hr => ?_, fun r hr => ?_⟩
        · rcases List.mem_append.mp hr with hold | hnew
          · exact h.conversation r hold
          · obtain rfl := List.mem_singleton.mp hnew
            rfl
        · rcases List.mem_append.mp hr with hold | hnew
          · exact h.addresses r hold
          · obtain rfl := List.mem_singleton.mp hnew
            exact ⟨length_of_isStellarAddress hsender, length_of_isStellarAddress hrecipient⟩

theorem run {actions : List TableAction}
    (h : Run (StepOf (TableAction.next lib maxBytes)) [] actions rows) : WellKept lib rows :=
  h.invariant (fun _ _ _ hrows hnext => hrows.next hnext) .nil

end WellKept

/-! ## Conversations -/

theorem createConversationId_eq (a b : String) :
    createConversationId lib a b = Text.hex (lib.sha256 (Text.utf8 (Sdk.sortedPair a b))) := by
  unfold createConversationId Sdk.sortedPair
  cases Text.before b a <;> rfl

/-- With SHA-256 the relay's ids are those of the SDK. -/
theorem createConversationId_eq_sdk (hsha : ∀ m, lib.sha256 m = Sha256.bytes (Sha256.digest m))
    (a b : String) : createConversationId lib a b = Sdk.createConversationId a b := by
  rw [createConversationId_eq, hsha]
  rfl

/-- With a hash that does not collide, the id of a conversation tells its two addresses. -/
theorem createConversationId_inj (hinj : Function.Injective lib.sha256) {a b c d : String}
    (ha : a.length = 56) (hb : b.length = 56) (hc : c.length = 56) (hd : d.length = 56)
    (h : createConversationId lib a b = createConversationId lib c d) :
    a = c ∧ b = d ∨ a = d ∧ b = c := by
  rw [createConversationId_eq, createConversationId_eq] at h
  have hpair := Text.utf8_injective (hinj (Text.hex_injective h))
  rcases Sdk.sortedPair_cases a b with hab | hab <;>
    rcases Sdk.sortedPair_cases c d with hcd | hcd <;> rw [hab, hcd] at hpair
  · exact Or.inl (Sdk.append_inj_of_length hpair (ha.trans hc.symm))
  · exact Or.inr (Sdk.append_inj_of_length hpair (ha.trans hd.symm))
  · obtain ⟨hbc, had⟩ := Sdk.append_inj_of_length hpair (hb.trans hc.symm)
    exact Or.inr ⟨had, hbc⟩
  · obtain ⟨hbd, hac⟩ := Sdk.append_inj_of_length hpair (hb.trans hd.symm)
    exact Or.inl ⟨hac, hbd⟩

/-- The address is the sender's or the recipient's. -/
def DbMessage.Involves (a : String) (r : DbMessage) : Prop := r.sender = a ∨ r.recipient = a

instance (a : String) (r : DbMessage) : Decidable (r.Involves a) :=
  inferInstanceAs (Decidable (_ ∨ _))

/-- An address of one message of a conversation is one of every message of it. -/
theorem WellKept.involves (hinj : Function.Injective lib.sha256) (hrows : WellKept lib rows)
    (hrows' : WellKept lib rows') {a : String} {r r' : DbMessage} (hr : r ∈ rows)
    (hr' : r' ∈ rows') (hid : r.conversationId = r'.conversationId) (h : r.Involves a) :
    r'.Involves a := by
  rw [hrows.conversation r hr, hrows'.conversation r' hr'] at hid
  obtain ⟨hsender, hrecipient⟩ := hrows.addresses r hr
  obtain ⟨hsender', hrecipient'⟩ := hrows'.addresses r' hr'
  rcases createConversationId_inj hinj hsender hrecipient hsender' hrecipient' hid with
    ⟨hs, ht⟩ | ⟨hs, ht⟩
  · exact h.imp hs.symm.trans ht.symm.trans
  · exact h.symm.imp ht.symm.trans hs.symm.trans

end Facts

end Relay
end Linkora
