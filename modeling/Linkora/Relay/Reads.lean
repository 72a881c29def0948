import Linkora.Relay.Messages
import Linkora.Relay.Replays

/-!
# What a reader of the DM relay sees

The three read routes of `services/dm-relay/src/routes.ts` with the middlewares in front of
them.  The owner of an address may ask for the messages to that address, and a participant of a
conversation for the messages of the conversation.  No response depends on a message that the
caller neither sent nor received.
-/

namespace Linkora
namespace Relay

/-! ## Requests -/

inductive Route where
  /-- `GET /messages/:address` -/
  | ofAddress
  /-- `GET /messages/conversation/:conversationId` -/
  | ofConversation
  /-- `GET /messages/conversation/:conversationId/search` -/
  | search
  deriving DecidableEq

/-- A request, with what the rate limiter and a failing database answer to it. -/
structure ReadRequest where
  authorization : Option String
  param : String
  limit : Option String
  cursor : Option String
  q : Option String
  requestId : String
  limiter : Option String
  participantFails : Bool
  selectFails : Option String
  deriving DecidableEq

/-! ## Who asks -/

structure AuthHeader where
  address : String
  signature : String
  timestamp : Int
  deriving DecidableEq

def parseAuthHeader (P : Platform) (header : Option String) : Except AuthError AuthHeader :=
  match header with
  | none | some "" => .error ⟨"Missing Authorization header"⟩
  | some header =>
    match Text.split ' ' header with
    | ["Stellar", address, signature, timestampStr] =>
      match P.parseInt timestampStr with
      | none => .error ⟨"Invalid timestamp in Authorization header"⟩
      | some timestamp => .ok ⟨address, signature, timestamp⟩
    | _ => .error ⟨"Invalid Authorization header format. " ++
        "Expected: Stellar <address> <signature> <timestamp>"⟩

theorem parseAuthHeader_of_split {P : Platform} {header address signature timestampStr : String}
    {timestamp : Int} (hsplit : Text.split ' ' header = ["Stellar", address, signature, timestampStr])
    (htimestamp : P.parseInt timestampStr = some timestamp) (hheader : header ≠ "") :
    parseAuthHeader P (some header) = .ok ⟨address, signature, timestamp⟩ := by
  unfold parseAuthHeader
  split
  · rename_i h
    cases h
  · rename_i h
    exact absurd (Option.some.inj h) hheader
  · rename_i h
    rw [← Option.some.inj h, hsplit]
    simp only [htimestamp]

section Handlers

variable (P : Platform) (maxTimestampSkew now : Int) (seen : Seen String) (rows : List DbMessage)
  (req : ReadRequest)

/-- What both middlewares begin with: the address that the caller owns. -/
def authenticate : Except ApiResponse String × Seen String :=
  match parseAuthHeader P req.authorization with
  | .error err => (.error (unauthorizedError err.message req.requestId), seen)
  | .ok header =>
    match verifyAddressOwnership P.toStellar maxTimestampSkew now seen header.address
      header.timestamp header.signature with
    | (.error err, seen) => (.error (unauthorizedError err.message req.requestId), seen)
    | (.ok (), seen) => (.ok header.address, seen)

def addressOwnershipMiddleware : Except ApiResponse Unit × Seen String :=
  match authenticate P maxTimestampSkew now seen req with
  | (.error response, seen) => (.error response, seen)
  | (.ok address, seen) =>
    if req.param ≠ "" ∧ address ≠ req.param then
      (.error (forbiddenError "Authenticated address does not match the requested address"
        req.requestId), seen)
    else (.ok (), seen)

def conversationParticipantMiddleware : Except ApiResponse Unit × Seen String :=
  match authenticate P maxTimestampSkew now seen req with
  | (.error response, seen) => (.error response, seen)
  | (.ok address, seen) =>
    if req.participantFails = true then
      (.error (internalError "Conversation authentication error" req.requestId), seen)
    else if isConversationParticipant rows req.param address = false then
      (.error (forbiddenError "You are not a participant in this conversation" req.requestId), seen)
    else (.ok (), seen)

/-! ## The query -/

/-- `z.coerce.number().int().min(1).max(100).default(defaultLimit)` -/
def limitSchema (defaultLimit : Nat) : Nat × List Issue :=
  match req.limit with
  | none => (defaultLimit, [])
  | some limit =>
    let n := P.number limit
    (match n with
      | .finite r => r.num.toNat
      | _ => 0,
      integerSchema "limit" 1 (some 100) n)

/-- `z.string().min(1).max(500)` -/
def searchTextIssues : List Issue :=
  match req.q with
  | none => [⟨"q", .invalidType "string" "undefined"⟩]
  | some q =>
    let n := (Text.utf16 q).length
    (if n < 1 then [⟨"q", .tooSmall 1⟩] else []) ++ (if 500 < n then [⟨"q", .tooBig 500⟩] else [])

def parseCursor (cursor : String) : Except String CursorParts :=
  match Text.split '|' (P.decodeUtf8 (Text.fromBase64 cursor)) with
  | tsStr :: id :: _ =>
    match P.dateParse tsStr with
    | none => .error "Invalid cursor format"
    | some createdAt => if id = "" then .error "Invalid cursor format" else .ok ⟨createdAt, id⟩
  | _ => .error "Invalid cursor format"

def createCursor (date : Int) (id : String) : String :=
  Text.toBase64 (Text.utf8 (P.toISOString date ++ "|" ++ id))

/-! ## The handlers -/

/-- The milliseconds of `created_at`. -/
def DbMessage.date (m : DbMessage) : Int := m.createdAt / 1000

def conversationMessage (m : DbMessage) : ConversationMessage where
  id := m.id
  sender := m.sender
  recipient := m.recipient
  ciphertextB64 := m.ciphertextB64
  messageIndex := m.messageIndex
  timestamp := m.timestamp
  createdAt := P.toISOString m.date

/-- What the three handlers do: one row more than the limit is asked for, and tells whether there
are more. -/
def readPage (query : Nat → Option CursorParts → Except String (List DbMessage)) (limit : Nat) :
    Except String MessagePage := do
  let cursor ←
    match req.cursor with
    | none | some "" => pure none
    | some cursor => (parseCursor P cursor).map some
  if let some err := req.selectFails then throw err
  let messages ← query (limit + 1) cursor
  let hasMore := decide (limit < messages.length)
  let returned := if hasMore = true then messages.take limit else messages
  let nextCursor :=
    match hasMore, returned.getLast? with
    | true, some last => some (createCursor P last.date last.id)
    | _, _ => none
  return ⟨returned.map (conversationMessage P), hasMore, nextCursor⟩

/-- The rate limiter, the schemas and the handler, behind the middleware of the route. -/
def serve (paramIssues queryIssues : List Issue) (page : Except String MessagePage)
    (body : MessagePage → ResponseBody) : ApiResponse :=
  match req.limiter with
  | some text => ⟨429, .limited text⟩
  | none =>
    if paramIssues ≠ [] then validationError "Invalid request data" (some paramIssues) req.requestId
    else if queryIssues ≠ [] then
      validationError "Invalid request data" (some queryIssues) req.requestId
    else
      match page with
      | .error message => handleRouteError P message req.requestId
      | .ok page => ⟨200, body page⟩

def getMessagesOfAddress : ApiResponse × Seen String :=
  match addressOwnershipMiddleware P maxTimestampSkew now seen req with
  | (.error response, seen) => (response, seen)
  | (.ok (), seen) =>
    let (limit, issues) := limitSchema P req 50
    (serve P req (stellarAddressSchema "address" req.param) issues
      (readPage P req (getMessagesByRecipient P rows req.param) limit)
      fun page => .ofAddress page req.param, seen)

def getConversation : ApiResponse × Seen String :=
  match conversationParticipantMiddleware P maxTimestampSkew now seen rows req with
  | (.error response, seen) => (response, seen)
  | (.ok (), seen) =>
    let (limit, issues) := limitSchema P req 50
    (serve P req (conversationIdSchema "conversationId" req.param) issues
      (readPage P req (getMessages P rows req.param) limit)
      fun page => .ofConversation page req.param, seen)

def searchNote : String :=
  "Messages are end-to-end encrypted. Apply search client-side after decryption."

def searchConversation : ApiResponse × Seen String :=
  match conversationParticipantMiddleware P maxTimestampSkew now seen rows req with
  | (.error response, seen) => (response, seen)
  | (.ok (), seen) =>
    let (limit, issues) := limitSchema P req 20
    (serve P req (conversationIdSchema "conversationId" req.param) (searchTextIssues req ++ issues)
      (readPage P req (getMessages P rows req.param) limit)
      fun page => .ofSearch (req.q.getD "") searchNote page req.param, seen)

def respond (route : Route) : ApiResponse × Seen String :=
  match route with
  | .ofAddress => getMessagesOfAddress P maxTimestampSkew now seen rows req
  | .ofConversation => getConversation P maxTimestampSkew now seen rows req
  | .search => searchConversation P maxTimestampSkew now seen rows req

end Handlers

/-- A request with the second at which it arrives. -/
structure Asked where
  now : Int
  route : Route
  request : ReadRequest

/-- The responses to requests that arrive one after the other. -/
def responses (P : Platform) (maxTimestampSkew : Int) (rows : List DbMessage) :
    Seen String → List Asked → List ApiResponse
  | _, [] => []
  | seen, asked :: rest =>
    let (response, seen) := respond P maxTimestampSkew asked.now seen rows asked.request asked.route
    response :: responses P maxTimestampSkew rows seen rest

/-! ## Two tables -/

/-- The only address whose ownership the request proves, if it proves one, is `a`. -/
def ReadRequest.ProvesOnly (P : Platform) (maxTimestampSkew now : Int) (a : String)
    (req : ReadRequest) : Prop :=
  ∀ header, parseAuthHeader P req.authorization = .ok header →
    checkAddressOwnership P.toStellar maxTimestampSkew now header.address header.timestamp
      header.signature = .ok () → header.address = a

/-- The two tables have the same messages from and to `a`. -/
def AgreeOn (a : String) (rows rows' : List DbMessage) : Prop :=
  ∀ r : DbMessage, r.Involves a → (r ∈ rows ↔ r ∈ rows')

section Confined

variable {P : Platform} {maxTimestampSkew now : Int} {seen seen' : Seen String}
  {rows rows' : List DbMessage} {req : ReadRequest} {a : String}

theorem newestFirst_trans (x y z : DbMessage) (hxy : newestFirst x y = true)
    (hyz : newestFirst y z = true) : newestFirst x z = true := by
  rw [newestFirst, decide_eq_true_eq] at hxy hyz ⊢
  rcases hxy with hxy | ⟨hxy, hidxy⟩
  · rcases hyz with hyz | ⟨hyz, -⟩
    · exact Or.inl (by omega)
    · exact Or.inl (by omega)
  · rcases hyz with hyz | ⟨hyz, hidyz⟩
    · exact Or.inl (by omega)
    · exact Or.inr ⟨by omega, le_trans hidyz hidxy⟩

theorem newestFirst_total (x y : DbMessage) : (newestFirst x y || newestFirst y x) = true := by
  rw [Bool.or_eq_true, newestFirst, newestFirst, decide_eq_true_eq, decide_eq_true_eq]
  rcases lt_trichotomy x.createdAt y.createdAt with h | h | h
  · exact Or.inr (Or.inl h)
  · rcases le_total y.id x.id with hid | hid
    · exact Or.inl (Or.inr ⟨h.symm, hid⟩)
    · exact Or.inr (Or.inr ⟨h, hid⟩)
  · exact Or.inl (Or.inl h)

theorem newestFirst_anti (x y : DbMessage) (hxy : newestFirst x y = true)
    (hyx : newestFirst y x = true) : x.id = y.id := by
  rw [newestFirst, decide_eq_true_eq] at hxy hyx
  rcases hxy with hxy | ⟨hxy, hidxy⟩
  · rcases hyx with hyx | ⟨hyx, -⟩
    · omega
    · omega
  · rcases hyx with hyx | ⟨-, hidyx⟩
    · omega
    · exact le_antisymm hidyx hidxy

/-- A selection depends only on the rows that meet its condition. -/
theorem selectMessages_congr (hrows : Rows.Keyed (·.id) rows) (hrows' : Rows.Keyed (·.id) rows')
    {condition : DbMessage → Bool} (hsame : ∀ r, condition r = true → (r ∈ rows ↔ r ∈ rows')) :
    selectMessages P rows condition = selectMessages P rows' condition := by
  funext limit cursor
  cases cursor with
  | none =>
    exact congrArg Except.ok (Rows.select_congr limit newestFirst_trans newestFirst_total
      newestFirst_anti hrows hrows' hsame)
  | some parts =>
    unfold selectMessages
    dsimp only
    cases P.timestamptz parts.createdAt with
    | error => rfl
    | ok createdAt =>
      cases P.uuid parts.id with
      | error => rfl
      | ok id =>
        refine congrArg Except.ok (Rows.select_congr limit newestFirst_trans newestFirst_total
          newestFirst_anti hrows hrows' fun r hr => hsame r ?_)
        exact (Bool.and_eq_true_iff.mp hr).1

theorem authenticate_eq_ok {address : String}
    (hcaller : req.ProvesOnly P maxTimestampSkew now a)
    (h : authenticate P maxTimestampSkew now seen req = (.ok address, seen')) : address = a := by
  unfold authenticate at h
  split at h
  · cases h
  · rename_i header hparse
    unfold verifyAddressOwnership at h
    rcases guardReplay_cases seen now maxTimestampSkew header.signature
      "Replayed signature: this address ownership proof has already been used"
      (checkAddressOwnership P.toStellar maxTimestampSkew now header.address header.timestamp
        header.signature) with ⟨err, -, hguard⟩ | ⟨-, -, hguard⟩ | ⟨hchecked, -, hguard⟩
    · rw [hguard] at h
      cases h
    · rw [hguard] at h
      cases h
    · rw [hguard] at h
      dsimp only at h
      obtain ⟨haddress, -⟩ := Prod.mk.inj h
      obtain rfl := Except.ok.inj haddress
      exact hcaller header hparse hchecked

theorem isConversationParticipant_congr (hagree : AgreeOn a rows rows') (conversationId : String) :
    isConversationParticipant rows conversationId a =
      isConversationParticipant rows' conversationId a := by
  rw [Bool.eq_iff_iff, isConversationParticipant, isConversationParticipant, List.any_eq_true,
    List.any_eq_true]
  refine exists_congr fun r => ?_
  rw [decide_eq_true_eq, ← and_assoc, ← and_assoc, and_right_comm, and_right_comm (a := r ∈ rows')]
  refine and_congr_left fun hid => ?_
  constructor
  · rintro ⟨hr, hinvolves⟩
    exact ⟨(hagree r hinvolves).mp hr, hinvolves⟩
  · rintro ⟨hr, hinvolves⟩
    exact ⟨(hagree r hinvolves).mpr hr, hinvolves⟩

/-- A caller who passes the first middleware asks for the messages to his own address. -/
theorem getMessagesOfAddress_congr {lib : Stellar} (hrows : WellKept lib rows)
    (hrows' : WellKept lib rows') (hagree : AgreeOn a rows rows')
    (hcaller : req.ProvesOnly P maxTimestampSkew now a) :
    getMessagesOfAddress P maxTimestampSkew now seen rows req =
      getMessagesOfAddress P maxTimestampSkew now seen rows' req := by
  unfold getMessagesOfAddress
  cases hauth : addressOwnershipMiddleware P maxTimestampSkew now seen req with
  | mk result seen' =>
    cases result with
    | error response => rfl
    | ok =>
      have hparam_eq : req.param ≠ "" → req.param = a := by
        intro hparam
        unfold addressOwnershipMiddleware at hauth
        split at hauth
        · cases hauth
        · rename_i address _ hauthenticated
          split at hauth
          · cases hauth
          · rename_i hmatch
            rw [not_and, not_not] at hmatch
            rw [← hmatch hparam]
            exact authenticate_eq_ok hcaller hauthenticated
      have hselect : getMessagesByRecipient P rows req.param =
          getMessagesByRecipient P rows' req.param := by
        refine selectMessages_congr hrows.ids hrows'.ids fun r hr => ?_
        have hrecipient : r.recipient = req.param := of_decide_eq_true hr
        by_cases hparam : req.param = ""
        · -- No message is to the empty address.
          have hlength : r.recipient.length ≠ 56 := by
            rw [hrecipient, hparam]
            decide
          exact iff_of_false (fun hmem => hlength (hrows.addresses r hmem).2)
            (fun hmem => hlength (hrows'.addresses r hmem).2)
        · exact hagree r (Or.inr (hrecipient.trans (hparam_eq hparam)))
      dsimp only
      rw [hselect]

/-- The middleware of a conversation answers the same, and a caller who passes it is in every
message of the conversation. -/
theorem conversation_congr (hinj : Function.Injective P.sha256)
    (hrows : WellKept P.toStellar rows) (hrows' : WellKept P.toStellar rows')
    (hagree : AgreeOn a rows rows') (hcaller : req.ProvesOnly P maxTimestampSkew now a)
    (seen : Seen String) :
    conversationParticipantMiddleware P maxTimestampSkew now seen rows req =
        conversationParticipantMiddleware P maxTimestampSkew now seen rows' req ∧
      ((∃ response seen', conversationParticipantMiddleware P maxTimestampSkew now seen rows req =
          (.error response, seen')) ∨
        getMessages P rows req.param = getMessages P rows' req.param) := by
  unfold conversationParticipantMiddleware
  cases hauth : authenticate P maxTimestampSkew now seen req with
  | mk result seen' =>
    cases result with
    | error response => exact ⟨rfl, Or.inl ⟨response, seen', rfl⟩⟩
    | ok address =>
      obtain rfl := authenticate_eq_ok hcaller hauth
      dsimp only
      rw [isConversationParticipant_congr hagree]
      refine ⟨rfl, ?_⟩
      split
      · exact Or.inl ⟨_, _, rfl⟩
      · split
        · exact Or.inl ⟨_, _, rfl⟩
        · rename_i hparticipant
          rw [Bool.not_eq_false, isConversationParticipant, List.any_eq_true] at hparticipant
          obtain ⟨r₀, hr₀, hfound⟩ := hparticipant
          obtain ⟨hid₀, hinvolves⟩ := of_decide_eq_true hfound
          refine Or.inr (selectMessages_congr hrows.ids hrows'.ids fun r hr => ?_)
          have hid : r.conversationId = req.param := of_decide_eq_true hr
          constructor
          · intro hmem
            exact (hagree r (hrows'.involves hinj hrows hr₀ hmem (hid₀.trans hid.symm)
              hinvolves)).mp hmem
          · intro hmem
            exact (hagree r (hrows'.involves hinj hrows' hr₀ hmem (hid₀.trans hid.symm)
              hinvolves)).mpr hmem

theorem respond_congr (hinj : Function.Injective P.sha256)
    (hrows : WellKept P.toStellar rows) (hrows' : WellKept P.toStellar rows')
    (hagree : AgreeOn a rows rows') (hcaller : req.ProvesOnly P maxTimestampSkew now a)
    (seen : Seen String) (route : Route) :
    respond P maxTimestampSkew now seen rows req route =
      respond P maxTimestampSkew now seen rows' req route := by
  cases route with
  | ofAddress => exact getMessagesOfAddress_congr hrows hrows' hagree hcaller
  | ofConversation =>
    obtain ⟨hmiddleware, hrest⟩ :=
      conversation_congr hinj hrows hrows' hagree hcaller seen
    show getConversation P maxTimestampSkew now seen rows req =
      getConversation P maxTimestampSkew now seen rows' req
    rw [getConversation, getConversation, ← hmiddleware]
    rcases hrest with ⟨response, seen', hrefused⟩ | hselect
    · rw [hrefused]
    · rw [hselect]
  | search =>
    obtain ⟨hmiddleware, hrest⟩ :=
      conversation_congr hinj hrows hrows' hagree hcaller seen
    show searchConversation P maxTimestampSkew now seen rows req =
      searchConversation P maxTimestampSkew now seen rows' req
    rw [searchConversation, searchConversation, ← hmiddleware]
    rcases hrest with ⟨response, seen', hrefused⟩ | hselect
    · rw [hrefused]
    · rw [hselect]

end Confined

/-- Whoever has proved the ownership of one address only gets the same responses from any two
tables that have the same messages from and to that address. -/
theorem reads_confined (P : Platform) (hinj : Function.Injective P.sha256) (maxBytes : Nat)
    {actions actions' : List TableAction} {rows rows' : List DbMessage}
    (hrows : Run (StepOf (TableAction.next P.toStellar maxBytes)) [] actions rows)
    (hrows' : Run (StepOf (TableAction.next P.toStellar maxBytes)) [] actions' rows')
    {a : String} (hagree : AgreeOn a rows rows') (maxTimestampSkew : Int) (seen : Seen String)
    (session : List Asked)
    (hsession : ∀ asked ∈ session, asked.request.ProvesOnly P maxTimestampSkew asked.now a) :
    responses P maxTimestampSkew rows seen session =
      responses P maxTimestampSkew rows' seen session := by
  have hkept := WellKept.run hrows
  have hkept' := WellKept.run hrows'
  induction session generalizing seen with
  | nil => rfl
  | cons asked rest ih =>
    have hrespond := respond_congr hinj hkept hkept' hagree
      (hsession asked List.mem_cons_self) seen asked.route
    rw [responses, responses, hrespond]
    dsimp only
    rw [ih _ fun later hlater => hsession later (List.mem_cons_of_mem _ hlater)]

/-! ## Two conversations -/

theorem agreeOn_of_filter {a : String} {rows rows' : List DbMessage}
    (h : rows.filter (fun r => decide (r.Involves a)) =
      rows'.filter (fun r => decide (r.Involves a))) : AgreeOn a rows rows' := by
  intro r hr
  have hmem : ∀ rows : List DbMessage,
      r ∈ rows.filter (fun r => decide (r.Involves a)) ↔ r ∈ rows := by
    intro rows
    rw [List.mem_filter]
    exact and_iff_left (decide_eq_true hr)
  rw [← hmem rows, h, hmem rows']

/-- Texts are their own hashes. -/
def plainPlatform : Platform where
  isValidEd25519PublicKey address := decide (address = aliceAddress ∨ address = bobAddress)
  verify address hash signature :=
    decide (signature = digestBytes hash ++ digestBytes (Text.utf8 address))
  sha256 := id
  number s := if s = "1" then .finite 1 else .nan
  parseInt s := if s = "100" then some 100 else if s = "101" then some 101 else none
  decodeUtf8 bytes := String.ofList (bytes.map fun b => Char.ofNat b.toNat)
  dateParse s := if s = "5" then some 5 else none
  toISOString date := toString date
  timestamptz date := .ok (1000 * date)
  uuid id := .ok id
  containsInternalDetail _ := false

def noSignature : String := String.ofList (List.replicate 128 '0')

/-- The first message from one address to another. -/
def rawMessage (sender recipient : String) : Member RawMessage :=
  .ok ⟨.ok sender, .ok recipient, .ok "aGVsbG8=", .ok (.finite 0), .ok (.finite 100),
    .ok noSignature⟩

def firstMessage (sender recipient : String) : AuthData :=
  ⟨sender, recipient, 0, 100, "aGVsbG8=", noSignature⟩

theorem parse_rawMessage {sender recipient : String} (hsender : isStellarAddress sender = true)
    (hrecipient : isStellarAddress recipient = true) :
    parseSendMessage 64 (rawMessage sender recipient) = .ok (firstMessage sender recipient) := by
  have hhex : isHexText 128 noSignature = true := by
    unfold isHexText noSignature
    rw [String.toList_ofList, List.length_replicate, List.all_replicate]
    decide
  exact parseSendMessage_first hsender hrecipient (by decide) hhex

def carolAddress : String := "GCCCCCCCCCCCCCCCCCCCCCCCCCCCCCCCCCCCCCCCCCCCCCCCCCCCCCCC"
def daveAddress : String := "GDDDDDDDDDDDDDDDDDDDDDDDDDDDDDDDDDDDDDDDDDDDDDDDDDDDDDDD"

def bobsTable : List DbMessage :=
  [(firstMessage aliceAddress bobAddress).toRow plainPlatform.toStellar "id-a" 7000]

/-- `carol` has written to `dave` as well. -/
def sharedTable : List DbMessage :=
  bobsTable ++ [(firstMessage carolAddress daveAddress).toRow plainPlatform.toStellar "id-b" 8000]

/-- `bob` asks for the messages to him. -/
def bobAsks : Asked where
  now := 100
  route := .ofAddress
  request :=
    { authorization := some ("Stellar " ++ bobAddress ++
        " 2f93f63c8192dc519753c36650d9ac265f8fe72f7f4f599566b855bcf2d5919a" ++
        "64c2b41094484a14d21fbc5a2bfb94e72a271659ce7f09dee73e692016d7c5ff 100")
      param := bobAddress
      limit := some "1"
      cursor := none
      q := none
      requestId := "r"
      limiter := none
      participantFails := false
      selectFails := none }

theorem reads_confined_bob :
    responses plainPlatform 30 sharedTable [] [bobAsks] =
      responses plainPlatform 30 bobsTable [] [bobAsks] := by
  have hbobs : Run (StepOf (TableAction.next plainPlatform.toStellar 64)) []
      [.post (rawMessage aliceAddress bobAddress) "id-a" 7000] bobsTable := by
    refine Run.single (?_ : TableAction.next _ _ _ _ = _)
    rw [TableAction.next, parse_rawMessage (by decide) (by decide)]
    rfl
  have hshared : Run (StepOf (TableAction.next plainPlatform.toStellar 64)) []
      ([.post (rawMessage aliceAddress bobAddress) "id-a" 7000] ++
        [.post (rawMessage carolAddress daveAddress) "id-b" 8000]) sharedTable := by
    refine hbobs.snoc (?_ : TableAction.next _ _ _ _ = _)
    rw [TableAction.next, parse_rawMessage (by decide) (by decide)]
    dsimp only
    rw [insertMessage_eq_ok.mpr ⟨by decide, by decide, rfl⟩]
    rfl
  have hagree : AgreeOn bobAddress sharedTable bobsTable := agreeOn_of_filter (by rfl)
  refine reads_confined plainPlatform (fun _ _ h => h) 64 hshared hbobs hagree 30 [] [bobAsks]
    fun asked hasked header hparse _ => ?_
  obtain rfl := List.mem_singleton.mp hasked
  have hascii : ∀ text ∈ bobAsks.request.authorization,
      (Text.utf8 text).all (· < 128) = true := by
    decide +kernel
  have hsplit : ∀ text ∈ bobAsks.request.authorization, Text.split ' ' text =
      ["Stellar", bobAddress, "2f93f63c8192dc519753c36650d9ac265f8fe72f7f4f599566b855bcf2d5919a" ++
        "64c2b41094484a14d21fbc5a2bfb94e72a271659ce7f09dee73e692016d7c5ff", "100"] := by
    intro text htext
    rw [Text.split_of_ascii (hascii text htext)]
    revert text
    decide +kernel
  have htime : plainPlatform.parseInt "100" = some 100 := by decide
  have hparsed := parseAuthHeader_of_split (hsplit _ rfl) htime (by decide)
  rw [Except.ok.inj (hparse.symm.trans hparsed)]

end Relay
end Linkora
