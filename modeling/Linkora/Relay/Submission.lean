import Linkora.Relay.Messages

/-!
# Submitting a message

`POST /messages` of `services/dm-relay/src/routes.ts` with its middlewares: the signature
guard, which remembers signatures in memory, the idempotency key, which is claimed in the
database, the insert of the message, and the response, which is recorded under the key after it
was sent.  Requests are processed side by side, every query may fail before or after its
effect, and the process may end at any time.
-/

namespace Linkora
namespace Relay

/-! ## Requests -/

/-- What a retry repeats: the body and the `X-Idempotency-Key` header. -/
structure PostRequest where
  body : Member RawMessage
  key : Option String
  deriving DecidableEq

structure RelayConfig where
  maxTimestampSkew : Int
  maxMessageBytes : Nat

def IDEMPOTENCY_KEY_HEADER : String := "x-idempotency-key"

/-- `UUID_RE` -/
def isUuid (s : String) : Bool :=
  decide ((Text.split '-' s).map String.length = [8, 4, 4, 4, 12]) &&
    s.toList.all fun c => (Text.hexValue c).isSome || c = '-'

/-- The key as the database keeps it. -/
def uuidColumn (key : String) : String := key.toLower

/-- The JSON text of the body with its members in order. -/
def canonicalBody (data : AuthData) : String :=
  "\x7b\"ciphertext_b64\":\"" ++ data.ciphertext ++
    "\",\"message_index\":" ++ toString data.nonce ++ ",\"recipient\":\"" ++ data.recipient ++
    "\",\"sender\":\"" ++ data.sender ++ "\",\"signature\":\"" ++ data.signature ++
    "\",\"timestamp\":" ++ toString data.timestamp ++ "\x7d"

def fingerprintRequestBody (lib : Stellar) (data : AuthData) : String :=
  Text.hex (lib.sha256 (Text.utf8 (canonicalBody data)))

/-! ## State -/

/-- What a client is told, the claim whose response it is, and whether a failing query is the
reason. -/
structure Answer where
  response : ApiResponse
  settled : Option Nat
  failure : Bool
  deriving DecidableEq

inductive VisitPhase where
  /-- The insert of `claimIdempotencyKey` is outstanding. -/
  | claiming
  /-- Its `getIdempotencyRecord`. -/
  | reading
  | polling (attempts : Nat)
  /-- This request owns the claim with the number. -/
  | inserting (claim : Nat)
  | answered (answer : Answer)
  /-- The process has ended. -/
  | lost
  deriving DecidableEq

/-- A request, with the message and the key it was let through with, and the answers that the
same bytes had been given when it arrived in time. -/
structure Visit where
  request : PostRequest
  requestId : String
  admitted : Option (AuthData × String)
  earlier : List Answer
  phase : VisitPhase
  deriving DecidableEq

/-- A row of `message_idempotency`, with the number of its claim; there is no response while
the status is pending. -/
structure KeyRow where
  sender : String
  key : String
  requestFingerprint : String
  response : Option ApiResponse
  claim : Nat
  deriving DecidableEq

/-- A call of `completeIdempotencyKey` that the response did not wait for. -/
structure Completion where
  sender : String
  key : String
  response : ApiResponse
  claim : Nat
  deriving DecidableEq

/-- What a handler has done: the response, whether a query failed, and, if the message was
stored, the claim that the key was retained under. -/
structure Handled where
  sender : String
  key : String
  claim : Nat
  response : ApiResponse
  failure : Bool
  stored : Bool
  retained : Option Nat
  deriving DecidableEq

structure Intake where
  seen : Seen String
  now : Int
  visits : List Visit
  completions : List Completion
  keys : List KeyRow
  rows : List DbMessage
  /-- The number of claims so far. -/
  claims : Nat
  handled : List Handled

/-- How a query ends: as it should, or with an error before or after its effect. -/
inductive Outcome where
  | ok
  | failed (applied : Bool)
  deriving DecidableEq

inductive IntakeAction where
  /-- A request, and what the rate limiter answers, if it does. -/
  | arrive (request : PostRequest) (requestId : String) (limiter : Option String)
  | claim (i : Nat) (outcome : Outcome)
  | read (i : Nat) (outcome : Outcome)
  | poll (i : Nat) (outcome : Outcome)
  /-- The insert of the message, with the error text if it fails. -/
  | insert (i : Nat) (outcome : Outcome) (message id : String) (createdAt : Int)
  | complete (i : Nat) (applied : Bool)
  /-- Retention of keys and of messages. -/
  | expireKey (sender key : String)
  | expire (id : String)
  | wait (secs : Nat)
  | crash

/-! ## The middlewares -/

section Middlewares

variable (P : Platform) (cfg : RelayConfig) (now : Int) (seen : Seen String)

def messageAuthMiddleware (body : Member RawMessage) (requestId : String) :
    Except ApiResponse AuthData × Seen String :=
  match parseSendMessage cfg.maxMessageBytes body with
  | .error issues => (.error (validationError "Invalid request data" (some issues) requestId), seen)
  | .ok data =>
    match verifyMessageAuth P.toStellar cfg.maxTimestampSkew now seen data with
    | (.error err, seen) => (.error (unauthorizedError err.message requestId), seen)
    | (.ok (), seen) => (.ok data, seen)

def badRequest (message requestId : String) : ApiResponse :=
  ⟨400, .refused "Bad Request" message requestId⟩

def keyConflict (requestId : String) : ApiResponse :=
  ⟨409, .refused "Conflict" (IDEMPOTENCY_KEY_HEADER ++
    " was already used by this sender with a different request payload") requestId⟩

def stillProcessing (requestId : String) : ApiResponse :=
  ⟨409, .refused "Conflict" "A request with this idempotency key is still being processed"
    requestId⟩

def claimFailed (requestId : String) : ApiResponse :=
  ⟨500, .refused "Internal Server Error" "Failed to process idempotency key" requestId⟩

/-- What `idempotencyMiddleware` asks of the header: the key of the row. -/
def checkKey (key : Option String) (requestId : String) : Except ApiResponse String :=
  match key with
  | none | some "" =>
    .error (badRequest ("Missing required " ++ IDEMPOTENCY_KEY_HEADER ++ " header") requestId)
  | some key =>
    if isUuid key = true then .ok (uuidColumn key)
    else .error (badRequest (IDEMPOTENCY_KEY_HEADER ++ " must be a valid UUID") requestId)

/-- All that happens before the first query. -/
def letIn (request : PostRequest) (requestId : String) (limiter : Option String) :
    Except ApiResponse (AuthData × String) × Seen String :=
  match messageAuthMiddleware P cfg now seen request.body requestId with
  | (.error response, seen) => (.error response, seen)
  | (.ok data, seen) =>
    match limiter with
    | some text => (.error ⟨429, .limited text⟩, seen)
    | none =>
      match checkKey request.key requestId with
      | .error response => (.error response, seen)
      | .ok key => (.ok (data, key), seen)

end Middlewares

def CONCURRENT_WAIT_ATTEMPTS : Nat := 20

def created (messageId conversationId : String) : ApiResponse :=
  ⟨201, .created messageId conversationId⟩

/-! ## Steps -/

namespace Intake

def start (now : Int) : Intake := ⟨[], now, [], [], [], [], 0, []⟩

/-- The row of a key. -/
def keyRow (s : Intake) (sender key : String) : Option KeyRow :=
  s.keys.find? fun row => decide (row.sender = sender ∧ row.key = key)

/-- What the same request has been answered so far. -/
def answersTo (s : Intake) (request : PostRequest) : List Answer :=
  s.visits.filterMap fun v =>
    if v.request = request then
      match v.phase with
      | .answered answer => some answer
      | _ => none
    else none

/-- The timestamp of the request is within the skew. -/
def inTime (cfg : RelayConfig) (s : Intake) (request : PostRequest) : Bool :=
  match parseSendMessage cfg.maxMessageBytes request.body with
  | .ok data => decide (Timely cfg.maxTimestampSkew s.now data.timestamp)
  | .error _ => false

def setPhase (s : Intake) (i : Nat) (v : Visit) (phase : VisitPhase) : Intake :=
  { s with visits := s.visits.set i { v with phase } }

def answer (s : Intake) (i : Nat) (v : Visit) (response : ApiResponse) (settled : Option Nat)
    (failure : Bool) : Intake :=
  s.setPhase i v (.answered ⟨response, settled, failure⟩)

/-- The process ends: its memory and its requests are gone. -/
def crash (s : Intake) : Intake :=
  { s with
    seen := []
    completions := []
    visits := s.visits.map fun v =>
      match v.phase with
      | .answered _ => v
      | _ => { v with phase := .lost } }

/-- The insert of `claimIdempotencyKey`: a new row, unless there is one. -/
def addKey (s : Intake) (lib : Stellar) (data : AuthData) (key : String) : Intake :=
  match s.keyRow data.sender key with
  | some _ => s
  | none =>
    { s with
      keys := s.keys ++ [⟨data.sender, key, fingerprintRequestBody lib data, none, s.claims⟩]
      claims := s.claims + 1 }

/-- The handler has a response: it is sent, and recorded later. -/
def respond (s : Intake) (i : Nat) (v : Visit) (data : AuthData) (key : String) (claim : Nat)
    (response : ApiResponse) (failure stored : Bool) : Intake :=
  { s.answer i v response (some claim) failure with
    completions := s.completions ++ [⟨data.sender, key, response, claim⟩]
    handled := s.handled ++ [⟨data.sender, key, claim, response, failure, stored,
      if stored = true then (s.keyRow data.sender key).map (·.claim) else none⟩] }

def arrive (P : Platform) (cfg : RelayConfig) (s : Intake) (request : PostRequest)
    (requestId : String) (limiter : Option String) : Intake :=
  let earlier := if s.inTime cfg request = true then s.answersTo request else []
  match letIn P cfg s.now s.seen request requestId limiter with
  | (.error response, seen) =>
    { s with
      seen
      visits := s.visits ++
        [⟨request, requestId, none, earlier, .answered ⟨response, none, false⟩⟩] }
  | (.ok admitted, seen) =>
    { s with seen, visits := s.visits ++ [⟨request, requestId, some admitted, earlier, .claiming⟩] }

/-- A step of the request `i`, which has been let through. -/
def onVisit (s : Intake) (i : Nat) (step : Visit → AuthData → String → Option Intake) :
    Option Intake :=
  match s.visits[i]? with
  | none => none
  | some v =>
    match v.admitted with
    | none => none
    | some (data, key) => step v data key

def claim (P : Platform) (s : Intake) (i : Nat) (outcome : Outcome) : Option Intake :=
  s.onVisit i fun v data key =>
    if v.phase = .claiming then
      match outcome with
      | .ok =>
        match s.keyRow data.sender key with
        | none => some ((s.addKey P.toStellar data key).setPhase i v (.inserting s.claims))
        | some _ => some (s.setPhase i v .reading)
      | .failed applied =>
        let s := if applied = true then s.addKey P.toStellar data key else s
        some (s.answer i v (claimFailed v.requestId) none true)
    else none

def read (P : Platform) (s : Intake) (i : Nat) (outcome : Outcome) : Option Intake :=
  s.onVisit i fun v data key =>
    if v.phase = .reading then
      match outcome with
      | .failed _ => some (s.answer i v (claimFailed v.requestId) none true)
      | .ok =>
        match s.keyRow data.sender key with
        | none => some (s.setPhase i v (.polling 0))
        | some row =>
          if row.requestFingerprint ≠ fingerprintRequestBody P.toStellar data then
            some (s.answer i v (keyConflict v.requestId) none false)
          else
            match row.response with
            | none => some (s.setPhase i v (.polling 0))
            | some response => some (s.answer i v response (some row.claim) false)
    else none

/-- The response that is recorded under the key, and its claim. -/
def getIdempotencyResponse (s : Intake) (sender key : String) : Option (ApiResponse × Nat) :=
  (s.keyRow sender key).bind fun row => row.response.map fun response => (response, row.claim)

/-- A query of `waitForCompletion`; its error is caught by nobody. -/
def poll (s : Intake) (i : Nat) (outcome : Outcome) : Option Intake :=
  s.onVisit i fun v data key =>
    match v.phase with
    | .polling attempts =>
      match outcome with
      | .failed _ => some s.crash
      | .ok =>
        match s.getIdempotencyResponse data.sender key with
        | some (response, claim) => some (s.answer i v response (some claim) false)
        | none =>
          if attempts + 1 < CONCURRENT_WAIT_ATTEMPTS then
            some (s.setPhase i v (.polling (attempts + 1)))
          else some (s.answer i v (stillProcessing v.requestId) none false)
    | _ => none

def insert (P : Platform) (s : Intake) (i : Nat) (outcome : Outcome) (message id : String)
    (createdAt : Int) : Option Intake :=
  s.onVisit i fun v data key =>
    match v.phase with
    | .inserting claim =>
      let row := data.toRow P.toStellar id createdAt
      match outcome, insertMessage s.rows row with
      | .ok, .ok rows =>
        some { s.respond i v data key claim (created id row.conversationId) false true with rows }
      | .ok, .error violation =>
        some (s.respond i v data key claim (handleRouteError P violation v.requestId) false false)
      | .failed true, .ok rows =>
        some { s.respond i v data key claim (handleRouteError P message v.requestId) true true with
          rows }
      | .failed _, _ =>
        some (s.respond i v data key claim (handleRouteError P message v.requestId) true false)
    | _ => none

/-- `UPDATE message_idempotency SET response …` -/
def complete (s : Intake) (i : Nat) (applied : Bool) : Option Intake :=
  match s.completions[i]? with
  | none => none
  | some c =>
    let s := { s with completions := s.completions.eraseIdx i }
    if applied = true then
      some { s with
        keys := Rows.updateAt (fun row : KeyRow => (row.sender, row.key)) s.keys (c.sender, c.key)
          fun row => { row with response := some c.response } }
    else some s

def next (P : Platform) (cfg : RelayConfig) (s : Intake) : IntakeAction → Option Intake
  | .arrive request requestId limiter => some (s.arrive P cfg request requestId limiter)
  | .claim i outcome => s.claim P i outcome
  | .read i outcome => s.read P i outcome
  | .poll i outcome => s.poll i outcome
  | .insert i outcome message id createdAt => s.insert P i outcome message id createdAt
  | .complete i applied => s.complete i applied
  | .expireKey sender key => some { s with
      keys := s.keys.filter fun row => !decide (row.sender = sender ∧ row.key = key) }
  | .expire id => some { s with rows := s.rows.filter fun r => decide (r.id ≠ id) }
  | .wait secs => some { s with now := s.now + secs }
  | .crash => some s.crash

end Intake

end Relay
end Linkora
