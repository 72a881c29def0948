import Mathlib
import Linkora.Indexer.Notifications
import Linkora.Indexer.StellarAuth
import Linkora.Indexer.TokenBucket

/-!
# The WebSocket fan-out

`services/indexer/src/ws.ts`: every event of the bus is sent to the connections that are open,
authenticated where that is required, and subscribed to its type.  A connection has a queue of
bounded length and sends one frame after the other; the callback of a send comes at once or
later, and may report a failure.
-/

namespace Linkora
namespace Indexer

def CLOSE_POLICY_VIOLATION : Nat := 1008
def CLOSE_MESSAGE_TOO_LARGE : Nat := 1009

/-- Maximum age (ms) accepted for a WS auth timestamp. -/
def WS_AUTH_TIMESTAMP_TOLERANCE_MS : Rat := 30000

structure WsServerOptions where
  authRequired : Bool
  maxPayloadBytes : Nat
  createBucket : Rat → TokenBucket
  maxRateViolations : Nat
  sendQueueDepth : Nat
  maxDropsBeforeDisconnect : Nat
  sendQueueDepth_pos : 0 < sendQueueDepth

/-! ## Frames -/

/-- The frame of an event, with the place of the event among the published. -/
structure EventFrame where
  number : Nat
  event : BusEvent
  deriving DecidableEq

inductive ControlReply where
  | error (message : String)
  | authenticated (address : String)
  | subscribed (types : List String)
  deriving DecidableEq

/-- A member of a control frame, with the text that `String` makes of it. -/
inductive ControlMember where
  | text (s : String)
  | other (shown : String)
  deriving DecidableEq

def ControlMember.shown : ControlMember → String
  | .text s => s
  | .other shown => shown

/-- The members of a control frame that have the expected type. -/
structure ControlMessage where
  action : ControlMember
  address : Option String
  timestamp : Option JsonNumber
  signature : Option String
  types : Option (List String)
  deriving DecidableEq

inductive ControlFrame where
  | invalidJson
  | notObject
  | object (msg : ControlMessage)
  deriving DecidableEq

/-- What a socket was told to do, and the callbacks of the event frames. -/
inductive SocketCall where
  | send (frame : EventFrame)
  | callback (failed : Bool)
  | control (reply : ControlReply)
  | close (code : Nat) (reason : String)
  | terminate
  | ping
  deriving DecidableEq

/-- A callback: was there an error, and is the socket still open? -/
structure SendResult where
  failed : Bool
  opened : Bool
  deriving DecidableEq

def sends (calls : List SocketCall) : Nat :=
  calls.countP fun x => match x with
    | .send _ => true
    | _ => false

def callbacks (calls : List SocketCall) : Nat :=
  calls.countP fun x => match x with
    | .callback _ => true
    | _ => false

/-! ## A connection -/

/-- A socket and its `ClientState`.  `due` are the frames of the events that were published
while the connection was entitled to them. -/
structure Client where
  opened : Bool
  /-- Is the connection in `clients`? -/
  listed : Bool
  isAlive : Bool
  types : Option (List String)
  bucket : TokenBucket
  rateViolations : Nat
  address : Option String
  authDeadlineTimer : Bool
  sendQueue : List EventFrame
  droppedFrames : Nat
  draining : Bool
  calls : List SocketCall
  due : List EventFrame
  deriving DecidableEq

def buildWsAuthMessage (address timestamp : String) : String :=
  "WS:AUTH:" ++ address ++ ":" ++ timestamp

def verifyWsAuth (lib : AuthLibraries) (address : String) (timestamp : JsonNumber)
    (signature : String) : Bool :=
  lib.verify address (lib.sha256 (Text.utf8 (buildWsAuthMessage address timestamp.text)))
    (Text.fromBase64 signature)

namespace Client

def connect (opts : WsServerOptions) (now : Rat) : Client where
  opened := true
  listed := true
  isAlive := true
  types := none
  bucket := opts.createBucket now
  rateViolations := 0
  address := none
  authDeadlineTimer := opts.authRequired
  sendQueue := []
  droppedFrames := 0
  draining := false
  calls := []
  due := []

/-- The event frames that were passed to `send`. -/
def sent (c : Client) : List EventFrame :=
  c.calls.filterMap fun x => match x with
    | .send frame => some frame
    | _ => none

/-- A send has not been answered by its callback. -/
def awaits (c : Client) : Bool := callbacks c.calls < sends c.calls

def call (c : Client) (x : SocketCall) : Client := { c with calls := c.calls ++ [x] }

def close (c : Client) (code : Nat) (reason : String) : Client :=
  { c.call (.close code reason) with opened := false }

def sendError (c : Client) (message : String) : Client :=
  if c.opened = true then c.call (.control (.error message)) else c

def sendAuthAck (c : Client) (address : String) : Client :=
  if c.opened = true then c.call (.control (.authenticated address)) else c

def cleanup (c : Client) : Client := { c with authDeadlineTimer := false, sendQueue := [] }

/-! ### The queue -/

/-- Is the connection to be kept, and its state after the frame was queued. -/
def enqueue (c : Client) (frame : EventFrame) (maxDepth maxDrops : Nat) : Bool × Client :=
  if maxDepth ≤ c.sendQueue.length then
    let c := { c with sendQueue := c.sendQueue.tail, droppedFrames := c.droppedFrames + 1 }
    if maxDrops < c.droppedFrames then (false, c)
    else (true, { c with sendQueue := c.sendQueue ++ [frame] })
  else (true, { c with sendQueue := c.sendQueue ++ [frame] })

/-- The callback of a send has come; `goOn` is the next call of `sendNext`. -/
def answered (c : Client) (r : SendResult) (goOn : Client → Client) : Client :=
  let c := { c.call (.callback r.failed) with opened := c.opened && r.opened }
  if r.failed = true then { c with draining := false, sendQueue := [] } else goOn c

/-- `results` are the callbacks that come before `send` returns; when they are used up, the
callback of the last send is to come later. -/
def sendNext : List SendResult → Client → Client
  | results, c =>
    if c.opened = false then { c with draining := false, sendQueue := [] }
    else
      match c.sendQueue with
      | [] => { c with draining := false }
      | frame :: rest =>
        let c := { c.call (.send frame) with sendQueue := rest }
        match results with
        | [] => c
        | r :: results => c.answered r (sendNext results)

def drainQueue (c : Client) (results : List SendResult) : Client :=
  if c.draining = true then c else sendNext results { c with draining := true }

/-! ### The fan-out -/

/-- May the connection get events of the type? -/
def Entitled (opts : WsServerOptions) (c : Client) (type : String) : Prop :=
  c.opened = true ∧ (opts.authRequired = true → c.address ≠ none) ∧
    ∀ types, c.types = some types → type ∈ types

instance (opts : WsServerOptions) (c : Client) (type : String) : Decidable (c.Entitled opts type) :=
  inferInstanceAs (Decidable (_ ∧ _ ∧ ∀ types ∈ c.types, type ∈ types))

/-- The body of the loop over `clients`. -/
def offer (opts : WsServerOptions) (c : Client) (frame : EventFrame) (results : List SendResult) :
    Client :=
  if c.opened = false then c
  else if opts.authRequired = true ∧ c.address = none then c
  else if c.types.any (fun types => !types.contains frame.event.type) = true then c
  else
    match c.enqueue frame opts.sendQueueDepth opts.maxDropsBeforeDisconnect with
    | (false, c) => c.close CLOSE_POLICY_VIOLATION "too far behind"
    | (true, c) => c.drainQueue results

/-- An event is published: it is due to whom is entitled to it, and offered to the listed. -/
def publish (opts : WsServerOptions) (c : Client) (frame : EventFrame)
    (results : List SendResult) : Client :=
  let c := { c with
    due := if c.Entitled opts frame.event.type then c.due ++ [frame] else c.due }
  if c.listed = true then c.offer opts frame results else c

/-! ### Control frames -/

/-- `Date.now() - timestamp < 0`; a number that is not finite is infinitely late or early. -/
def inFuture (now : Rat) (timestamp : JsonNumber) : Bool :=
  match timestamp.value with
  | some t => decide (now - t < 0)
  | none => decide (timestamp.text = "Infinity")

def tooOld (now : Rat) (timestamp : JsonNumber) : Bool :=
  match timestamp.value with
  | some t => decide (WS_AUTH_TIMESTAMP_TOLERANCE_MS < now - t)
  | none => decide (timestamp.text ≠ "Infinity")

/-- Was the authentication good, and the state after it. -/
def validateAndStoreAuth (lib : AuthLibraries) (now : Rat) (c : Client) (address : String)
    (timestamp : JsonNumber) (signature : String) : Bool × Client :=
  if inFuture now timestamp = true then
    (false, (c.sendError "auth timestamp is in the future").close CLOSE_POLICY_VIOLATION
      "invalid auth timestamp")
  else if tooOld now timestamp = true then
    (false, (c.sendError "auth timestamp expired (replay protection)").close
      CLOSE_POLICY_VIOLATION "auth timestamp expired")
  else if verifyWsAuth lib address timestamp signature = false then
    (false, (c.sendError "invalid signature").close CLOSE_POLICY_VIOLATION "invalid signature")
  else (true, { c with authDeadlineTimer := false, address := some address })

def handleAuthFrame (lib : AuthLibraries) (now : Rat) (authRequired : Bool) (c : Client)
    (msg : ControlMessage) : Client :=
  if authRequired = false then
    let c := match msg.address, msg.timestamp, msg.signature with
      | some address, some timestamp, some signature =>
        if isBlank address = true ∨ isBlank signature = true then c
        else (c.validateAndStoreAuth lib now address timestamp signature).2
      | _, _, _ => c
    c.sendAuthAck (c.address.getD "(anonymous)")
  else if c.address ≠ none then c.sendError "already authenticated"
  else
    match msg.address, msg.timestamp, msg.signature with
    | some address, some timestamp, some signature =>
      if isBlank address = true ∨ isBlank signature = true then
        c.sendError "auth frame requires string address, number timestamp, string signature"
      else
        match c.validateAndStoreAuth lib now address timestamp signature with
        | (true, c) => c.sendAuthAck address
        | (false, c) => c
    | _, _, _ =>
      c.sendError "auth frame requires string address, number timestamp, string signature"

def handleSubscribeFrame (c : Client) (msg : ControlMessage) : Client :=
  match msg.types with
  | none => c.sendError "subscribe requires a string[] 'types' field"
  | some types =>
    let c := { c with
      types := if types = [] ∨ "*" ∈ types then none else some types.eraseDups }
    c.call (.control (.subscribed (c.types.getD ["*"])))

def handleControlFrame (lib : AuthLibraries) (now : Rat) (authRequired : Bool) (c : Client)
    (frame : ControlFrame) : Client :=
  match frame with
  | .invalidJson => c.sendError "invalid JSON control frame"
  | .notObject => c.sendError "control frame must be an object"
  | .object msg =>
    if msg.action = .text "auth" then c.handleAuthFrame lib now authRequired msg
    else if msg.action = .text "subscribe" then
      if authRequired = true ∧ c.address = none then
        c.sendError "authentication required before subscribing"
      else c.handleSubscribeFrame msg
    else c.sendError ("unknown action: " ++ msg.action.shown)

/-- `ws.on("message")` -/
def message (opts : WsServerOptions) (lib : AuthLibraries) (now : Rat) (c : Client)
    (rawLength : Nat) (frame : ControlFrame) : Client :=
  if opts.maxPayloadBytes < rawLength then c.close CLOSE_MESSAGE_TOO_LARGE "message too large"
  else
    match c.bucket.tryRemove now with
    | (false, bucket) =>
      let c := { c with bucket, rateViolations := c.rateViolations + 1 }
      if opts.maxRateViolations < c.rateViolations then
        c.close CLOSE_POLICY_VIOLATION "rate limit exceeded"
      else c.sendError "rate limit exceeded, message dropped"
    | (true, bucket) =>
      { c with bucket, rateViolations := 0 }.handleControlFrame lib now opts.authRequired frame

/-- The deadline timer has fired. -/
def authDeadline (c : Client) : Client :=
  if c.address = none ∧ c.opened = true then
    (c.sendError "authentication required").close CLOSE_POLICY_VIOLATION "authentication required"
  else c

/-- The turn of the heartbeat. -/
def heartbeat (c : Client) : Client :=
  if c.listed = false then c
  else if c.isAlive = false then
    { c.cleanup.call .terminate with listed := false, opened := false }
  else { c.call .ping with isAlive := false }

/-- The socket reports that it is closed, or an error. -/
def gone (c : Client) (opened : Bool) : Client :=
  { c.cleanup with listed := false, opened := c.opened && opened }

end Client

/-! ## The server -/

structure WsServer where
  clients : List Client
  published : List EventFrame
  /-- Is the fan-out still a listener of the bus? -/
  subscribed : Bool

namespace WsServer

def start : WsServer := ⟨[], [], true⟩

inductive Action where
  | connect (now : Rat)
  /-- An event on the bus, with the callbacks that come at once for each connection. -/
  | publish (event : BusEvent) (results : Nat → List SendResult)
  /-- The callback of the send that a connection waits for. -/
  | callback (i : Nat) (r : SendResult) (results : List SendResult)
  | message (i : Nat) (now : Rat) (rawLength : Nat) (frame : ControlFrame)
  | authDeadline (i : Nat)
  | pong (i : Nat)
  | heartbeat
  | closed (i : Nat)
  | error (i : Nat)
  /-- The peer begins to close the connection. -/
  | leave (i : Nat)
  /-- `close` of the handle. -/
  | shutdown
  /-- `clients.clear`, when the time to drain is over. -/
  | clear

/-- Change one connection, if its state allows for the action. -/
def update (s : WsServer) (i : Nat) (enabled : Client → Bool) (f : Client → Client) :
    Option WsServer :=
  match s.clients[i]? with
  | none => none
  | some c => if enabled c = true then some { s with clients := s.clients.set i (f c) } else none

def next (opts : WsServerOptions) (lib : AuthLibraries) (s : WsServer) : Action → Option WsServer
  | .connect now => some { s with clients := s.clients ++ [Client.connect opts now] }
  | .publish event results =>
    let frame : EventFrame := ⟨s.published.length, event⟩
    if s.subscribed = true then
      some { s with
        clients := s.clients.mapIdx fun i c => c.publish opts frame (results i)
        published := s.published ++ [frame] }
    else none
  | .callback i r results =>
    s.update i (·.awaits) fun c => c.answered r (Client.sendNext results)
  | .message i now rawLength frame =>
    s.update i (fun _ => true) fun c => c.message opts lib now rawLength frame
  | .authDeadline i => s.update i (·.authDeadlineTimer) Client.authDeadline
  | .pong i => s.update i (fun _ => true) fun c => { c with isAlive := true }
  | .heartbeat =>
    if s.subscribed = true then some { s with clients := s.clients.map Client.heartbeat }
    else none
  | .closed i => s.update i (fun _ => true) fun c => c.gone false
  | .error i => s.update i (fun _ => true) fun c => c.gone true
  | .leave i => s.update i (fun _ => true) fun c => { c with opened := false }
  | .shutdown =>
    some { s with
      clients := s.clients.map fun c =>
        if c.listed = true then c.cleanup.close 1001 "server shutting down" else c
      subscribed := false }
  | .clear =>
    if s.subscribed = true then none
    else some { s with clients := s.clients.map fun c => { c with listed := false } }

end WsServer

/-! ## What one connection is kept to -/

theorem sends_concat (calls : List SocketCall) (x : SocketCall) :
    sends (calls ++ [x]) = sends calls + sends [x] := List.countP_append

theorem callbacks_concat (calls : List SocketCall) (x : SocketCall) :
    callbacks (calls ++ [x]) = callbacks calls + callbacks [x] := List.countP_append

/-- Neither a send of an event frame nor the callback of one. -/
def SocketCall.Aside (x : SocketCall) : Prop := sends [x] = 0 ∧ callbacks [x] = 0

namespace Client

variable {opts : WsServerOptions} {lib : AuthLibraries} {c c' c'' : Client} {x : SocketCall}
  {frame : EventFrame} {published : List EventFrame}

/-- No callback has reported an error. -/
def NoFailure (c : Client) : Prop := SocketCall.callback true ∉ c.calls

instance (c : Client) : Decidable c.NoFailure :=
  inferInstanceAs (Decidable (SocketCall.callback true ∉ c.calls))

/-- At no time were two sends without their callbacks. -/
structure OneAtATime (c : Client) : Prop where
  outstanding : sends c.calls = callbacks c.calls + if c.draining = true then 1 else 0
  always : ∀ init, init <+: c.calls → sends init ≤ callbacks init + 1

/-- What was sent and queued is due, and as long as nothing was lost, nothing else was. -/
structure Accounted (opts : WsServerOptions) (published : List EventFrame) (c : Client) :
    Prop where
  queued : (c.sent ++ c.sendQueue).Sublist c.due
  due : c.due.Sublist published
  depth : c.sendQueue.length ≤ opts.sendQueueDepth
  atMost : c.sent.length + c.sendQueue.length + c.droppedFrames ≤ c.due.length
  exact : c.opened = true → c.listed = true → c.NoFailure →
    c.due.length = c.sent.length + c.sendQueue.length + c.droppedFrames

/-! ### Between the frames -/

/-- `c'` comes from `c` by steps that leave the queue and the sends alone, unless the connection
is given up. -/
structure AsideOf (c c' : Client) : Prop where
  calls : ∃ extra, c'.calls = c.calls ++ extra ∧ ∀ x ∈ extra, x.Aside
  draining : c'.draining = c.draining
  due : c'.due = c.due
  droppedFrames : c'.droppedFrames = c.droppedFrames
  opened : c'.opened = true → c.opened = true
  listed : c'.listed = true → c.listed = true
  sendQueue : c'.sendQueue = c.sendQueue ∨
    c'.sendQueue = [] ∧ ¬(c'.opened = true ∧ c'.listed = true)

/-- Only fields that the sends do not depend on have changed. -/
theorem asideOf_of_eq (hcalls : c'.calls = c.calls) (hdraining : c'.draining = c.draining)
    (hdue : c'.due = c.due) (hdropped : c'.droppedFrames = c.droppedFrames)
    (hqueue : c'.sendQueue = c.sendQueue) (hopened : c'.opened = true → c.opened = true)
    (hlisted : c'.listed = true → c.listed = true) : AsideOf c c' := by
  refine ⟨⟨[], ?_, ?_⟩, hdraining, hdue, hdropped, hopened, hlisted, Or.inl hqueue⟩
  · rw [hcalls, List.append_nil]
  · intro x hx
    cases hx

theorem AsideOf.refl (c : Client) : AsideOf c c := asideOf_of_eq rfl rfl rfl rfl rfl id id

theorem AsideOf.trans (h : AsideOf c c') (h' : AsideOf c' c'') : AsideOf c c'' := by
  obtain ⟨extra, hcalls, haside⟩ := h.calls
  obtain ⟨extra', hcalls', haside'⟩ := h'.calls
  refine ⟨⟨extra ++ extra', ?_, ?_⟩, h'.draining.trans h.draining, h'.due.trans h.due,
    h'.droppedFrames.trans h.droppedFrames, h.opened ∘ h'.opened, h.listed ∘ h'.listed, ?_⟩
  · rw [hcalls', hcalls, List.append_assoc]
  · intro x hx
    rcases List.mem_append.mp hx with hx | hx
    · exact haside x hx
    · exact haside' x hx
  · rcases h'.sendQueue with hsame | hcleared
    · rcases h.sendQueue with hsame' | ⟨hcleared, hgone⟩
      · exact Or.inl (hsame.trans hsame')
      · exact Or.inr ⟨hsame.trans hcleared,
          fun hup => hgone ⟨h'.opened hup.1, h'.listed hup.2⟩⟩
    · exact Or.inr hcleared

theorem asideOf_call (c : Client) (hx : x.Aside) : AsideOf c (c.call x) :=
  ⟨⟨[x], rfl, fun _ hy => List.mem_singleton.mp hy ▸ hx⟩, rfl, rfl, rfl, id, id, Or.inl rfl⟩

theorem asideOf_close (c : Client) (code : Nat) (reason : String) :
    AsideOf c (c.close code reason) :=
  (asideOf_call c (x := .close code reason) ⟨rfl, rfl⟩).trans
    (asideOf_of_eq rfl rfl rfl rfl rfl nofun id)

theorem asideOf_sendError (c : Client) (message : String) :
    AsideOf c (c.sendError message) := by
  rw [sendError]
  split
  · exact asideOf_call c ⟨rfl, rfl⟩
  · exact AsideOf.refl c

theorem asideOf_sendAuthAck (c : Client) (address : String) :
    AsideOf c (c.sendAuthAck address) := by
  rw [sendAuthAck]
  split
  · exact asideOf_call c ⟨rfl, rfl⟩
  · exact AsideOf.refl c

theorem asideOf_refuse (c : Client) (message reason : String) (code : Nat) :
    AsideOf c ((c.sendError message).close code reason) :=
  (asideOf_sendError c message).trans (asideOf_close _ code reason)

theorem asideOf_validateAndStoreAuth (lib : AuthLibraries) (c : Client) (now : Rat)
    (address : String) (timestamp : JsonNumber) (signature : String) :
    AsideOf c (c.validateAndStoreAuth lib now address timestamp signature).2 := by
  rw [validateAndStoreAuth]
  split
  · exact asideOf_refuse c _ _ _
  · split
    · exact asideOf_refuse c _ _ _
    · split
      · exact asideOf_refuse c _ _ _
      · exact asideOf_of_eq rfl rfl rfl rfl rfl id id

theorem asideOf_handleAuthFrame (c : Client) (now : Rat) (authRequired : Bool)
    (msg : ControlMessage) : AsideOf c (c.handleAuthFrame lib now authRequired msg) := by
  rw [handleAuthFrame]
  split
  · -- The acknowledgement comes after what the payload did.
    refine AsideOf.trans ?_ (asideOf_sendAuthAck _ _)
    split
    · split
      · exact AsideOf.refl c
      · exact asideOf_validateAndStoreAuth lib c now _ _ _
    · exact AsideOf.refl c
  · split
    · exact asideOf_sendError c _
    · split
      · split
        · exact asideOf_sendError c _
        · rename_i address timestamp signature _ _ _ _
          have haside := asideOf_validateAndStoreAuth lib c now address timestamp signature
          cases hresult : validateAndStoreAuth lib now c address timestamp signature with
          | mk stored c' =>
            rw [hresult] at haside
            cases stored with
            | true => exact haside.trans (asideOf_sendAuthAck _ _)
            | false => exact haside
      · exact asideOf_sendError c _

theorem asideOf_handleSubscribeFrame (c : Client) (msg : ControlMessage) :
    AsideOf c (c.handleSubscribeFrame msg) := by
  rw [handleSubscribeFrame]
  split
  · exact asideOf_sendError c _
  · have hstored : ∀ types, AsideOf c { c with types := types } := fun _ =>
      asideOf_of_eq rfl rfl rfl rfl rfl id id
    exact (hstored _).trans (asideOf_call _ ⟨rfl, rfl⟩)

theorem asideOf_handleControlFrame (c : Client) (now : Rat) (authRequired : Bool)
    (frame : ControlFrame) : AsideOf c (c.handleControlFrame lib now authRequired frame) := by
  cases frame with
  | invalidJson => exact asideOf_sendError c _
  | notObject => exact asideOf_sendError c _
  | object msg =>
    rw [handleControlFrame]
    split
    · exact asideOf_handleAuthFrame c now authRequired msg
    · split
      · split
        · exact asideOf_sendError c _
        · exact asideOf_handleSubscribeFrame c msg
      · exact asideOf_sendError c _

theorem asideOf_message (c : Client) (now : Rat) (rawLength : Nat) (frame : ControlFrame) :
    AsideOf c (c.message opts lib now rawLength frame) := by
  have hcounted : ∀ bucket violations,
      AsideOf c { c with bucket := bucket, rateViolations := violations } := fun _ _ =>
    asideOf_of_eq rfl rfl rfl rfl rfl id id
  rw [message]
  split
  · exact asideOf_close c _ _
  · split
    · dsimp only
      split
      · exact (hcounted _ _).trans (asideOf_close _ _ _)
      · exact (hcounted _ _).trans (asideOf_sendError _ _)
    · exact (hcounted _ _).trans (asideOf_handleControlFrame _ now _ frame)

theorem asideOf_authDeadline (c : Client) : AsideOf c c.authDeadline := by
  rw [authDeadline]
  split
  · exact asideOf_refuse c _ _ _
  · exact AsideOf.refl c

theorem asideOf_gone (c : Client) (opened : Bool) : AsideOf c (c.gone opened) :=
  ⟨⟨[], (List.append_nil _).symm, fun _ h => absurd h List.not_mem_nil⟩, rfl, rfl, rfl,
    fun h => (Bool.and_eq_true_iff.mp h).1, nofun, Or.inr ⟨rfl, fun h => by cases h.2⟩⟩

theorem asideOf_heartbeat (c : Client) : AsideOf c c.heartbeat := by
  rw [heartbeat]
  split
  · exact AsideOf.refl c
  · split
    · exact ⟨⟨[.terminate], rfl, fun _ hx => List.mem_singleton.mp hx ▸ ⟨rfl, rfl⟩⟩, rfl, rfl, rfl,
        nofun, nofun, Or.inr ⟨rfl, fun h => by cases h.1⟩⟩
    · exact ⟨⟨[.ping], rfl, fun x hx => List.mem_singleton.mp hx ▸ ⟨rfl, rfl⟩⟩, rfl, rfl, rfl, id,
        id, Or.inl rfl⟩

theorem asideOf_shutdown (c : Client) (reason : String) :
    AsideOf c (c.cleanup.close 1001 reason) :=
  ⟨⟨[.close 1001 reason], rfl, fun x hx => List.mem_singleton.mp hx ▸ ⟨rfl, rfl⟩⟩, rfl, rfl, rfl,
    nofun, id, Or.inr ⟨rfl, fun h => by cases h.1⟩⟩

/-! ### What steps aside keep -/

theorem sends_aside {extra : List SocketCall} (h : ∀ x ∈ extra, x.Aside) :
    sends extra = 0 ∧ callbacks extra = 0 := by
  induction extra with
  | nil => exact ⟨rfl, rfl⟩
  | cons x rest ih =>
    have hx := h x List.mem_cons_self
    have hrest := ih fun y hy => h y (List.mem_cons_of_mem _ hy)
    have hsends : sends (x :: rest) = sends [x] + sends rest := by
      rw [← List.singleton_append]
      exact List.countP_append
    have hcallbacks : callbacks (x :: rest) = callbacks [x] + callbacks rest := by
      rw [← List.singleton_append]
      exact List.countP_append
    rw [hsends, hcallbacks, hx.1, hx.2, hrest.1, hrest.2]
    exact ⟨rfl, rfl⟩

theorem AsideOf.sent (h : AsideOf c c') : c'.sent = c.sent := by
  obtain ⟨extra, hcalls, haside⟩ := h.calls
  have hnone : extra.filterMap (fun x => match x with
      | .send frame => some frame
      | _ => none) = [] := by
    rw [List.filterMap_eq_nil_iff]
    intro x hx
    have hx' := (haside x hx).1
    cases x with
    | send frame => cases hx'
    | _ => rfl
  rw [Client.sent, Client.sent, hcalls, List.filterMap_append, hnone, List.append_nil]

theorem AsideOf.noFailure (h : AsideOf c c') (hno : c'.NoFailure) : c.NoFailure := by
  obtain ⟨extra, hcalls, -⟩ := h.calls
  intro hmem
  apply hno
  rw [hcalls]
  exact List.mem_append_left _ hmem

theorem OneAtATime.aside (hc : c.OneAtATime) (h : AsideOf c c') : c'.OneAtATime := by
  obtain ⟨extra, hcalls, haside⟩ := h.calls
  constructor
  · have hnone := sends_aside haside
    have hout := hc.outstanding
    have hsends : sends c'.calls = sends c.calls + sends extra := by
      rw [hcalls]
      exact List.countP_append
    have hcallbacks : callbacks c'.calls = callbacks c.calls + callbacks extra := by
      rw [hcalls]
      exact List.countP_append
    rw [hsends, hcallbacks, h.draining, hnone.1, hnone.2]
    exact hout
  · intro init hinit
    rw [hcalls] at hinit
    rcases List.prefix_or_prefix_of_prefix hinit (List.prefix_append c.calls extra) with
      hshort | ⟨more, rfl⟩
    · exact hc.always init hshort
    · have hmore := (List.prefix_append_right_inj c.calls).mp hinit
      have hnone := sends_aside fun x hx => haside x (hmore.subset hx)
      have hold := hc.always c.calls List.prefix_rfl
      have hsends : sends (c.calls ++ more) = sends c.calls + sends more := List.countP_append
      have hcallbacks : callbacks (c.calls ++ more) = callbacks c.calls + callbacks more :=
        List.countP_append
      omega

theorem Accounted.aside (hc : c.Accounted opts published) (h : AsideOf c c') :
    c'.Accounted opts published := by
  rcases h.sendQueue with hsame | ⟨hcleared, hgone⟩
  · refine ⟨?_, ?_, ?_, ?_, fun hopened hlisted hno => ?_⟩
    · rw [h.sent, hsame, h.due]
      exact hc.queued
    · rw [h.due]
      exact hc.due
    · rw [hsame]
      exact hc.depth
    · rw [h.sent, hsame, h.due, h.droppedFrames]
      exact hc.atMost
    · rw [h.sent, hsame, h.due, h.droppedFrames]
      exact hc.exact (h.opened hopened) (h.listed hlisted) (h.noFailure hno)
  · refine ⟨?_, ?_, ?_, ?_, fun hopened hlisted _ => absurd ⟨hopened, hlisted⟩ hgone⟩
    · rw [h.sent, hcleared, h.due, List.append_nil]
      exact (List.sublist_append_left _ _).trans hc.queued
    · rw [h.due]
      exact hc.due
    · rw [hcleared]
      exact Nat.zero_le _
    · have hle := hc.atMost
      rw [h.sent, hcleared, h.due, h.droppedFrames, List.length_nil]
      omega

/-! ### Sends -/

/-- `c'` comes from `c` by sends and their callbacks. -/
structure DrainedOf (c c' : Client) : Prop where
  due : c'.due = c.due
  droppedFrames : c'.droppedFrames = c.droppedFrames
  listed : c'.listed = c.listed
  opened : c'.opened = true → c.opened = true
  noFailure : c'.NoFailure → c.NoFailure
  kept : (c'.sent ++ c'.sendQueue) <+: (c.sent ++ c.sendQueue)
  shorter : c'.sendQueue.length ≤ c.sendQueue.length
  lossless : c'.opened = true → c'.NoFailure →
    c'.sent ++ c'.sendQueue = c.sent ++ c.sendQueue

theorem DrainedOf.refl (c : Client) : DrainedOf c c :=
  ⟨rfl, rfl, rfl, id, id, List.prefix_rfl, Nat.le_refl _, fun _ _ => rfl⟩

theorem DrainedOf.trans (h : DrainedOf c c') (h' : DrainedOf c' c'') : DrainedOf c c'' where
  due := h'.due.trans h.due
  droppedFrames := h'.droppedFrames.trans h.droppedFrames
  listed := h'.listed.trans h.listed
  opened := h.opened ∘ h'.opened
  noFailure := h.noFailure ∘ h'.noFailure
  kept := h'.kept.trans h.kept
  shorter := Nat.le_trans h'.shorter h.shorter
  lossless hopened hno :=
    (h'.lossless hopened hno).trans (h.lossless (h'.opened hopened) (h'.noFailure hno))

/-- The queue is dropped, since it is empty or the connection is lost. -/
theorem drainedOf_stop (h : c.sendQueue = [] ∨ c.opened = false ∨ ¬c.NoFailure) :
    DrainedOf c { c with draining := false, sendQueue := [] } := by
  refine ⟨rfl, rfl, rfl, id, id, ?_, Nat.zero_le _, fun hopened hno => ?_⟩
  · show (c.sent ++ []) <+: _
    rw [List.append_nil]
    exact List.prefix_append _ _
  · rcases h with hempty | hclosed | hfailed
    · rw [hempty]
      rfl
    · rw [hclosed] at hopened
      cases hopened
    · exact absurd hno hfailed

theorem sent_send (c : Client) (frame : EventFrame) :
    (c.call (.send frame)).sent = c.sent ++ [frame] := List.filterMap_append

theorem sent_callback (c : Client) (failed : Bool) :
    (c.call (.callback failed)).sent = c.sent := by
  have h : (c.call (.callback failed)).sent = c.sent ++ [] := List.filterMap_append
  rw [h, List.append_nil]

theorem drainedOf_send {rest : List EventFrame} (h : c.sendQueue = frame :: rest) :
    DrainedOf c { c.call (.send frame) with sendQueue := rest } := by
  have hsame : (c.call (.send frame)).sent ++ rest = c.sent ++ c.sendQueue := by
    rw [sent_send, h, List.append_assoc]
    rfl
  refine ⟨rfl, rfl, rfl, id, fun hno hmem => hno (List.mem_append_left _ hmem), ?_, ?_,
    fun _ _ => hsame⟩
  · show ((c.call (.send frame)).sent ++ rest) <+: _
    exact ⟨[], (List.append_nil _).trans hsame⟩
  · rw [h]
    exact Nat.le_succ _

theorem drainedOf_callback (c : Client) (r : SendResult) :
    DrainedOf c { c.call (.callback r.failed) with opened := c.opened && r.opened } := by
  have hsame : (c.call (.callback r.failed)).sent ++ c.sendQueue = c.sent ++ c.sendQueue := by
    rw [sent_callback]
  refine ⟨rfl, rfl, rfl, fun hopened => (Bool.and_eq_true_iff.mp hopened).1,
    fun hno hmem => hno (List.mem_append_left _ hmem), ?_, Nat.le_refl _, fun _ _ => hsame⟩
  show ((c.call (.callback r.failed)).sent ++ c.sendQueue) <+: _
  exact ⟨[], (List.append_nil _).trans hsame⟩

theorem drainedOf_answered (c : Client) (r : SendResult) {goOn : Client → Client}
    (hgoOn : ∀ c, DrainedOf c (goOn c)) : DrainedOf c (c.answered r goOn) := by
  have hcalled := drainedOf_callback c r
  rw [answered]
  split
  · rename_i hfailed
    refine hcalled.trans (drainedOf_stop (Or.inr (Or.inr fun hno => hno ?_)))
    rw [hfailed]
    exact List.mem_append_right _ List.mem_cons_self
  · exact hcalled.trans (hgoOn _)

theorem drainedOf_sendNext (results : List SendResult) (c : Client) :
    DrainedOf c (sendNext results c) := by
  induction results generalizing c with
  | nil =>
    rw [sendNext]
    split
    · rename_i hclosed
      exact drainedOf_stop (Or.inr (Or.inl hclosed))
    · split
      · rename_i hempty
        have hstop := drainedOf_stop (Or.inl hempty)
        rw [← hempty] at hstop
        exact hstop
      · rename_i hqueue
        exact drainedOf_send hqueue
  | cons r results ih =>
    rw [sendNext]
    split
    · rename_i hclosed
      exact drainedOf_stop (Or.inr (Or.inl hclosed))
    · split
      · rename_i hempty
        have hstop := drainedOf_stop (Or.inl hempty)
        rw [← hempty] at hstop
        exact hstop
      · rename_i hqueue
        exact (drainedOf_send hqueue).trans (drainedOf_answered _ r ih)

/-! ### One send after the other -/

/-- No send is without its callback, and none ever was beside another. -/
structure Idle (c : Client) : Prop where
  none : sends c.calls = callbacks c.calls
  always : ∀ init, init <+: c.calls → sends init ≤ callbacks init + 1

theorem always_concat {calls : List SocketCall} (x : SocketCall)
    (h : ∀ init, init <+: calls → sends init ≤ callbacks init + 1)
    (hx : sends calls + sends [x] ≤ callbacks calls + callbacks [x] + 1) :
    ∀ init, init <+: calls ++ [x] → sends init ≤ callbacks init + 1 := by
  intro init hinit
  rcases List.prefix_concat_iff.mp hinit with rfl | hshort
  · rw [sends_concat, callbacks_concat]
    exact hx
  · exact h init hshort

theorem Idle.stop (h : c.Idle) (queue : List EventFrame) :
    { c with draining := false, sendQueue := queue }.OneAtATime := ⟨h.none, h.always⟩

theorem Idle.send (h : c.Idle) (hd : c.draining = true) (frame : EventFrame)
    (rest : List EventFrame) : { c.call (.send frame) with sendQueue := rest }.OneAtATime := by
  have hnone := h.none
  constructor
  · show sends (c.calls ++ [.send frame]) = callbacks (c.calls ++ [.send frame]) +
      if c.draining = true then 1 else 0
    rw [sends_concat, callbacks_concat, if_pos hd, hnone]
    rfl
  · refine always_concat (.send frame) h.always ?_
    show sends c.calls + 1 ≤ callbacks c.calls + 0 + 1
    omega

/-- The callback of the one send that is under way. -/
theorem OneAtATime.callback (h : c.OneAtATime) (hd : c.draining = true) (failed : Bool) :
    (c.call (.callback failed)).Idle := by
  have hout := h.outstanding
  rw [if_pos hd] at hout
  constructor
  · show sends (c.calls ++ [.callback failed]) = callbacks (c.calls ++ [.callback failed])
    rw [sends_concat, callbacks_concat, hout]
    rfl
  · refine always_concat (.callback failed) h.always ?_
    show sends c.calls + 0 ≤ callbacks c.calls + 1 + 1
    omega

theorem OneAtATime.answered (h : c.OneAtATime) (hd : c.draining = true) (r : SendResult)
    {goOn : Client → Client}
    (hgoOn : ∀ c : Client, c.Idle → c.draining = true → (goOn c).OneAtATime) :
    (c.answered r goOn).OneAtATime := by
  have hidle := h.callback hd r.failed
  rw [Client.answered]
  split
  · exact ⟨hidle.none, hidle.always⟩
  · exact hgoOn _ ⟨hidle.none, hidle.always⟩ hd

theorem oneAtATime_sendNext (results : List SendResult) {c : Client} (h : c.Idle)
    (hd : c.draining = true) : (sendNext results c).OneAtATime := by
  induction results generalizing c with
  | nil =>
    rw [sendNext]
    split
    · exact h.stop _
    · split
      · exact h.stop _
      · exact h.send hd _ _
  | cons r results ih =>
    rw [sendNext]
    split
    · exact h.stop _
    · split
      · exact h.stop _
      · exact (h.send hd _ _).answered hd r fun _ hidle hd' => ih hidle hd'

/-! ### The queue -/

theorem Accounted.drained (hc : c.Accounted opts published) (h : DrainedOf c c') :
    c'.Accounted opts published := by
  have hkept : c'.sent.length + c'.sendQueue.length ≤ c.sent.length + c.sendQueue.length := by
    have hle := h.kept.length_le
    rwa [List.length_append, List.length_append] at hle
  refine ⟨?_, ?_, Nat.le_trans h.shorter hc.depth, ?_, fun hopened hlisted hno => ?_⟩
  · rw [h.due]
    exact h.kept.sublist.trans hc.queued
  · rw [h.due]
    exact hc.due
  · have hle := hc.atMost
    rw [h.due, h.droppedFrames]
    omega
  · have hsame := congrArg List.length (h.lossless hopened hno)
    rw [List.length_append, List.length_append] at hsame
    have hold := hc.exact (h.opened hopened) (h.listed ▸ hlisted) (h.noFailure hno)
    rw [h.due, h.droppedFrames, hold, hsame]

/-- A frame is queued behind what is left of the queue. -/
theorem Accounted.push (hc : c.Accounted opts published) {rest : List EventFrame} {dropped : Nat}
    (hrest : rest.Sublist c.sendQueue) (hdepth : rest.length < opts.sendQueueDepth)
    (hcount : rest.length + dropped = c.sendQueue.length + c.droppedFrames) :
    Accounted opts (published ++ [frame])
      { c with
        due := c.due ++ [frame]
        sendQueue := rest ++ [frame]
        droppedFrames := dropped } := by
  refine ⟨?_, hc.due.append (List.Sublist.refl _), ?_, ?_, fun hopened hlisted hno => ?_⟩
  · show (c.sent ++ (rest ++ [frame])).Sublist (c.due ++ [frame])
    rw [← List.append_assoc]
    exact (((List.Sublist.refl _).append hrest).trans hc.queued).append (List.Sublist.refl _)
  · show (rest ++ [frame]).length ≤ _
    rw [List.length_append]
    exact hdepth
  · have hle := hc.atMost
    show c.sent.length + (rest ++ [frame]).length + dropped ≤ (c.due ++ [frame]).length
    simp only [List.length_append, List.length_singleton]
    omega
  · have hold := hc.exact hopened hlisted hno
    show (c.due ++ [frame]).length = c.sent.length + (rest ++ [frame]).length + dropped
    simp only [List.length_append, List.length_singleton]
    omega

/-- The frame is not queued, and the connection is closed. -/
theorem Accounted.lose (hc : c.Accounted opts published) {rest : List EventFrame} {dropped : Nat}
    (hrest : rest.Sublist c.sendQueue)
    (hcount : rest.length + dropped = c.sendQueue.length + c.droppedFrames) (code : Nat)
    (reason : String) : Accounted opts (published ++ [frame])
      (close { c with
        due := c.due ++ [frame]
        sendQueue := rest
        droppedFrames := dropped } code reason) := by
  have hsent : ∀ d : Client, (d.close code reason).sent = d.sent := fun d =>
    (asideOf_close d code reason).sent
  refine ⟨?_, hc.due.append (List.Sublist.refl _), ?_, ?_, nofun⟩
  · rw [hsent]
    show (c.sent ++ rest).Sublist (c.due ++ [frame])
    exact (((List.Sublist.refl _).append hrest).trans hc.queued).trans
      (List.sublist_append_left _ _)
  · exact Nat.le_trans hrest.length_le hc.depth
  · have hle := hc.atMost
    rw [hsent]
    show c.sent.length + rest.length + dropped ≤ (c.due ++ [frame]).length
    rw [List.length_append]
    omega

theorem Accounted.publish_aside (hc : c.Accounted opts published) (frame : EventFrame) :
    c.Accounted opts (published ++ [frame]) :=
  ⟨hc.queued, hc.due.trans (List.sublist_append_left _ _), hc.depth, hc.atMost, hc.exact⟩

theorem drainedOf_drainQueue (c : Client) (results : List SendResult) :
    DrainedOf c (c.drainQueue results) := by
  rw [drainQueue]
  split
  · exact DrainedOf.refl c
  · have hbegun : DrainedOf c { c with draining := true } :=
      ⟨rfl, rfl, rfl, id, id, List.prefix_rfl, Nat.le_refl _, fun _ _ => rfl⟩
    exact hbegun.trans (drainedOf_sendNext results _)

theorem oneAtATime_drainQueue (h : c.OneAtATime) (results : List SendResult) :
    (c.drainQueue results).OneAtATime := by
  rw [drainQueue]
  split
  · exact h
  · rename_i hd
    have hout := h.outstanding
    rw [if_neg hd, Nat.add_zero] at hout
    exact oneAtATime_sendNext results (c := { c with draining := true }) ⟨hout, h.always⟩ rfl

/-! ### The fan-out -/

/-- The three tests of the loop ask for what an event is due to. -/
theorem offer_of_not_entitled (h : ¬c.Entitled opts frame.event.type) (results : List SendResult) :
    c.offer opts frame results = c := by
  rw [offer]
  split
  · rfl
  · split
    · rfl
    · split
      · rfl
      · rename_i hopened hauth htypes
        have hup : c.opened = true := by simpa using hopened
        refine absurd ⟨hup, fun hrequired haddress => ?_, fun types hsome => ?_⟩ h
        · exact hauth ⟨hrequired, haddress⟩
        · rw [hsome] at htypes
          simpa using htypes

theorem offer_of_entitled (h : c.Entitled opts frame.event.type) (results : List SendResult) :
    c.offer opts frame results =
      match c.enqueue frame opts.sendQueueDepth opts.maxDropsBeforeDisconnect with
      | (false, c) => c.close CLOSE_POLICY_VIOLATION "too far behind"
      | (true, c) => c.drainQueue results := by
  obtain ⟨hopened, hauth, htypes⟩ := h
  have hallowed : ¬(opts.authRequired = true ∧ c.address = none) := fun h => hauth h.1 h.2
  have hsubscribed : ¬c.types.any (fun types => !types.contains frame.event.type) = true := by
    cases hsome : c.types with
    | none => simp
    | some types => simpa using htypes types hsome
  rw [offer, if_neg (by simp [hopened]), if_neg hallowed, if_neg hsubscribed]

/-- A frame is queued behind the others, in the place of the oldest, or not at all. -/
theorem enqueue_cases (c : Client) (frame : EventFrame) (maxDepth maxDrops : Nat) :
    (c.sendQueue.length < maxDepth ∧ c.enqueue frame maxDepth maxDrops =
      (true, { c with sendQueue := c.sendQueue ++ [frame] })) ∨
    (maxDepth ≤ c.sendQueue.length ∧ c.enqueue frame maxDepth maxDrops =
      (true, { c with
        sendQueue := c.sendQueue.tail ++ [frame]
        droppedFrames := c.droppedFrames + 1 })) ∨
    (maxDepth ≤ c.sendQueue.length ∧ c.enqueue frame maxDepth maxDrops =
      (false, { c with
        sendQueue := c.sendQueue.tail
        droppedFrames := c.droppedFrames + 1 })) := by
  rw [enqueue]
  rcases Nat.lt_or_ge c.sendQueue.length maxDepth with hroom | hfull
  · rw [if_neg (Nat.not_le.mpr hroom)]
    exact Or.inl ⟨hroom, rfl⟩
  · rw [if_pos hfull]
    dsimp only
    split
    · exact Or.inr (Or.inr ⟨hfull, rfl⟩)
    · exact Or.inr (Or.inl ⟨hfull, rfl⟩)

theorem Accounted.publish (hc : c.Accounted opts published) (frame : EventFrame)
    (results : List SendResult) :
    (c.publish opts frame results).Accounted opts (published ++ [frame]) := by
  rw [Client.publish]
  by_cases hentitled : c.Entitled opts frame.event.type
  · simp only [if_pos hentitled]
    split
    · have hstill : Entitled opts { c with due := c.due ++ [frame] } frame.event.type := hentitled
      rw [offer_of_entitled hstill]
      have htail := List.tail_sublist c.sendQueue
      have hdepth := hc.depth
      have hpos := opts.sendQueueDepth_pos
      have hlength : c.sendQueue.tail.length = c.sendQueue.length - 1 := List.length_tail
      rcases enqueue_cases { c with due := c.due ++ [frame] } frame opts.sendQueueDepth
        opts.maxDropsBeforeDisconnect with ⟨hroom, heq⟩ | ⟨hfull, heq⟩ | ⟨hfull, heq⟩
      · rw [heq]
        exact (hc.push (List.Sublist.refl _) hroom rfl).drained (drainedOf_drainQueue _ results)
      · rw [heq]
        have hfull' : opts.sendQueueDepth ≤ c.sendQueue.length := hfull
        have hcount : c.sendQueue.tail.length + (c.droppedFrames + 1) =
            c.sendQueue.length + c.droppedFrames := by omega
        exact (hc.push htail (by omega) hcount).drained (drainedOf_drainQueue _ results)
      · rw [heq]
        have hfull' : opts.sendQueueDepth ≤ c.sendQueue.length := hfull
        have hcount : c.sendQueue.tail.length + (c.droppedFrames + 1) =
            c.sendQueue.length + c.droppedFrames := by omega
        exact hc.lose htail hcount _ _
    · rename_i hunlisted
      -- A connection that is no longer in `clients` misses the event.
      refine ⟨hc.queued.trans (List.sublist_append_left _ _), hc.due.append (List.Sublist.refl _),
        hc.depth, ?_, fun _ hlisted => absurd hlisted hunlisted⟩
      have hle := hc.atMost
      show _ ≤ (c.due ++ [frame]).length
      rw [List.length_append]
      exact Nat.le_trans hle (Nat.le_add_right _ _)
  · simp only [if_neg hentitled]
    split
    · rw [offer_of_not_entitled hentitled]
      exact hc.publish_aside frame
    · exact hc.publish_aside frame

theorem OneAtATime.publish (hc : c.OneAtATime) (frame : EventFrame) (results : List SendResult) :
    (c.publish opts frame results).OneAtATime := by
  have hdue : ∀ due queue dropped, OneAtATime
      { c with due := due, sendQueue := queue, droppedFrames := dropped } := fun _ _ _ =>
    ⟨hc.outstanding, hc.always⟩
  rw [Client.publish]
  dsimp only
  split
  · by_cases hentitled : c.Entitled opts frame.event.type
    · simp only [if_pos hentitled]
      have hstill : Entitled opts { c with due := c.due ++ [frame] } frame.event.type := hentitled
      rw [offer_of_entitled hstill]
      rcases enqueue_cases { c with due := c.due ++ [frame] } frame opts.sendQueueDepth
        opts.maxDropsBeforeDisconnect with ⟨-, heq⟩ | ⟨-, heq⟩ | ⟨-, heq⟩
      · rw [heq]
        exact oneAtATime_drainQueue (hdue _ _ _) results
      · rw [heq]
        exact oneAtATime_drainQueue (hdue _ _ _) results
      · rw [heq]
        exact (hdue _ _ _).aside (asideOf_close _ _ _)
    · simp only [if_neg hentitled]
      rw [offer_of_not_entitled hentitled]
      exact hc
  · exact ⟨hc.outstanding, hc.always⟩

end Client

/-! ## What the server is kept to -/

/-- What is asked of a connection. -/
structure Client.FannedOut (opts : WsServerOptions) (published : List EventFrame) (c : Client) :
    Prop where
  inOrder : c.sent.Sublist c.due
  due : c.due.Sublist published
  oneAtATime : ∀ init, init <+: c.calls → sends init ≤ callbacks init + 1
  depth : c.sendQueue.length ≤ opts.sendQueueDepth
  atMost : c.sent.length + c.sendQueue.length + c.droppedFrames ≤ c.due.length
  exact : c.opened = true → c.listed = true → c.NoFailure →
    c.due.length = c.sent.length + c.sendQueue.length + c.droppedFrames

namespace WsServer

variable {opts : WsServerOptions} {lib : AuthLibraries} {s s' : WsServer} {a : Action}

structure Sound (opts : WsServerOptions) (s : WsServer) : Prop where
  numbers : s.published.map EventFrame.number = List.range s.published.length
  accounted : ∀ c ∈ s.clients, c.Accounted opts s.published
  oneAtATime : ∀ c ∈ s.clients, c.OneAtATime

theorem sound_start (opts : WsServerOptions) : start.Sound opts :=
  ⟨rfl, fun _ hc => absurd hc List.not_mem_nil, fun _ hc => absurd hc List.not_mem_nil⟩

/-- Connections that are left aside, all at once. -/
theorem Sound.map (h : s.Sound opts) {f : Client → Client} (hf : ∀ c, Client.AsideOf c (f c))
    (subscribed : Bool) : Sound opts ⟨s.clients.map f, s.published, subscribed⟩ := by
  refine ⟨h.numbers, fun c hc => ?_, fun c hc => ?_⟩
  · obtain ⟨d, hd, rfl⟩ := List.mem_map.mp hc
    exact (h.accounted d hd).aside (hf d)
  · obtain ⟨d, hd, rfl⟩ := List.mem_map.mp hc
    exact (h.oneAtATime d hd).aside (hf d)

theorem Sound.update (h : s.Sound opts) {i : Nat} {enabled : Client → Bool} {f : Client → Client}
    (hf : ∀ c, c.Accounted opts s.published → c.OneAtATime → enabled c = true →
      (f c).Accounted opts s.published ∧ (f c).OneAtATime)
    (hs : s.update i enabled f = some s') : s'.Sound opts := by
  rw [WsServer.update] at hs
  cases hget : s.clients[i]? with
  | none =>
    rw [hget] at hs
    cases hs
  | some c =>
    rw [hget] at hs
    dsimp only at hs
    split at hs
    · rename_i henabled
      obtain rfl := Option.some.inj hs
      have hmem := List.mem_of_getElem? hget
      have hnew := hf c (h.accounted c hmem) (h.oneAtATime c hmem) henabled
      refine ⟨h.numbers, fun d hd => ?_, fun d hd => ?_⟩
      · rcases List.mem_or_eq_of_mem_set hd with hold | rfl
        · exact h.accounted d hold
        · exact hnew.1
      · rcases List.mem_or_eq_of_mem_set hd with hold | rfl
        · exact h.oneAtATime d hold
        · exact hnew.2
    · cases hs

theorem Sound.update_aside (h : s.Sound opts) {i : Nat} {enabled : Client → Bool}
    {f : Client → Client} (hf : ∀ c, Client.AsideOf c (f c)) (hs : s.update i enabled f = some s') :
    s'.Sound opts :=
  h.update (fun c hc hone _ => ⟨hc.aside (hf c), hone.aside (hf c)⟩) hs

theorem sound_connect (opts : WsServerOptions) (published : List EventFrame) (now : Rat) :
    (Client.connect opts now).Accounted opts published ∧ (Client.connect opts now).OneAtATime := by
  refine ⟨⟨List.Sublist.refl _, List.nil_sublist _, Nat.zero_le _, Nat.le_refl _,
    fun _ _ _ => rfl⟩, rfl, fun init hinit => ?_⟩
  rw [List.prefix_nil.mp hinit]
  exact Nat.zero_le _

theorem Sound.publish (h : s.Sound opts) (event : BusEvent) (results : Nat → List SendResult) :
    Sound opts { s with
      clients := s.clients.mapIdx fun i c =>
        c.publish opts ⟨s.published.length, event⟩ (results i)
      published := s.published ++ [⟨s.published.length, event⟩] } := by
  refine ⟨?_, fun c hc => ?_, fun c hc => ?_⟩
  · show (s.published ++ [_]).map EventFrame.number = List.range (s.published ++ [_]).length
    rw [List.map_append, h.numbers, List.length_append, List.length_singleton, List.range_succ]
    rfl
  · obtain ⟨i, hi, rfl⟩ := List.mem_mapIdx.mp hc
    exact (h.accounted _ (List.getElem_mem hi)).publish _ _
  · obtain ⟨i, hi, rfl⟩ := List.mem_mapIdx.mp hc
    exact (h.oneAtATime _ (List.getElem_mem hi)).publish _ _

theorem Sound.next (h : s.Sound opts) (hs : s.next opts lib a = some s') : s'.Sound opts := by
  cases a with
  | connect now =>
    obtain rfl := Option.some.inj hs
    have hnew := sound_connect opts s.published now
    refine ⟨h.numbers, fun c hc => ?_, fun c hc => ?_⟩
    · rcases List.mem_append.mp hc with hold | hlast
      · exact h.accounted c hold
      · exact List.mem_singleton.mp hlast ▸ hnew.1
    · rcases List.mem_append.mp hc with hold | hlast
      · exact h.oneAtATime c hold
      · exact List.mem_singleton.mp hlast ▸ hnew.2
  | publish event results =>
    rw [WsServer.next] at hs
    split at hs
    · obtain rfl := Option.some.inj hs
      exact h.publish event results
    · cases hs
  | callback i r results =>
    refine h.update (fun c hc hone hawaits => ?_) hs
    have hless : callbacks c.calls < sends c.calls := of_decide_eq_true hawaits
    have hd : c.draining = true := by
      by_contra hidle
      have hout := hone.outstanding
      rw [if_neg hidle] at hout
      omega
    exact ⟨hc.drained (Client.drainedOf_answered c r (Client.drainedOf_sendNext results)),
      hone.answered hd r fun _ hidle hd' => Client.oneAtATime_sendNext results hidle hd'⟩
  | message i now rawLength frame =>
    exact h.update_aside (fun c => Client.asideOf_message c now rawLength frame) hs
  | authDeadline i => exact h.update_aside Client.asideOf_authDeadline hs
  | pong i =>
    refine h.update_aside (fun c => ?_) hs
    exact Client.asideOf_of_eq rfl rfl rfl rfl rfl id id
  | heartbeat =>
    rw [WsServer.next] at hs
    split at hs
    · obtain rfl := Option.some.inj hs
      exact h.map Client.asideOf_heartbeat _
    · cases hs
  | closed i => exact h.update_aside (fun c => Client.asideOf_gone c false) hs
  | error i => exact h.update_aside (fun c => Client.asideOf_gone c true) hs
  | leave i =>
    refine h.update_aside (fun c => ?_) hs
    exact Client.asideOf_of_eq rfl rfl rfl rfl rfl nofun id
  | shutdown =>
    obtain rfl := Option.some.inj hs
    refine h.map (f := fun c =>
      if c.listed = true then c.cleanup.close 1001 "server shutting down" else c)
      (fun c => ?_) false
    split
    · exact Client.asideOf_shutdown c _
    · exact Client.AsideOf.refl c
  | clear =>
    rw [WsServer.next] at hs
    split at hs
    · cases hs
    · obtain rfl := Option.some.inj hs
      refine h.map (f := fun c => { c with listed := false }) (fun c => ?_) _
      exact Client.asideOf_of_eq rfl rfl rfl rfl rfl id nofun

theorem sound_run {ls : List Action} (h : Run (StepOf (next opts lib)) start ls s) :
    s.Sound opts :=
  h.invariant (fun _ _ _ hs hnext => hs.next hnext) (sound_start opts)

end WsServer

/-- Every connection gets a part of what is due to it, in the order of publication and one
frame after the other, and while it is up and no send has failed, each frame that is due was
sent, is queued or counts as dropped. -/
theorem frames_sent_in_order {opts : WsServerOptions} {lib : AuthLibraries}
    {ls : List WsServer.Action} {s : WsServer}
    (h : Run (StepOf (WsServer.next opts lib)) WsServer.start ls s) :
    s.published.map EventFrame.number = List.range s.published.length ∧
      ∀ c ∈ s.clients, c.FannedOut opts s.published := by
  have hsound := WsServer.sound_run h
  refine ⟨hsound.numbers, fun c hc => ?_⟩
  have hacc := hsound.accounted c hc
  exact ⟨(List.sublist_append_left _ _).trans hacc.queued, hacc.due,
    (hsound.oneAtATime c hc).always, hacc.depth, hacc.atMost, hacc.exact⟩

/-! ## A slow connection -/

/-- A queue of one frame, and no drops allowed. -/
def strictOptions : WsServerOptions where
  authRequired := false
  maxPayloadBytes := 65536
  createBucket := fun now => ⟨5, 5, 5, now⟩
  maxRateViolations := 5
  sendQueueDepth := 1
  maxDropsBeforeDisconnect := 0
  sendQueueDepth_pos := Nat.one_pos

def noLibraries : AuthLibraries := ⟨fun _ => none, id, fun _ _ _ => false⟩

def likeEvent (ledger : Nat) : BusEvent := ⟨"LikePost", ledger, 0, "C1", ["LikePost"], .other⟩

/-- The first send is not answered while two more events are published. -/
def slowReader : List WsServer.Action :=
  [.connect 0, .publish (likeEvent 7) fun _ => [], .publish (likeEvent 8) fun _ => []]

theorem frames_sent_in_order_slow : ∃ s,
    Run (StepOf (WsServer.next strictOptions noLibraries)) WsServer.start slowReader s ∧
      (s.clients.map fun c => (c.sent.length, c.sendQueue.length, c.droppedFrames, c.opened)) =
        [(1, 1, 0, true)] ∧
      ∀ c ∈ s.clients, c.FannedOut strictOptions s.published := by
  have hsome : ((walk (WsServer.next strictOptions noLibraries) slowReader WsServer.start).map
      fun s => s.clients.map fun c =>
        (c.sent.length, c.sendQueue.length, c.droppedFrames, c.opened)) =
          some [(1, 1, 0, true)] := rfl
  obtain ⟨s, hs, hclients⟩ := Option.map_eq_some_iff.mp hsome
  have hrun := run_of_walk hs
  exact ⟨s, hrun, hclients, (frames_sent_in_order hrun).2⟩

/-- The frame that finds too many drops is neither queued nor counted, with no send failed. -/
theorem disconnecting_frame_uncounted : ∃ s c,
    Run (StepOf (WsServer.next strictOptions noLibraries)) WsServer.start
      (slowReader ++ [.publish (likeEvent 9) fun _ => []]) s ∧
    c ∈ s.clients ∧ c.NoFailure ∧ c.due = s.published ∧ c.due.length = 3 ∧
    c.sent.length + c.sendQueue.length + c.droppedFrames = 2 := by
  have hsome : ((walk (WsServer.next strictOptions noLibraries)
      (slowReader ++ [.publish (likeEvent 9) fun _ => []]) WsServer.start).bind fun s =>
        s.clients.head?.map fun c => (decide c.NoFailure, decide (c.due = s.published),
          c.due.length, c.sent.length + c.sendQueue.length + c.droppedFrames)) =
            some (true, true, 3, 2) := rfl
  obtain ⟨s, hs, hhead⟩ := Option.bind_eq_some_iff.mp hsome
  obtain ⟨c, hc, hvalues⟩ := Option.map_eq_some_iff.mp hhead
  simp only [Prod.mk.injEq, decide_eq_true_iff] at hvalues
  obtain ⟨hno, hdue, hlength, hcount⟩ := hvalues
  exact ⟨s, c, run_of_walk hs, List.mem_of_mem_head? hc, hno, hdue, hlength, hcount⟩

end Indexer
end Linkora
