import Linkora.Relay.Messages
import Linkora.Relay.Replays

/-!
# Delivery and read receipts

The WebSocket side of `services/dm-relay/src/routes.ts` and `typing-rate-limit.ts`.  A stored
message is tracked with its sender, and a frame that acknowledges a tracked message is
forwarded to the sockets of the sender.  The frame may come from any authenticated socket, so a
receipt is the recipient's just when it was the recipient's socket that sent the frame.
-/

namespace Linkora
namespace Relay

/-! ## Sockets and frames -/

inductive SocketPhase where
  | connected
  /-- The server has called `close`. -/
  | closing
  | closed
  deriving DecidableEq

/-- A socket with the address whose ownership was proved in the handshake. -/
structure Socket where
  address : String
  phase : SocketPhase
  deriving DecidableEq

/-- A JSON value with a `type`: the members that have the expected type. -/
structure Payload where
  type : Option String
  messageId : Option String
  readAt : Option JsNumber
  /-- A sender that counts as true: its text, if it is one. -/
  sender : Option (Option String)
  recipient : Option String
  deriving DecidableEq

/-- A frame: its bytes, and what `JSON.parse` gives, if it is not `null`. -/
structure Frame where
  rawLength : Nat
  payload : Option Payload
  deriving DecidableEq

inductive Push where
  | ack (messageId : String)
  | newMessage (id sender ciphertextB64 : String) (messageIndex timestamp : Int)
  | delivered (messageId : String)
  | read (messageId : String) (readAt : JsNumber)
  | typingStatus (sender : String)
  deriving DecidableEq

/-- What was sent to a socket of an address, and the address whose frame caused it. -/
structure Delivery where
  socket : Nat
  address : String
  push : Push
  origin : Option String
  deriving DecidableEq

/-! ## The throttle of typing notifications -/

/-- The pairs in order of use, with the milliseconds at which they were used. -/
abbrev TypingRateLimitMap := List (String × Int)

namespace TypingRateLimitMap

def TYPING_RATE_LIMIT_WINDOW_MS : Int := 3000
def TYPING_RATE_LIMIT_MAX_PAIRS : Nat := 50000

def evictExpired (map : TypingRateLimitMap) (now : Int) : TypingRateLimitMap :=
  map.dropWhile fun entry => decide (TYPING_RATE_LIMIT_WINDOW_MS < now - entry.2)

def get (map : TypingRateLimitMap) (key : String) (now : Int) : Option Int :=
  ((map.find? fun entry => decide (entry.1 = key)).map (·.2)).filter fun lastSent =>
    decide (now - lastSent ≤ TYPING_RATE_LIMIT_WINDOW_MS)

def touch (map : TypingRateLimitMap) (key : String) (now : Int) : TypingRateLimitMap :=
  let others := (evictExpired map now).filter fun entry => decide (entry.1 ≠ key)
  (if TYPING_RATE_LIMIT_MAX_PAIRS ≤ others.length then others.tail else others) ++ [(key, now)]

end TypingRateLimitMap

/-! ## The relay -/

/-- The table and the memory of the process.  `posts` are the stored messages whose requests
have not been answered; `stored` and `sent` are everything so far. -/
structure State where
  rows : List DbMessage
  sockets : List Socket
  pendingAckSenders : String → Option String
  timers : List String
  typing : TypingRateLimitMap
  nowMs : Int
  posts : List DbMessage
  stored : List DbMessage
  sent : List Delivery

namespace State

/-- `wsClients.get(address)`, as far as the sockets are open. -/
def openSockets (s : State) (address : String) : List Nat :=
  (List.range s.sockets.length).filter fun i =>
    decide (s.sockets[i]? = some ⟨address, .connected⟩)

def pushToRecipient (s : State) (recipient : String) (push : Push) (origin : Option String) :
    State :=
  { s with
    sent := s.sent ++ (s.openSockets recipient).map fun i => ⟨i, recipient, push, origin⟩ }

def trackPendingMessage (s : State) (messageId senderAddress : String) : State :=
  { s with
    pendingAckSenders := Function.update s.pendingAckSenders messageId (some senderAddress)
    timers := s.timers ++ [messageId] }

/-- The sender that a receipt for the message goes to. -/
def trackedSender (s : State) (messageId : String) : Option String :=
  (s.pendingAckSenders messageId).filter fun sender => decide (sender ≠ "")

def forwardReceiptToSender (s : State) (messageId : String) (push : Push)
    (origin : Option String) : State :=
  match s.trackedSender messageId with
  | none => s
  | some senderAddress => s.pushToRecipient senderAddress push origin

def typingStatus (s : State) (address : String) (payload : Payload) : State :=
  if payload.sender.any (· ≠ some address) = true then s
  else
    match payload.recipient with
    | none => s
    | some recipient =>
      if isStellarAddress recipient = false then s
      else
        let rateLimitKey := address ++ ":" ++ recipient
        let throttled := (TypingRateLimitMap.get s.typing rateLimitKey s.nowMs).any fun lastSent =>
          decide (s.nowMs - lastSent < TypingRateLimitMap.TYPING_RATE_LIMIT_WINDOW_MS)
        if throttled = true then s
        else
          ({ s with typing := TypingRateLimitMap.touch s.typing rateLimitKey s.nowMs }
            |>.pushToRecipient recipient (.typingStatus address) (some address))

/-- A `delivered` or a `read` frame, which needs the id of a message. -/
def onReceipt (s : State) (messageId : Option String) (push : String → Push) (address : String) :
    State :=
  match messageId with
  | none => s
  | some messageId =>
    if messageId = "" then s
    else s.forwardReceiptToSender messageId (push messageId) (some address)

/-- The listener of `registerWsClient`, for a frame of socket `i`. -/
def onMessage (maxMessageBytes : Nat) (s : State) (i : Nat) (address : String) (frame : Frame) :
    State :=
  if maxMessageBytes < frame.rawLength then
    { s with sockets := s.sockets.set i ⟨address, .closing⟩ }
  else
    match frame.payload with
    | none => s
    | some payload =>
      if payload.type = some "delivered" then s.onReceipt payload.messageId .delivered address
      else if payload.type = some "read" then
        let readAt := payload.readAt.getD (.finite s.nowMs)
        s.onReceipt payload.messageId (.read · readAt) address
      else if payload.type = some "typing_status" then s.typingStatus address payload
      else s

/-- What `POST /messages` does when its insert has returned. -/
def finishPost (s : State) (row : DbMessage) : State :=
  let s := s.trackPendingMessage row.id row.sender
  let s := s.pushToRecipient row.sender (.ack row.id) none
  s.pushToRecipient row.recipient
    (.newMessage row.id row.sender row.ciphertextB64 row.messageIndex row.timestamp) none

end State

inductive RelayAction where
  /-- A handshake whose ownership proof was accepted. -/
  | connect (address : String)
  | disconnect (i : Nat)
  | frame (i : Nat) (frame : Frame)
  /-- The insert of `POST /messages`. -/
  | insert (data : AuthData) (id : String) (createdAt : Int)
  | finishPost (i : Nat)
  /-- The timer of `trackPendingMessage`. -/
  | evict (messageId : String)
  | expire (id : String)
  | wait (ms : Nat)
  | restart

def State.next (lib : Stellar) (maxMessageBytes : Nat) (s : State) : RelayAction → Option State
  | .connect address => some { s with sockets := s.sockets ++ [⟨address, .connected⟩] }
  | .disconnect i =>
    match s.sockets[i]? with
    | none => none
    | some socket => some { s with sockets := s.sockets.set i { socket with phase := .closed } }
  | .frame i frame =>
    match s.sockets[i]? with
    | none => none
    | some socket =>
      if socket.phase = .closed then none
      else some (s.onMessage maxMessageBytes i socket.address frame)
  | .insert data id createdAt =>
    let row := data.toRow lib id createdAt
    match insertMessage s.rows row with
    | .error _ => none
    | .ok rows => some { s with rows, posts := s.posts ++ [row], stored := s.stored ++ [row] }
  | .finishPost i =>
    match s.posts[i]? with
    | none => none
    | some row => some { s.finishPost row with posts := s.posts.eraseIdx i }
  | .evict messageId =>
    if messageId ∈ s.timers then
      some { s with
        pendingAckSenders := Function.update s.pendingAckSenders messageId none
        timers := s.timers.erase messageId }
    else none
  | .expire id => some { s with rows := s.rows.filter fun r => decide (r.id ≠ id) }
  | .wait ms => some { s with nowMs := s.nowMs + ms }
  | .restart =>
    some { s with
      sockets := s.sockets.map fun socket => { socket with phase := .closed }
      pendingAckSenders := fun _ => none
      timers := []
      typing := []
      posts := [] }

def State.start (nowMs : Int) : State where
  rows := []
  sockets := []
  pendingAckSenders _ := none
  timers := []
  typing := []
  nowMs
  posts := []
  stored := []
  sent := []

/-! ## What each action can do -/

section

variable {lib : Stellar} {maxMessageBytes : Nat} {s s' : State} {i : Nat}

theorem next_frame {frame : Frame} (h : s.next lib maxMessageBytes (.frame i frame) = some s') :
    ∃ socket, s.sockets[i]? = some socket ∧ socket.phase ≠ .closed ∧
      s' = s.onMessage maxMessageBytes i socket.address frame := by
  rw [State.next] at h
  cases hi : s.sockets[i]? with
  | none =>
    rw [hi] at h
    cases h
  | some socket =>
    rw [hi] at h
    dsimp only at h
    split at h
    · cases h
    · rename_i hlistening
      exact ⟨socket, rfl, hlistening, (Option.some.inj h).symm⟩

theorem next_disconnect (h : s.next lib maxMessageBytes (.disconnect i) = some s') :
    ∃ socket : Socket, s.sockets[i]? = some socket ∧
      s' = { s with sockets := s.sockets.set i { socket with phase := .closed } } := by
  rw [State.next] at h
  cases hi : s.sockets[i]? with
  | none =>
    rw [hi] at h
    cases h
  | some socket =>
    rw [hi] at h
    exact ⟨socket, rfl, (Option.some.inj h).symm⟩

theorem next_insert {data : AuthData} {id : String} {createdAt : Int}
    (h : s.next lib maxMessageBytes (.insert data id createdAt) = some s') :
    ∃ rows, insertMessage s.rows (data.toRow lib id createdAt) = .ok rows ∧
      s' = { s with
        rows
        posts := s.posts ++ [data.toRow lib id createdAt]
        stored := s.stored ++ [data.toRow lib id createdAt] } := by
  simp only [State.next] at h
  cases hinsert : insertMessage s.rows (data.toRow lib id createdAt) with
  | error err =>
    rw [hinsert] at h
    cases h
  | ok rows =>
    rw [hinsert] at h
    exact ⟨rows, rfl, (Option.some.inj h).symm⟩

theorem next_finishPost (h : s.next lib maxMessageBytes (.finishPost i) = some s') :
    ∃ row, s.posts[i]? = some row ∧
      s' = { s.finishPost row with posts := s.posts.eraseIdx i } := by
  rw [State.next] at h
  cases hi : s.posts[i]? with
  | none =>
    rw [hi] at h
    cases h
  | some row =>
    rw [hi] at h
    exact ⟨row, rfl, (Option.some.inj h).symm⟩

theorem next_evict {messageId : String}
    (h : s.next lib maxMessageBytes (.evict messageId) = some s') :
    s' = { s with
      pendingAckSenders := Function.update s.pendingAckSenders messageId none
      timers := s.timers.erase messageId } := by
  rw [State.next] at h
  split at h
  · exact (Option.some.inj h).symm
  · cases h

end

/-! ## Receipts -/

/-- The message that a push is a receipt for. -/
def Push.receipt : Push → Option String
  | .delivered messageId => some messageId
  | .read messageId _ => some messageId
  | _ => none

/-- The message that a frame acknowledges. -/
def Frame.receipt (maxMessageBytes : Nat) (frame : Frame) : Option String :=
  if maxMessageBytes < frame.rawLength then none
  else
    match frame.payload with
    | none => none
    | some payload =>
      if payload.type = some "delivered" ∨ payload.type = some "read" then
        payload.messageId.filter fun messageId => decide (messageId ≠ "")
      else none

/-- A message with this id was stored, from one address to the other. -/
def State.HasStored (s : State) (messageId sender recipient : String) : Prop :=
  ∃ row ∈ s.stored, row.id = messageId ∧ row.sender = sender ∧ row.recipient = recipient

instance (s : State) (messageId sender recipient : String) :
    Decidable (s.HasStored messageId sender recipient) :=
  inferInstanceAs (Decidable (∃ row ∈ s.stored, _ ∧ _ ∧ _))

/-- Every receipt has gone to the sender of a stored message, and a socket of the recipient of
that message has caused it. -/
def State.Authentic (s : State) : Prop :=
  ∀ d ∈ s.sent, ∀ messageId, d.push.receipt = some messageId →
    ∃ recipient, d.origin = some recipient ∧ s.HasStored messageId d.address recipient

/-- A frame that acknowledges a tracked message, whose sender is connected, comes from a socket
of the recipient of the message. -/
def Acknowledged (maxMessageBytes : Nat) (s : State) : RelayAction → Prop
  | .frame i frame => ∀ socket ∈ s.sockets[i]?, socket.phase ≠ .closed →
      ∀ messageId ∈ frame.receipt maxMessageBytes, ∀ sender ∈ s.trackedSender messageId,
        s.openSockets sender ≠ [] → s.HasStored messageId sender socket.address
  | _ => True

instance (maxMessageBytes : Nat) (s : State) (a : RelayAction) :
    Decidable (Acknowledged maxMessageBytes s a) := by
  cases a <;> unfold Acknowledged <;> infer_instance

section Step

variable {lib : Stellar} {maxMessageBytes : Nat} {s s' : State} {a : RelayAction}

namespace State

/-- What a step does when it forwards no receipt. -/
structure Silent (s s' : State) : Prop where
  stored : ∀ row ∈ s.stored, row ∈ s'.stored
  sent : ∃ ds : List Delivery, s'.sent = s.sent ++ ds ∧ ∀ d ∈ ds, d.push.receipt = none

namespace Silent

theorem of_eq (hstored : s'.stored = s.stored) (hsent : s'.sent = s.sent) : Silent s s' where
  stored row hrow := by rwa [hstored]
  sent := ⟨[], by rw [hsent, List.append_nil], fun _ h => absurd h List.not_mem_nil⟩

theorem trans {s'' : State} (h : Silent s s') (h' : Silent s' s'') : Silent s s'' where
  stored row hrow := h'.stored row (h.stored row hrow)
  sent := by
    obtain ⟨ds, hds, hnone⟩ := h.sent
    obtain ⟨ds', hds', hnone'⟩ := h'.sent
    refine ⟨ds ++ ds', by rw [hds', hds, List.append_assoc], fun d hd => ?_⟩
    rcases List.mem_append.mp hd with hd | hd
    · exact hnone d hd
    · exact hnone' d hd

theorem push {recipient : String} {push : Push} {origin : Option String}
    (hpush : push.receipt = none) : Silent s (s.pushToRecipient recipient push origin) where
  stored _ hrow := hrow
  sent := by
    refine ⟨_, rfl, fun d hd => ?_⟩
    obtain ⟨i, -, rfl⟩ := List.mem_map.mp hd
    exact hpush

theorem authentic (h : Silent s s') (hs : s.Authentic) : s'.Authentic := by
  obtain ⟨ds, hds, hnone⟩ := h.sent
  intro d hd messageId hreceipt
  rw [hds] at hd
  rcases List.mem_append.mp hd with hold | hnew
  · obtain ⟨recipient, horigin, row, hrow, hids⟩ := hs d hold messageId hreceipt
    exact ⟨recipient, horigin, row, h.stored row hrow, hids⟩
  · rw [hnone d hnew] at hreceipt
    cases hreceipt

end Silent

theorem typingStatus_silent (address : String) (payload : Payload) :
    Silent s (s.typingStatus address payload) := by
  have hsame : Silent s s := .of_eq rfl rfl
  unfold typingStatus
  split
  · exact hsame
  · split
    · exact hsame
    · split
      · exact hsame
      · dsimp only
        split
        · exact hsame
        · have htouch : ∀ typing, Silent s { s with typing } := fun _ => .of_eq rfl rfl
          exact (htouch _).trans (.push rfl)

theorem onReceipt_cases (s : State) (messageId : Option String) (push : String → Push)
    (address : String) :
    (∃ m, messageId.filter (fun m => decide (m ≠ "")) = some m ∧
      s.onReceipt messageId push address = s.forwardReceiptToSender m (push m) (some address)) ∨
    (messageId.filter (fun m => decide (m ≠ "")) = none ∧
      s.onReceipt messageId push address = s) := by
  cases messageId with
  | none => exact Or.inr ⟨rfl, rfl⟩
  | some m =>
    rw [onReceipt, Option.filter_some]
    by_cases hempty : m = ""
    · rw [if_neg (by simpa using hempty), if_pos hempty]
      exact Or.inr ⟨rfl, rfl⟩
    · rw [if_pos (decide_eq_true hempty), if_neg hempty]
      exact Or.inl ⟨m, rfl, rfl⟩

/-- A frame forwards a receipt for the message that it acknowledges, and otherwise none. -/
theorem onMessage_cases (maxMessageBytes : Nat) (s : State) (i : Nat) (address : String)
    (frame : Frame) :
    (∃ messageId push, frame.receipt maxMessageBytes = some messageId ∧
      push.receipt = some messageId ∧ s.onMessage maxMessageBytes i address frame =
        s.forwardReceiptToSender messageId push (some address)) ∨
    (frame.receipt maxMessageBytes = none ∧
      Silent s (s.onMessage maxMessageBytes i address frame)) := by
  have hsame : Silent s s := .of_eq rfl rfl
  unfold onMessage Frame.receipt
  by_cases hlength : maxMessageBytes < frame.rawLength
  · rw [if_pos hlength, if_pos hlength]
    exact Or.inr ⟨rfl, .of_eq rfl rfl⟩
  · rw [if_neg hlength, if_neg hlength]
    cases frame.payload with
    | none => exact Or.inr ⟨rfl, hsame⟩
    | some payload =>
      -- Both kinds of receipt are alike.
      have hreceipt : ∀ push : String → Push, (∀ m, (push m).receipt = some m) →
          (∃ messageId push', payload.messageId.filter (fun m => decide (m ≠ "")) =
              some messageId ∧ push'.receipt = some messageId ∧
              s.onReceipt payload.messageId push address =
                s.forwardReceiptToSender messageId push' (some address)) ∨
            (payload.messageId.filter (fun m => decide (m ≠ "")) = none ∧
              Silent s (s.onReceipt payload.messageId push address)) := by
        intro push hpush
        rcases onReceipt_cases s payload.messageId push address with
          ⟨m, hm, hstep⟩ | ⟨hnone, hstep⟩
        · exact Or.inl ⟨m, push m, hm, hpush m, hstep⟩
        · exact Or.inr ⟨hnone, by rw [hstep]; exact hsame⟩
      dsimp only
      by_cases hdelivered : payload.type = some "delivered"
      · rw [if_pos hdelivered, if_pos (Or.inl hdelivered)]
        exact hreceipt _ fun _ => rfl
      · rw [if_neg hdelivered]
        by_cases hread : payload.type = some "read"
        · rw [if_pos hread, if_pos (Or.inr hread)]
          exact hreceipt (.read · (payload.readAt.getD (.finite s.nowMs))) fun _ => rfl
        · rw [if_neg hread, if_neg (not_or.mpr ⟨hdelivered, hread⟩)]
          split
          · exact Or.inr ⟨rfl, typingStatus_silent address payload⟩
          · exact Or.inr ⟨rfl, hsame⟩

/-- Forwarding is authentic just when nobody is there to receive it or the socket is the
recipient's. -/
theorem forwardReceiptToSender_authentic {messageId address : String} {push : Push}
    (hpush : push.receipt = some messageId) (hs : s.Authentic) :
    (s.forwardReceiptToSender messageId push (some address)).Authentic ↔
      ∀ sender ∈ s.trackedSender messageId, s.openSockets sender ≠ [] →
        s.HasStored messageId sender address := by
  unfold forwardReceiptToSender
  cases htracked : s.trackedSender messageId with
  | none => exact iff_of_true hs fun _ h => by cases h
  | some sender =>
    constructor
    · intro hafter sender' hsender' hopen
      obtain rfl := Option.some.inj hsender'
      obtain ⟨i, hi⟩ := List.exists_mem_of_ne_nil _ hopen
      obtain ⟨recipient, horigin, hstored⟩ := hafter ⟨i, sender, push, some address⟩
        (List.mem_append_right _ (List.mem_map_of_mem hi)) messageId hpush
      rwa [Option.some.inj horigin]
    · intro hguard d hd messageId' hreceipt
      rcases List.mem_append.mp hd with hold | hnew
      · exact hs d hold messageId' hreceipt
      · obtain ⟨i, hi, rfl⟩ := List.mem_map.mp hnew
        obtain rfl := Option.some.inj (hpush.symm.trans hreceipt)
        exact ⟨address, rfl, hguard sender rfl (List.ne_nil_of_mem hi)⟩

end State

/-- Actions other than frames forward no receipt. -/
theorem next_silent (ha : ∀ i frame, a ≠ .frame i frame)
    (h : s.next lib maxMessageBytes a = some s') : s.Silent s' := by
  cases a with
  | frame i frame => exact absurd rfl (ha i frame)
  | connect | wait | expire | restart =>
    obtain rfl := Option.some.inj h
    exact .of_eq rfl rfl
  | disconnect i =>
    obtain ⟨socket, -, rfl⟩ := next_disconnect h
    exact .of_eq rfl rfl
  | evict messageId =>
    obtain rfl := next_evict h
    exact .of_eq rfl rfl
  | insert data id createdAt =>
    obtain ⟨rows, -, rfl⟩ := next_insert h
    exact ⟨fun row hrow => List.mem_append_left _ hrow, [], (List.append_nil _).symm,
      fun _ h => absurd h List.not_mem_nil⟩
  | finishPost i =>
    obtain ⟨row, -, rfl⟩ := next_finishPost h
    have htracked : s.Silent (s.trackPendingMessage row.id row.sender) := .of_eq rfl rfl
    have hfinished : s.Silent (s.finishPost row) :=
      (htracked.trans (.push rfl)).trans (.push rfl)
    exact hfinished.trans (.of_eq rfl rfl)

theorem next_authentic_iff (hs : s.Authentic) (h : s.next lib maxMessageBytes a = some s') :
    s'.Authentic ↔ Acknowledged maxMessageBytes s a := by
  by_cases ha : ∀ i frame, a ≠ .frame i frame
  · refine iff_of_true ((next_silent ha h).authentic hs) ?_
    cases a with
    | frame i frame => exact absurd rfl (ha i frame)
    | _ => trivial
  · push Not at ha
    obtain ⟨i, frame, rfl⟩ := ha
    obtain ⟨socket, hi, hlistening, rfl⟩ := next_frame h
    have hguard : Acknowledged maxMessageBytes s (.frame i frame) ↔
        ∀ messageId ∈ frame.receipt maxMessageBytes, ∀ sender ∈ s.trackedSender messageId,
          s.openSockets sender ≠ [] → s.HasStored messageId sender socket.address := by
      rw [Acknowledged, hi]
      constructor
      · intro hall
        exact hall socket rfl hlistening
      · intro hall socket' hsocket' _
        rwa [← Option.some.inj hsocket']
    rw [hguard]
    rcases State.onMessage_cases maxMessageBytes s i socket.address frame with
      ⟨messageId, push, hreceipt, hpush, hstep⟩ | ⟨hnone, hsilent⟩
    · rw [hstep, State.forwardReceiptToSender_authentic hpush hs, hreceipt]
      constructor
      · intro hall messageId' hmessageId'
        rwa [← Option.some.inj hmessageId']
      · intro hall
        exact hall messageId rfl
    · refine iff_of_true (hsilent.authentic hs) fun messageId hmessageId => ?_
      rw [hnone] at hmessageId
      cases hmessageId

end Step

/-! ## Where receipts go -/

/-- What is tracked was stored with that sender, and so receipts go to the senders of stored
messages. -/
structure Tracked (s : State) : Prop where
  pending : ∀ messageId sender, s.pendingAckSenders messageId = some sender →
    ∃ recipient, s.HasStored messageId sender recipient
  posts : ∀ row ∈ s.posts, row ∈ s.stored
  sent : ∀ d ∈ s.sent, ∀ messageId, d.push.receipt = some messageId →
    ∃ recipient, s.HasStored messageId d.address recipient

namespace Tracked

variable {lib : Stellar} {maxMessageBytes : Nat} {s s' : State} {a : RelayAction}

theorem silent (h : Tracked s) (hstep : s.Silent s')
    (hpending : ∀ messageId sender, s'.pendingAckSenders messageId = some sender →
      ∃ recipient, s.HasStored messageId sender recipient)
    (hposts : ∀ row ∈ s'.posts, row ∈ s'.stored) : Tracked s' where
  pending messageId sender hsender := by
    obtain ⟨recipient, row, hrow, hids⟩ := hpending messageId sender hsender
    exact ⟨recipient, row, hstep.stored row hrow, hids⟩
  posts := hposts
  sent d hd messageId hreceipt := by
    obtain ⟨ds, hds, hnone⟩ := hstep.sent
    rw [hds] at hd
    rcases List.mem_append.mp hd with hold | hnew
    · obtain ⟨recipient, row, hrow, hids⟩ := h.sent d hold messageId hreceipt
      exact ⟨recipient, row, hstep.stored row hrow, hids⟩
    · rw [hnone d hnew] at hreceipt
      cases hreceipt

theorem forward (h : Tracked s) {messageId : String} {push : Push} {origin : Option String}
    (hpush : push.receipt = some messageId) :
    Tracked (s.forwardReceiptToSender messageId push origin) := by
  unfold State.forwardReceiptToSender
  cases htracked : s.trackedSender messageId with
  | none => exact h
  | some sender =>
    refine ⟨h.pending, h.posts, fun d hd messageId' hreceipt => ?_⟩
    rcases List.mem_append.mp hd with hold | hnew
    · exact h.sent d hold messageId' hreceipt
    · obtain ⟨i, -, rfl⟩ := List.mem_map.mp hnew
      obtain rfl := Option.some.inj (hpush.symm.trans hreceipt)
      exact h.pending messageId sender (Option.filter_eq_some_iff.mp htracked).1

/-- A frame changes neither what is tracked nor what is stored. -/
theorem onMessage_memory (maxMessageBytes : Nat) (s : State) (i : Nat) (address : String)
    (frame : Frame) :
    (s.onMessage maxMessageBytes i address frame).pendingAckSenders = s.pendingAckSenders ∧
      (s.onMessage maxMessageBytes i address frame).posts = s.posts := by
  have hforward : ∀ messageId push origin,
      (s.forwardReceiptToSender messageId push origin).pendingAckSenders = s.pendingAckSenders ∧
        (s.forwardReceiptToSender messageId push origin).posts = s.posts := by
    intro messageId push origin
    unfold State.forwardReceiptToSender
    cases s.trackedSender messageId with
    | none => exact ⟨rfl, rfl⟩
    | some => exact ⟨rfl, rfl⟩
  have hreceipt : ∀ messageId push,
      (s.onReceipt messageId push address).pendingAckSenders = s.pendingAckSenders ∧
        (s.onReceipt messageId push address).posts = s.posts := by
    intro messageId push
    rcases State.onReceipt_cases s messageId push address with ⟨m, -, h⟩ | ⟨-, h⟩
    · rw [h]
      exact hforward m (push m) (some address)
    · rw [h]
      exact ⟨rfl, rfl⟩
  have htyping : ∀ payload,
      (s.typingStatus address payload).pendingAckSenders = s.pendingAckSenders ∧
        (s.typingStatus address payload).posts = s.posts := by
    intro payload
    unfold State.typingStatus
    split
    · exact ⟨rfl, rfl⟩
    · split
      · exact ⟨rfl, rfl⟩
      · split
        · exact ⟨rfl, rfl⟩
        · dsimp only
          split
          · exact ⟨rfl, rfl⟩
          · exact ⟨rfl, rfl⟩
  unfold State.onMessage
  split
  · exact ⟨rfl, rfl⟩
  · cases frame.payload with
    | none => exact ⟨rfl, rfl⟩
    | some payload =>
      dsimp only
      split
      · exact hreceipt _ _
      · split
        · exact hreceipt _ _
        · split
          · exact htyping payload
          · exact ⟨rfl, rfl⟩

theorem next (h : Tracked s) (hnext : s.next lib maxMessageBytes a = some s') : Tracked s' := by
  cases a with
  | connect | wait | expire =>
    obtain rfl := Option.some.inj hnext
    exact ⟨h.pending, h.posts, h.sent⟩
  | restart =>
    obtain rfl := Option.some.inj hnext
    refine ⟨fun messageId sender hsender => ?_, fun _ hrow => absurd hrow List.not_mem_nil, h.sent⟩
    have hnone : (none : Option String) = some sender := hsender
    cases hnone
  | frame i frame =>
    obtain ⟨socket, -, -, rfl⟩ := next_frame hnext
    obtain ⟨hpending, hposts⟩ := onMessage_memory maxMessageBytes s i socket.address frame
    rcases State.onMessage_cases maxMessageBytes s i socket.address frame with
      ⟨messageId, push, -, hpush, hstep⟩ | ⟨-, hsilent⟩
    · rw [hstep]
      exact h.forward hpush
    · refine h.silent hsilent (fun messageId sender hsender => ?_) fun row hrow => ?_
      · rw [hpending] at hsender
        exact h.pending messageId sender hsender
      · rw [hposts] at hrow
        exact hsilent.stored row (h.posts row hrow)
  | disconnect i =>
    have hsilent := next_silent (fun _ _ h => by cases h) hnext
    obtain ⟨socket, -, rfl⟩ := next_disconnect hnext
    exact h.silent hsilent h.pending h.posts
  | evict messageId =>
    have hsilent := next_silent (fun _ _ h => by cases h) hnext
    obtain rfl := next_evict hnext
    refine h.silent hsilent (fun m sender hsender => ?_) h.posts
    have hupdated : Function.update s.pendingAckSenders messageId none m = some sender := hsender
    by_cases hm : m = messageId
    · rw [hm, Function.update_self] at hupdated
      cases hupdated
    · rw [Function.update_of_ne hm] at hupdated
      exact h.pending m sender hupdated
  | insert data id createdAt =>
    have hsilent := next_silent (fun _ _ h => by cases h) hnext
    obtain ⟨rows, -, rfl⟩ := next_insert hnext
    refine h.silent hsilent h.pending fun row hrow => ?_
    rcases List.mem_append.mp hrow with hold | hnew
    · exact List.mem_append_left _ (h.posts row hold)
    · exact List.mem_append_right _ hnew
  | finishPost i =>
    have hsilent := next_silent (fun _ _ h => by cases h) hnext
    obtain ⟨row, hi, rfl⟩ := next_finishPost hnext
    have hrow := h.posts row (List.mem_of_getElem? hi)
    refine h.silent hsilent (fun m sender hsender => ?_) fun x hx =>
      h.posts x (List.mem_of_mem_eraseIdx hx)
    have hupdated : Function.update s.pendingAckSenders row.id (some row.sender) m =
        some sender := hsender
    by_cases hm : m = row.id
    · rw [hm, Function.update_self] at hupdated
      exact ⟨row.recipient, row, hrow, hm.symm, Option.some.inj hupdated, rfl⟩
    · rw [Function.update_of_ne hm] at hupdated
      exact h.pending m sender hupdated

end Tracked

/-- In every run, every receipt goes to a socket of the sender of a stored message. -/
theorem receipts_reach_senders (lib : Stellar) (maxMessageBytes : Nat) (nowMs : Int)
    {actions : List RelayAction} {s : State}
    (h : Run (StepOf (State.next lib maxMessageBytes)) (State.start nowMs) actions s) :
    ∀ d ∈ s.sent, ∀ messageId, d.push.receipt = some messageId →
      ∃ recipient, s.HasStored messageId d.address recipient := by
  have hstart : Tracked (State.start nowMs) :=
    ⟨nofun, fun _ h => absurd h List.not_mem_nil, fun _ h => absurd h List.not_mem_nil⟩
  exact (h.invariant (fun _ _ _ hx hnext => hx.next hnext) hstart).sent

/-- All receipts of a run are authentic just when every frame that acknowledges a tracked
message of a connected sender comes from a socket of the message's recipient. -/
theorem receipts_authentic_iff (lib : Stellar) (maxMessageBytes : Nat) (nowMs : Int)
    {actions : List RelayAction} {s : State}
    (h : Run (StepOf (State.next lib maxMessageBytes)) (State.start nowMs) actions s) :
    Throughout (State.next lib maxMessageBytes) State.Authentic (State.start nowMs) actions ↔
      Run (Run.Guarded (StepOf (State.next lib maxMessageBytes)) (Acknowledged maxMessageBytes))
        (State.start nowMs) actions s := by
  have hstart : (State.start nowMs).Authentic := fun _ h => absurd h List.not_mem_nil
  constructor
  · intro hall
    refine guarded_of_throughout (J := State.Authentic) hstart ?_ ?_ h hall
    · intro x a y hx hC hxy
      exact (next_authentic_iff hx hxy).mpr hC
    · intro x a y hx hxy hy
      exact (next_authentic_iff hx hxy).mp hy
  · intro hg
    exact throughout_of_guarded hstart
      (fun x a y hx hC hxy => (next_authentic_iff hx hxy).mpr hC) hg

/-! ## One message -/

def carolsReceipt : Frame where
  rawLength := 40
  payload := some ⟨some "read", some "m", some (.finite 7), none, none⟩

/-- `alice` writes to `bob` while both are connected, and so is a third socket. -/
def aliceWrites : List RelayAction :=
  [.connect aliceAddress, .connect bobAddress, .connect "carol",
    .insert ⟨aliceAddress, bobAddress, 0, 100, "aGVsbG8=", ""⟩ "m" 100000000, .finishPost 0]

theorem receipts_authentic_iff_bob : ∃ s,
    Run (StepOf (State.next demoStellar 65536)) (State.start 0)
      (aliceWrites ++ [.frame 1 ⟨40, some ⟨some "delivered", some "m", none, none, none⟩⟩]) s ∧
    s.sent.map (·.push.receipt) = [none, none, some "m"] ∧
    Throughout (State.next demoStellar 65536) State.Authentic (State.start 0)
      (aliceWrites ++ [.frame 1 ⟨40, some ⟨some "delivered", some "m", none, none, none⟩⟩]) := by
  have hsome : (walk (restrict (State.next demoStellar 65536) (Acknowledged 65536))
      (aliceWrites ++ [.frame 1 ⟨40, some ⟨some "delivered", some "m", none, none, none⟩⟩])
      (State.start 0)).map (·.sent.map (·.push.receipt)) = some [none, none, some "m"] := by
    decide
  obtain ⟨s, hs, hsent⟩ := Option.map_eq_some_iff.mp hsome
  have hg := guarded_of_walk hs
  exact ⟨s, hg.of_guarded, hsent, (receipts_authentic_iff _ _ _ hg.of_guarded).mpr hg⟩

/-- A third socket reports that the message has been read, and `alice` is told so. -/
theorem forged_receipt_forwarded : ∃ s,
    Run (StepOf (State.next demoStellar 65536)) (State.start 0)
      (aliceWrites ++ [.frame 2 carolsReceipt]) s ∧
    ⟨0, aliceAddress, .read "m" (.finite 7), some "carol"⟩ ∈ s.sent ∧
    s.stored.map (·.recipient) = [bobAddress] ∧ ¬ s.Authentic := by
  have hsome : (walk (State.next demoStellar 65536) (aliceWrites ++ [.frame 2 carolsReceipt])
      (State.start 0)).map (fun s => (s.sent.drop 2, s.stored.map (·.recipient))) =
        some ([⟨0, aliceAddress, .read "m" (.finite 7), some "carol"⟩], [bobAddress]) := by
    decide
  obtain ⟨s, hs, hboth⟩ := Option.map_eq_some_iff.mp hsome
  obtain ⟨hsent, hstored⟩ := Prod.mk.inj hboth
  have hmem : ⟨0, aliceAddress, .read "m" (.finite 7), some "carol"⟩ ∈ s.sent :=
    List.mem_of_mem_drop (hsent ▸ List.mem_cons_self)
  refine ⟨s, run_of_walk hs, hmem, hstored, fun hauthentic => ?_⟩
  obtain ⟨recipient, horigin, row, hrow, -, -, hrecipient⟩ := hauthentic _ hmem "m" rfl
  have hbob : row.recipient ∈ [bobAddress] := hstored ▸ List.mem_map_of_mem hrow
  rw [List.mem_singleton, hrecipient, ← Option.some.inj horigin] at hbob
  exact absurd hbob (by decide)

end Relay
end Linkora
