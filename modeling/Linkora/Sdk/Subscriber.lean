import Linkora.Lib.Run
import Linkora.Lib.Tasks
import Linkora.Wire.Decoders

/-!
# Subscribing to events

`LinkoraEventSubscriber` of `packages/sdk/src/events/subscriber.ts`.  `start` begins a loop that
asks for a page and processes it, or keeps a WebSocket open of which every message is processed by
a call of its own.  All of them share the cursor.  Servers send the events of the contract after
the cursor they are given, in order and as many as they like; timers, the closing of a connection
and the end of a handler come at any time.
-/

namespace Linkora
namespace Sdk

/-! ## Events -/

/-- A raw event, its topics and its data read from XDR. -/
structure SorobanEvent where
  topics : List Wire.ScVal
  data : List (String × Wire.ScVal)
  pagingToken : Option String

/-- A paging token that moves the cursor. -/
def SorobanEvent.token (raw : SorobanEvent) : Option String :=
  raw.pagingToken.filter fun token => decide (token ≠ "")

def SorobanEvent.parsed (raw : SorobanEvent) : Option Wire.ParsedEvent :=
  Wire.parseContractEvent raw.topics raw.data

/-- The events of the contract from the start ledger on.  A paging token is that of one event. -/
structure EventHistory where
  events : List SorobanEvent
  distinct : events.Pairwise fun e e' => e.token = none ∨ e.token ≠ e'.token

/-- How many events are not after the cursor; nothing is after a cursor that is unknown. -/
def EventHistory.position (history : EventHistory) : Option String → Nat
  | none | some "" => 0
  | some cursor =>
    match history.events.findIdx? fun e => decide (e.token = some cursor) with
    | some i => i + 1
    | none => history.events.length

structure SubscriberConfig where
  history : EventHistory
  /-- The types of event that have a handler. -/
  handlers : List String
  webSocket : Bool

/-- The event at the position is recognised and has a handler. -/
def SubscriberConfig.wanted (cfg : SubscriberConfig) (i : Nat) : Bool :=
  (cfg.history.events[i]?.bind (·.parsed)).any fun event => decide (event.type ∈ cfg.handlers)

/-! ## State -/

/-- Where `processBatch` waits, and how many events of the batch come after this one. -/
inductive Pending where
  /-- The call of `emit`. -/
  | emit (i rest : Nat)
  /-- `cursorStore.set` -/
  | save (token : String) (i rest : Nat)
  deriving DecidableEq

inductive LoopPhase where
  /-- The request gives the cursor. -/
  | fetching (cursor : Option String)
  | processing (pending : Pending)
  /-- The promise of `connectWebSocket`. -/
  | connected (socket : Nat)
  | sleeping
  | ended
  deriving DecidableEq

inductive BatchPhase where
  | processing (pending : Pending)
  | done
  | failed
  deriving DecidableEq

inductive SubscriberTask where
  | loop (phase : LoopPhase)
  /-- `processWebSocketMessage` -/
  | message (socket : Nat) (phase : BatchPhase)
  deriving DecidableEq

inductive Socket where
  | connecting
  /-- The server has sent what comes before the position. -/
  | opened (position : Nat)
  /-- There was an error before it opened. -/
  | broken
  | closed
  deriving DecidableEq

/-- The subscriber with what the store holds.  `first` is what it held at the beginning, `initial`
the position of the first cursor, `handled` the events that a handler has come through with, and
`saved` the tokens that were stored. -/
structure Subscriber where
  running : Bool
  stopRequested : Bool
  cursor : Option String
  stored : Option String
  /-- Calls of `start` that wait for `cursorStore.get`. -/
  starting : Nat
  tasks : List SubscriberTask
  sockets : List Socket
  first : Option String
  initial : Option Nat
  handled : List Nat
  saved : List String
  deriving DecidableEq

inductive SubscriberAction where
  | start (fromCursor : Option String)
  /-- `cursorStore.get` comes back, or fails. -/
  | started (ok : Bool)
  | stop
  /-- The timer of a sleeping loop, which `stop` calls as well. -/
  | wake (i : Nat)
  /-- The reply to a request: a number of events, or an error. -/
  | fetched (i : Nat) (reply : Option Nat)
  | opened (k : Nat)
  | errored (k : Nat)
  | closed (k : Nat)
  | message (k count : Nat)
  /-- A handler comes through, or fails. -/
  | emitted (i : Nat) (ok : Bool)
  | saved (i : Nat) (ok : Bool)
  deriving DecidableEq

/-! ## Steps -/

namespace Subscriber

def new (stored : Option String) : Subscriber :=
  ⟨false, false, none, stored, 0, [], [], stored, none, [], []⟩

variable (cfg : SubscriberConfig)

/-- The next iteration of `loop` or `websocketLoop`. -/
def iterate (s : Subscriber) : Subscriber × LoopPhase :=
  if cfg.webSocket = true then
    ({ s with sockets := s.sockets ++ [.connecting] }, .connected s.sockets.length)
  else (s, .fetching s.cursor)

/-- What an iteration ends with. -/
def afterIteration (s : Subscriber) : LoopPhase :=
  if s.stopRequested = true then .ended else .sleeping

def launch (s : Subscriber) (cursor : Option String) : Subscriber :=
  let s := { s with
    cursor
    running := true
    stopRequested := false
    initial := s.initial.or (some (cfg.history.position cursor)) }
  let (s, phase) := s.iterate cfg
  { s with tasks := s.tasks ++ [.loop phase] }

def start (s : Subscriber) (fromCursor : Option String) : Subscriber :=
  if s.running = true then s
  else
    match fromCursor with
    | some cursor => s.launch cfg (some cursor)
    | none => { s with starting := s.starting + 1 }

/-- The rest of `start`, which does not look at `running` again. -/
def started (s : Subscriber) (ok : Bool) : Option Subscriber :=
  if s.starting = 0 then none
  else
    let s := { s with starting := s.starting - 1 }
    if ok = true then some (s.launch cfg s.stored) else some s

/-- `stop` closes the socket and ends the sleep as well, which may happen at any time anyway. -/
def stop (s : Subscriber) : Subscriber := { s with stopRequested := true, running := false }

def setTask (s : Subscriber) (i : Nat) (task : SubscriberTask) : Subscriber :=
  { s with tasks := s.tasks.set i task }

def wake (s : Subscriber) (i : Nat) : Option Subscriber :=
  match s.tasks[i]? with
  | some (.loop .sleeping) =>
    if s.stopRequested = true then some (s.setTask i (.loop .ended))
    else
      let (s, phase) := s.iterate cfg
      some (s.setTask i (.loop phase))
  | _ => none

/-- `processBatch` from the event `i` on, `left` events in all, up to where it has to wait: the
cursor, and the wait. -/
def processFrom (stopRequested : Bool) (cursor : Option String) (i : Nat) :
    Nat → Option String × Option Pending
  | 0 => (cursor, none)
  | rest + 1 =>
    if stopRequested = true then (cursor, none)
    else
      match cfg.history.events[i]? with
      | none => (cursor, none)
      | some raw =>
        match raw.parsed with
        | some _ => (cursor, some (.emit i rest))
        | none =>
          match raw.token with
          | some token => (some token, some (.save token i rest))
          | none => processFrom stopRequested cursor (i + 1) rest

/-- The same after the call of `emit`. -/
def processEmitted (stopRequested : Bool) (cursor : Option String) (i rest : Nat) :
    Option String × Option Pending :=
  match cfg.history.events[i]?.bind (·.token) with
  | some token => (some token, some (.save token i rest))
  | none => processFrom cfg stopRequested cursor (i + 1) rest

/-- The task goes on with the batch, or has come to its end. -/
def goOn (s : Subscriber) (task : SubscriberTask) : Option Pending → SubscriberTask
  | some pending =>
    match task with
    | .loop _ => .loop (.processing pending)
    | .message socket _ => .message socket (.processing pending)
  | none =>
    match task with
    | .loop _ => .loop s.afterIteration
    | .message socket _ => .message socket .done

/-- The batch fails: the loop backs off, a message closes its socket. -/
def giveUp (s : Subscriber) : SubscriberTask → SubscriberTask
  | .loop _ => .loop s.afterIteration
  | .message socket _ => .message socket .failed

def fetched (s : Subscriber) (i : Nat) (reply : Option Nat) : Option Subscriber :=
  match s.tasks[i]? with
  | some (.loop (.fetching asked)) =>
    match reply with
    | none => some (s.setTask i (.loop s.afterIteration))
    | some count =>
      let position := cfg.history.position asked
      if position + count ≤ cfg.history.events.length then
        let (cursor, pending) := processFrom cfg s.stopRequested s.cursor position count
        some ({ s with cursor }.setTask i (s.goOn (.loop (.fetching asked)) pending))
      else none
  | _ => none

/-- `onopen` announces the cursor. -/
def opened (s : Subscriber) (k : Nat) : Option Subscriber :=
  match s.sockets[k]? with
  | some .connecting =>
    some { s with sockets := s.sockets.set k (.opened (cfg.history.position s.cursor)) }
  | _ => none

/-- The loop that waits for the socket goes on. -/
def settle (s : Subscriber) (k : Nat) (socket : Socket) : Subscriber :=
  { s with
    sockets := s.sockets.set k socket
    tasks := s.tasks.map fun task =>
      if task = .loop (.connected k) then .loop s.afterIteration else task }

def errored (s : Subscriber) (k : Nat) : Option Subscriber :=
  match s.sockets[k]? with
  | some .connecting => some (s.settle k .broken)
  | _ => none

def closed (s : Subscriber) (k : Nat) : Option Subscriber :=
  match s.sockets[k]? with
  | none | some .closed => none
  | some _ => some (s.settle k .closed)

def message (s : Subscriber) (k count : Nat) : Option Subscriber :=
  match s.sockets[k]? with
  | some (.opened position) =>
    if position + count ≤ cfg.history.events.length then
      let (cursor, pending) := processFrom cfg s.stopRequested s.cursor position count
      some { s with
        cursor
        sockets := s.sockets.set k (.opened (position + count))
        tasks := s.tasks ++ [s.goOn (.message k .done) pending] }
    else none
  | _ => none

def pendingOf : SubscriberTask → Option Pending
  | .loop (.processing pending) => some pending
  | .message _ (.processing pending) => some pending
  | _ => none

/-- Without a handler there is nothing that could fail. -/
def emitted (s : Subscriber) (i : Nat) (ok : Bool) : Option Subscriber :=
  match s.tasks[i]? with
  | none => none
  | some task =>
    match pendingOf task with
    | some (.emit position rest) =>
      if ok = true then
        let (cursor, pending) := processEmitted cfg s.stopRequested s.cursor position rest
        some ({ s with
          cursor
          handled := if cfg.wanted position = true then s.handled ++ [position] else s.handled
          }.setTask i (s.goOn task pending))
      else if cfg.wanted position = true then some (s.setTask i (s.giveUp task))
      else none
    | _ => none

def save (s : Subscriber) (i : Nat) (ok : Bool) : Option Subscriber :=
  match s.tasks[i]? with
  | none => none
  | some task =>
    match pendingOf task with
    | some (.save token position rest) =>
      if ok = true then
        let (cursor, pending) := processFrom cfg s.stopRequested s.cursor (position + 1) rest
        some ({ s with cursor, stored := some token, saved := s.saved ++ [token] }.setTask i
          (s.goOn task pending))
      else some (s.setTask i (s.giveUp task))
    | _ => none

def next (s : Subscriber) : SubscriberAction → Option Subscriber
  | .start fromCursor => some (s.start cfg fromCursor)
  | .started ok => s.started cfg ok
  | .stop => some s.stop
  | .wake i => s.wake cfg i
  | .fetched i reply => s.fetched cfg i reply
  | .opened k => s.opened cfg k
  | .errored k => s.errored k
  | .closed k => s.closed k
  | .message k count => s.message cfg k count
  | .emitted i ok => s.emitted cfg i ok
  | .saved i ok => s.save cfg i ok

end Subscriber
end Sdk
end Linkora
