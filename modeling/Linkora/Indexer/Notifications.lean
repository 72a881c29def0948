import Linkora.Lib.Query
import Linkora.Lib.Rows
import Linkora.Lib.Text

/-!
# Push notifications

`dispatchNotificationForBusEvent` of `services/indexer/src/notifications/events.ts` and
`dispatchEventNotification` of `notifications/service.ts`.  Any number of calls run side by
side, for the same event too, since the bus, the processor and a retried batch all make one.
Every query and every call of `sendPush` may fail, before or after its effect, and its answer may
take any time: a call stands at one of its awaits until the answer comes.  The decoding of XDR
is a parameter.
-/

namespace Linkora
namespace Indexer

open Query (Outcome Statement)

/-! ## Events -/

/-- The `data` of an event, as far as `decodeData` looks at it. -/
inductive EventData where
  | text (s : String)
  /-- An object with a member `value`, if that is a string. -/
  | value (s : Option String)
  | other
  deriving DecidableEq

structure BusEvent where
  type : String
  ledgerSequence : Nat
  eventIndex : Nat
  contractId : String
  topic : List String
  data : EventData
  deriving DecidableEq

/-- What `scValToNative` makes of a value. -/
inductive Native where
  | null
  | text (s : String)
  | bigint (n : Int)
  | record (members : List (String × Native))
  /-- Anything else, as `String` writes it. -/
  | other (text : String)

abbrev Members := List (String × Native)

inductive EventName where
  | follow
  | tip
  | like
  | postReported
  | reportDismissed
  | postRemovedByModeration
  deriving DecidableEq

inductive LinkoraNotificationEvent where
  | follow (follower followee : String)
  | tip (tipper : String) (postId amount : Int)
  | like (user : String) (postId : Int)
  | postReported (postId : Int) (reporter reason : String)
  | reportDismissed (postId : Int) (reporter : String) (moderatorNotes : Option String)
  | postRemovedByModeration (postId : Int) (moderator reason : String)
  deriving DecidableEq

def EVENT_NAMES : List (String × EventName) :=
  [("follow", .follow), ("Follow", .follow), ("tip", .tip), ("Tip", .tip), ("like", .like),
    ("Like", .like), ("post_reported", .postReported), ("PostReported", .postReported),
    ("report_dismissed", .reportDismissed), ("ReportDismissed", .reportDismissed),
    ("post_removed_by_moderation", .postRemovedByModeration),
    ("PostRemovedByModeration", .postRemovedByModeration)]

/-- What every object has besides its own members. -/
def OBJECT_MEMBERS : List String :=
  ["constructor", "hasOwnProperty", "isPrototypeOf", "propertyIsEnumerable", "toLocaleString",
    "toString", "valueOf", "__proto__", "__defineGetter__", "__defineSetter__",
    "__lookupGetter__", "__lookupSetter__"]

section Parse

variable (decodeScVal : String → Option Native)

def decodeTopics (topics : List String) : List Native :=
  topics.map fun topic => (decodeScVal topic).getD (.text topic)

def decodeData (data : EventData) : Members :=
  let encoded := match data with
    | .text s => some s
    | .value s => s
    | .other => none
  match encoded.bind decodeScVal with
  | some (.record members) => members
  | _ => []

/-- Later topics come first, as they override what is there. -/
def payloadFrom (topics : List Native) (data : Members) : Members :=
  topics.foldl (fun payload topic =>
    match topic with
    | .record members => members ++ payload
    | _ => payload) data

/-- The first topic that `EVENT_NAMES` answers to, be it with a member that it inherits, which is
no type of an event. -/
def findEventType (topics : List Native) : Option EventName :=
  let named := topics.findSome? fun topic =>
    match topic with
    | .text s => if s ∈ EVENT_NAMES.map (·.1) ∨ s ∈ OBJECT_MEMBERS then some s else none
    | _ => none
  named.bind fun name => EVENT_NAMES.lookup name

def asString : Option Native → String
  | none => "undefined"
  | some .null => "null"
  | some (.text s) => s
  | some (.bigint n) => toString n
  | some (.record _) => "[object Object]"
  | some (.other text) => text

def isWhiteSpace (c : Char) : Bool :=
  decide (9 ≤ c.toNat ∧ c.toNat ≤ 13 ∨ 0x2000 ≤ c.toNat ∧ c.toNat ≤ 0x200A) ||
    decide (c.toNat ∈ [0x20, 0xA0, 0x1680, 0x2028, 0x2029, 0x202F, 0x205F, 0x3000, 0xFEFF])

/-- Digits below the base, at least one. -/
def digitsOf (base : Nat) (cs : List Char) : Option Nat :=
  if cs = [] then none
  else cs.foldlM (fun n c => match Text.hexValue c with
    | some d => if d < base then some (n * base + d) else none
    | none => none) 0

/-- `BigInt` of a text, `none` where it throws. -/
def bigIntOf (s : String) : Option Int :=
  let trimmed := ((s.toList.dropWhile isWhiteSpace).reverse.dropWhile isWhiteSpace).reverse
  match trimmed with
  | [] => some 0
  | '-' :: digits => (digitsOf 10 digits).map fun n => -(n : Int)
  | '+' :: digits => (digitsOf 10 digits).map fun n => (n : Int)
  | '0' :: 'x' :: digits | '0' :: 'X' :: digits => (digitsOf 16 digits).map fun n => (n : Int)
  | '0' :: 'o' :: digits | '0' :: 'O' :: digits => (digitsOf 8 digits).map fun n => (n : Int)
  | '0' :: 'b' :: digits | '0' :: 'B' :: digits => (digitsOf 2 digits).map fun n => (n : Int)
  | digits => (digitsOf 10 digits).map fun n => (n : Int)

def asBigInt : Option Native → Option Int
  | some (.bigint n) => some n
  | value => bigIntOf (asString value)

/-- `a ?? b` -/
def coalesce : Option Native → Option Native → Option Native
  | none, b | some .null, b => b
  | a, _ => a

def parseNotificationEvent (event : BusEvent) : Option LinkoraNotificationEvent := do
  let topics := decodeTopics decodeScVal event.topic
  let type ← findEventType topics
  let payload := payloadFrom topics (decodeData decodeScVal event.data)
  match type with
  | .follow =>
    return .follow (asString (payload.lookup "follower")) (asString (payload.lookup "followee"))
  | .tip =>
    let postId ← asBigInt (payload.lookup "post_id")
    let amount ← asBigInt (payload.lookup "amount")
    return .tip (asString (payload.lookup "tipper")) postId amount
  | .like =>
    let postId ← asBigInt (payload.lookup "post_id")
    return .like (asString (payload.lookup "user")) postId
  | .postReported =>
    let postId ← asBigInt (payload.lookup "post_id")
    return .postReported postId
      (asString (coalesce (payload.lookup "reporter_address") (payload.lookup "reporter")))
      (asString (payload.lookup "reason"))
  | .reportDismissed =>
    let postId ← asBigInt (payload.lookup "post_id")
    let notes := asString (payload.lookup "moderator_notes")
    return .reportDismissed postId
      (asString (coalesce (payload.lookup "reporter_address") (payload.lookup "reporter")))
      (if notes = "" then none else some notes)
  | .postRemovedByModeration =>
    let postId ← asBigInt (payload.lookup "post_id")
    return .postRemovedByModeration postId
      (asString (coalesce (payload.lookup "moderator_address") (payload.lookup "moderator")))
      (asString (payload.lookup "reason"))

end Parse

/-! ## Notices -/

inductive NotificationEventType where
  | follow
  | tipReceived
  | likeReceived
  | postReported
  | reportDismissed
  | postRemovedByModeration
  deriving DecidableEq

def NotificationEventType.text : NotificationEventType → String
  | .follow => "FOLLOW"
  | .tipReceived => "TIP_RECEIVED"
  | .likeReceived => "LIKE_RECEIVED"
  | .postReported => "POST_REPORTED"
  | .reportDismissed => "REPORT_DISMISSED"
  | .postRemovedByModeration => "POST_REMOVED_BY_MODERATION"

/-- A payload lists the members that are not undefined. -/
structure NotificationDispatchOptions where
  type : NotificationEventType
  recipient : String
  payload : List (String × String)
  deriving DecidableEq

/-- Whom an event concerns: an address, or the author of a post unless it is the actor. -/
inductive Addressee where
  | address (recipient : String)
  | authorOf (postId : Int) (actor : Option String)

namespace LinkoraNotificationEvent

def addressee : LinkoraNotificationEvent → Addressee
  | .follow _ followee => .address followee
  | .tip tipper postId _ => .authorOf postId (some tipper)
  | .like user postId => .authorOf postId (some user)
  | .postReported postId _ _ => .authorOf postId none
  | .reportDismissed _ reporter _ => .address reporter
  | .postRemovedByModeration postId _ _ => .authorOf postId none

/-- The type in the dispatch key. -/
def eventType : LinkoraNotificationEvent → String
  | .follow _ _ => "follow"
  | .tip _ _ _ => "tip"
  | .like _ _ => "like"
  | .postReported _ _ _ => "post_reported"
  | .reportDismissed _ _ _ => "report_dismissed"
  | .postRemovedByModeration _ _ _ => "post_removed_by_moderation"

def postLink (postId : Int) : String × String := ("deepLink", "linkora://post/" ++ toString postId)

def options (recipient : String) : LinkoraNotificationEvent → NotificationDispatchOptions
  | .follow follower _ => ⟨.follow, recipient,
    [("followerAddress", follower), ("deepLink", "linkora://profile/" ++ follower)]⟩
  | .tip tipper postId amount => ⟨.tipReceived, recipient,
    [("senderAddress", tipper), ("postId", toString postId), ("amount", toString amount),
      postLink postId]⟩
  | .like user postId => ⟨.likeReceived, recipient,
    [("senderAddress", user), ("postId", toString postId), postLink postId]⟩
  | .postReported postId reporter reason => ⟨.postReported, recipient,
    [("postId", toString postId), ("reporterAddress", reporter), ("reason", reason),
      postLink postId]⟩
  | .reportDismissed postId _ notes => ⟨.reportDismissed, recipient,
    ("postId", toString postId) :: (notes.map fun text => ("moderatorNotes", text)).toList ++
      [postLink postId]⟩
  | .postRemovedByModeration postId moderator reason => ⟨.postRemovedByModeration, recipient,
    [("postId", toString postId), ("moderatorAddress", moderator), ("reason", reason),
      postLink postId]⟩

end LinkoraNotificationEvent

/-- The columns of `notification_preferences` that `shouldSendNotification` looks at. -/
structure NotificationPreferences where
  newFollowers : Bool
  newLikes : Bool
  poolActivity : Bool
  governanceUpdates : Bool
  deriving DecidableEq

def shouldSendNotification (preferences : Option NotificationPreferences)
    (type : NotificationEventType) : Bool :=
  match preferences with
  | none => true
  | some preferences =>
    match type with
    | .follow => preferences.newFollowers
    | .likeReceived => preferences.newLikes
    | .tipReceived => preferences.poolActivity
    | .postReported | .reportDismissed | .postRemovedByModeration => preferences.governanceUpdates

structure PushMessage where
  token : String
  title : String
  body : String
  data : List (String × String)
  deriving DecidableEq

def getTitle : NotificationEventType → String
  | .follow => "New follower"
  | .tipReceived => "Tip received"
  | .likeReceived => "Your post was liked"
  | .postReported => "Your post was reported"
  | .reportDismissed => "Report dismissed"
  | .postRemovedByModeration => "Post removed by moderation"

def getMobileType (type : NotificationEventType) : String :=
  if type = .follow then "NEW_FOLLOWER" else type.text

/-- A member of the payload between two texts, unless it is missing or empty. -/
def mention (payload : List (String × String)) (name before after : String) : String :=
  match payload.lookup name with
  | none | some "" => ""
  | some text => before ++ text ++ after

def getBody (type : NotificationEventType) (payload : List (String × String)) : String :=
  match type with
  | .follow =>
    "A new follower started following you" ++ mention payload "followerAddress" " (" ")"
  | .tipReceived => "You received a tip" ++ mention payload "postId" " on post " ""
  | .likeReceived => "A user liked your post" ++ mention payload "postId" " " ""
  | .postReported => "Your post was reported" ++ mention payload "reason" " for: " ""
  | .reportDismissed => "Your report was dismissed" ++ mention payload "moderatorNotes" ": " ""
  | .postRemovedByModeration =>
    "Your post was removed by moderation" ++ mention payload "reason" ": " ""

def NotificationDispatchOptions.message (options : NotificationDispatchOptions) (token : String) :
    PushMessage :=
  ⟨token, getTitle options.type, getBody options.type options.payload,
    options.payload ++ [("type", getMobileType options.type)]⟩

/-! ## Tables -/

/-- What a push is for. -/
structure Origin where
  event : BusEvent
  recipient : String
  deriving DecidableEq

/-- A row of `notification_outbox`; a column that was not set has its default.  Which event a row
is for stands in no column. -/
structure OutboxRow where
  id : Nat
  recipient : String
  payload : PushMessage
  attempts : Option Nat
  lastError : Option String
  nextAttemptInMs : Option Nat
  origin : Origin
  deriving DecidableEq

structure DeadLetter where
  recipient : String
  payload : PushMessage
  attempts : Option Nat
  error : Option String
  origin : Origin
  deriving DecidableEq

structure SentNotification where
  eventId : Nat
  eventType : String
  recipient : String
  dispatchKey : String
  deriving DecidableEq

structure NotificationTables where
  outbox : List OutboxRow
  outboxIds : Nat
  deadLetters : List DeadLetter
  sent : List SentNotification
  deriving DecidableEq

def makeDispatchKey (event : BusEvent) (eventType recipient : String) : String :=
  toString event.ledgerSequence ++ "-" ++ toString event.eventIndex ++ "|" ++ eventType ++ "|" ++
    recipient

namespace NotificationTables

def isAlreadyDispatched (db : NotificationTables) (dispatchKey : String) : Bool :=
  db.sent.any fun row => decide (row.dispatchKey = dispatchKey)

def markDispatched (event : BusEvent) (eventType recipient : String) :
    Statement NotificationTables where
  commands := [fun db => { db with
    sent := (Rows.insert SentNotification.dispatchKey db.sent
      ⟨event.ledgerSequence * 1000 + event.eventIndex, eventType, recipient,
        makeDispatchKey event eventType recipient⟩).getD db.sent }]
  parameters := 4

/-- `INSERT INTO notification_outbox` -/
def enqueue (origin : Origin) (message : PushMessage) : Statement NotificationTables where
  commands := [fun db => { db with
    outbox := db.outbox ++ [⟨db.outboxIds, origin.recipient, message, none, none, none, origin⟩]
    outboxIds := db.outboxIds + 1 }]
  parameters := 2

/-- `DELETE FROM notification_outbox` -/
def dequeueCommand (id : Nat) (db : NotificationTables) : NotificationTables :=
  { db with outbox := db.outbox.filter fun row => decide (row.id ≠ id) }

def dequeue (id : Nat) : Statement NotificationTables := ⟨[dequeueCommand id], 1⟩

/-- `UPDATE notification_outbox` -/
def recordFailure (id attempt : Nat) (error : String) (delayMs : Nat) :
    Statement NotificationTables where
  commands := [fun db => { db with
    outbox := db.outbox.map fun row =>
      if row.id = id then { row with
        attempts := some attempt, lastError := some error, nextAttemptInMs := some delayMs }
      else row }]
  parameters := 4

/-- `INSERT INTO notification_dead_letters … SELECT … ; DELETE FROM notification_outbox …` -/
def deadLetter (id : Nat) : Statement NotificationTables where
  commands := [
    fun db => { db with
      deadLetters := db.deadLetters ++ (db.outbox.filter fun row => decide (row.id = id)).map
        fun row => ⟨row.recipient, row.payload, row.attempts, row.lastError, row.origin⟩ },
    dequeueCommand id]
  parameters := 1

end NotificationTables

/-! ## State -/

structure NotificationService where
  hasPool : Bool
  maxAttempts : Nat
  retryDelayMs : Nat
  maxAttempts_pos : 0 < maxAttempts

/-- The defaults of the constructor. -/
def NotificationService.new (hasPool : Bool) (maxAttempts retryDelayMs : Option Int) :
    NotificationService where
  hasPool
  maxAttempts := (max 1 (maxAttempts.getD 3)).toNat
  retryDelayMs := (max 0 (retryDelayMs.getD 250)).toNat
  maxAttempts_pos := by omega

/-- A message on its way to the provider. -/
structure Sending where
  message : PushMessage
  outboxId : Option Nat
  attempt : Nat
  deriving DecidableEq

/-- The await at which a call stands that found nothing in `sent_notifications`. -/
inductive Stage where
  | preferences
  | token
  | enqueue (message : PushMessage)
  | push (sending : Sending)
  | dequeue (sending : Sending)
  | reschedule (sending : Sending) (error : String)
  | sleep (sending : Sending)
  | bury (id : Nat)
  | mark
  deriving DecidableEq

inductive DispatchPhase where
  | author
  | check (recipient : String)
  | active (recipient : String) (stage : Stage)
  /-- What the call returns, or the error it rejects with. -/
  | ended (error : Option String) (result : Bool)
  deriving DecidableEq

/-- A call of `dispatchNotificationForBusEvent`. -/
structure Dispatch where
  event : BusEvent
  parsed : LinkoraNotificationEvent
  phase : DispatchPhase
  deriving DecidableEq

/-- The error of a push as the service sees it, and whether the provider has taken the push. -/
structure PushRecord where
  origin : Origin
  error : Option String
  taken : Bool
  deriving DecidableEq

structure Notifier where
  db : NotificationTables
  dispatches : List Dispatch
  pushes : List PushRecord
  deriving DecidableEq

structure PushResponse where
  ok : Option Bool
  status : Option Nat
  deriving DecidableEq

/-- What `sendPush` comes to. -/
inductive SendPush where
  | returned (response : Option PushResponse)
  | threw (message : String)
  deriving DecidableEq

def SendPush.error : SendPush → Option String
  | .threw message => some message
  | .returned (some ⟨some false, status⟩) =>
    some ("Expo push request failed with status " ++ (status.map toString).getD "unknown")
  | .returned _ => none

inductive NotifierAction where
  | dispatch (event : BusEvent)
  /-- The author that `posts` names, and so for the rows below. -/
  | author (i : Nat) (reply : Except String (Option String))
  | check (i : Nat) (failure : Option String)
  | preferences (i : Nat) (reply : Except String (Option NotificationPreferences))
  | token (i : Nat) (reply : Except String (Option String))
  | enqueue (i : Nat) (outcome : Outcome)
  | push (i : Nat) (result : SendPush) (taken : Bool)
  | dequeue (i : Nat) (outcome : Outcome)
  | reschedule (i : Nat) (outcome : Outcome)
  | wake (i : Nat)
  | bury (i : Nat) (outcome : Outcome)
  | mark (i : Nat) (outcome : Outcome)
  /-- Retention of `sent_notifications`. -/
  | prune (dispatchKey : String)

/-! ## Steps -/

namespace Notifier

def start : Notifier := ⟨⟨[], 0, [], []⟩, [], []⟩

def setPhase (s : Notifier) (i : Nat) (d : Dispatch) (phase : DispatchPhase) : Notifier :=
  { s with dispatches := s.dispatches.set i { d with phase } }

def fail (s : Notifier) (i : Nat) (d : Dispatch) (error : String) : Notifier :=
  s.setPhase i d (.ended (some error) false)

def finish (s : Notifier) (i : Nat) (d : Dispatch) (result : Bool) : Notifier :=
  s.setPhase i d (.ended none result)

def onDispatch (s : Notifier) (i : Nat) (step : Dispatch → Option Notifier) : Option Notifier :=
  match s.dispatches[i]? with
  | none => none
  | some d => step d

/-- A step of a call that found nothing in `sent_notifications`. -/
def onStage (s : Notifier) (i : Nat) (step : Dispatch → String → Stage → Option Notifier) :
    Option Notifier :=
  s.onDispatch i fun d =>
    match d.phase with
    | .active recipient stage => step d recipient stage
    | _ => none

variable (decodeScVal : String → Option Native) (service : NotificationService)

def dispatch (s : Notifier) (event : BusEvent) : Notifier :=
  match parseNotificationEvent decodeScVal event with
  | none => s
  | some parsed =>
    { s with
      dispatches := s.dispatches ++ [⟨event, parsed,
        match parsed.addressee with
        | .address recipient => .check recipient
        | .authorOf _ _ => .author⟩] }

/-- `getPostAuthor` -/
def author (s : Notifier) (i : Nat) (reply : Except String (Option String)) : Option Notifier :=
  s.onDispatch i fun d =>
    match d.phase, d.parsed.addressee with
    | .author, .authorOf _ actor =>
      match reply with
      | .error message => some (s.fail i d message)
      | .ok none | .ok (some "") => some (s.finish i d false)
      | .ok (some recipient) =>
        if actor = some recipient then some (s.finish i d false)
        else some (s.setPhase i d (.check recipient))
    | _, _ => none

/-- `isAlreadyDispatched`; a service without a pool has no preferences to look up. -/
def check (s : Notifier) (i : Nat) (failure : Option String) : Option Notifier :=
  s.onDispatch i fun d =>
    match d.phase with
    | .check recipient =>
      match failure with
      | some message => some (s.fail i d message)
      | none =>
        if s.db.isAlreadyDispatched (makeDispatchKey d.event d.parsed.eventType recipient) = true
        then some (s.finish i d false)
        else some (s.setPhase i d (.active recipient
          (if service.hasPool = true then .preferences else .token)))
    | _ => none

def preferences (s : Notifier) (i : Nat)
    (reply : Except String (Option NotificationPreferences)) : Option Notifier :=
  s.onStage i fun d recipient stage =>
    match stage, reply with
    | .preferences, .error message => some (s.fail i d message)
    | .preferences, .ok row =>
      if shouldSendNotification row (d.parsed.options recipient).type = true then
        some (s.setPhase i d (.active recipient .token))
      else some (s.finish i d false)
    | _, _ => none

def token (s : Notifier) (i : Nat) (reply : Except String (Option String)) : Option Notifier :=
  s.onStage i fun d recipient stage =>
    match stage, reply with
    | .token, .error message => some (s.fail i d message)
    | .token, .ok none | .token, .ok (some "") => some (s.finish i d false)
    | .token, .ok (some token) =>
      -- A subscription of a browser is only written to the log.
      if Text.startsWith token "\x7b" = true then
        some (s.setPhase i d (.active recipient .mark))
      else
        let message := (d.parsed.options recipient).message token
        some (s.setPhase i d (.active recipient
          (if service.hasPool = true then .enqueue message else .push ⟨message, none, 1⟩)))
    | _, _ => none

def enqueue (s : Notifier) (i : Nat) (outcome : Outcome) : Option Notifier :=
  s.onStage i fun d recipient stage =>
    match stage with
    | .enqueue message =>
      match (NotificationTables.enqueue ⟨d.event, recipient⟩ message).exec outcome s.db with
      | (db, some error) => some ({ s with db }.fail i d error)
      | (db, none) => some ({ s with db }.setPhase i d
          (.active recipient (.push ⟨message, some s.db.outboxIds, 1⟩)))
    | _ => none

/-- The `catch` of the loop, and what follows the last attempt. -/
def attemptFailed (s : Notifier) (i : Nat) (d : Dispatch) (recipient : String) (sending : Sending)
    (error : String) : Notifier :=
  if sending.attempt = service.maxAttempts then
    match sending.outboxId with
    | some id => s.setPhase i d (.active recipient (.bury id))
    | none => s.finish i d false
  else
    match sending.outboxId with
    | some _ => s.setPhase i d (.active recipient (.reschedule sending error))
    | none => s.setPhase i d (.active recipient (.sleep sending))

def push (s : Notifier) (i : Nat) (result : SendPush) (taken : Bool) : Option Notifier :=
  s.onStage i fun d recipient stage =>
    match stage with
    | .push sending =>
      let s : Notifier :=
        { s with pushes := s.pushes ++ [⟨⟨d.event, recipient⟩, result.error, taken⟩] }
      match result.error, sending.outboxId with
      | some error, _ => some (s.attemptFailed service i d recipient sending error)
      | none, some _ => some (s.setPhase i d (.active recipient (.dequeue sending)))
      | none, none => some (s.setPhase i d (.active recipient .mark))
    | _ => none

/-- The deletion stands in the `try`, so that its failure counts as one of the push. -/
def dequeue (s : Notifier) (i : Nat) (outcome : Outcome) : Option Notifier :=
  s.onStage i fun d recipient stage =>
    match stage with
    | .dequeue sending =>
      match sending.outboxId with
      | none => none
      | some id =>
        match (NotificationTables.dequeue id).exec outcome s.db with
        | (db, some error) => some ({ s with db }.attemptFailed service i d recipient sending error)
        | (db, none) => some ({ s with db }.setPhase i d (.active recipient .mark))
    | _ => none

def reschedule (s : Notifier) (i : Nat) (outcome : Outcome) : Option Notifier :=
  s.onStage i fun d recipient stage =>
    match stage with
    | .reschedule sending error =>
      match sending.outboxId with
      | none => none
      | some id =>
        match (NotificationTables.recordFailure id sending.attempt error
            (service.retryDelayMs * 2 ^ (sending.attempt - 1))).exec outcome s.db with
        | (db, some error) => some ({ s with db }.fail i d error)
        | (db, none) => some ({ s with db }.setPhase i d (.active recipient (.sleep sending)))
    | _ => none

/-- The next attempt. -/
def wake (s : Notifier) (i : Nat) : Option Notifier :=
  s.onStage i fun d recipient stage =>
    match stage with
    | .sleep sending => some (s.setPhase i d (.active recipient
        (.push { sending with attempt := sending.attempt + 1 })))
    | _ => none

def bury (s : Notifier) (i : Nat) (outcome : Outcome) : Option Notifier :=
  s.onStage i fun d _ stage =>
    match stage with
    | .bury id =>
      match (NotificationTables.deadLetter id).exec outcome s.db with
      | (db, some error) => some ({ s with db }.fail i d error)
      | (db, none) => some ({ s with db }.finish i d false)
    | _ => none

def mark (s : Notifier) (i : Nat) (outcome : Outcome) : Option Notifier :=
  s.onStage i fun d recipient stage =>
    match stage with
    | .mark =>
      match (NotificationTables.markDispatched d.event d.parsed.eventType recipient).exec
          outcome s.db with
      | (db, some error) => some ({ s with db }.fail i d error)
      | (db, none) => some ({ s with db }.finish i d true)
    | _ => none

def next (s : Notifier) : NotifierAction → Option Notifier
  | .dispatch event => some (s.dispatch decodeScVal event)
  | .author i reply => s.author i reply
  | .check i failure => s.check service i failure
  | .preferences i reply => s.preferences i reply
  | .token i reply => s.token service i reply
  | .enqueue i outcome => s.enqueue i outcome
  | .push i result taken => s.push service i result taken
  | .dequeue i outcome => s.dequeue service i outcome
  | .reschedule i outcome => s.reschedule service i outcome
  | .wake i => s.wake i
  | .bury i outcome => s.bury i outcome
  | .mark i outcome => s.mark i outcome
  | .prune dispatchKey => some { s with db := { s.db with
      sent := s.db.sent.filter fun row => decide (row.dispatchKey ≠ dispatchKey) } }

end Notifier
end Indexer
end Linkora
