import Linkora.Lib.Rows
import Linkora.Lib.Run
import Linkora.Lib.Text

/-!
# Direct messages on the phone

`apps/mobile/utils/db.ts` keeps the messages and, for each conversation, the timestamp up to
which it has been synced; `utils/sync.ts` merges what the relay has beyond that timestamp,
and sends through an outbox of local rows.  A call is cut into its steps, between which
other calls and the relay go on.
-/

namespace Linkora
namespace Mobile

inductive SyncStatus where
  | synced
  | pending
  | failed
  deriving DecidableEq

/-- A row of `dm_messages`.  `origin` is not a column: it is the call of
`sendDmMessageWithOutbox` that the message stems from, if it was composed on this device. -/
structure DmMessage where
  id : String
  conversationId : String
  sender : String
  recipient : String
  content : String
  ciphertextHash : String
  timestamp : Int
  syncStatus : SyncStatus
  errorMessage : Option String
  origin : Option Nat
  deriving DecidableEq

structure IncomingDmMessage where
  id : String
  sender : String
  recipient : String
  content : String
  ciphertextHash : String
  timestamp : Int
  origin : Option Nat
  deriving DecidableEq

/-- A message as the relay has it. -/
structure DmSourceMessage where
  id : String
  sender : String
  recipient : String
  content : String
  ciphertextB64 : Option String
  timestamp : Int
  origin : Option Nat
  deriving DecidableEq

/-! ## The database -/

/-- `sync_status IN ('pending', 'failed')` -/
def DmMessage.isOutbox (row : DmMessage) : Bool :=
  row.syncStatus == .pending || row.syncStatus == .failed

def DmMessage.ofIncoming (conversationId : String) (msg : IncomingDmMessage) : DmMessage where
  id := msg.id
  conversationId
  sender := msg.sender
  recipient := msg.recipient
  content := msg.content
  ciphertextHash := msg.ciphertextHash
  timestamp := msg.timestamp
  syncStatus := .synced
  errorMessage := none
  origin := msg.origin

/-- What `ON CONFLICT(id) DO UPDATE` sets. -/
def DmMessage.confirm (msg : IncomingDmMessage) (row : DmMessage) : DmMessage :=
  { row with
    content := msg.content
    ciphertextHash := msg.ciphertextHash
    timestamp := msg.timestamp
    syncStatus := .synced
    errorMessage := none }

/-- The outbox rows that are taken for the merged message. -/
def DmMessage.matches (conversationId : String) (msg : IncomingDmMessage) (row : DmMessage) :
    Bool :=
  row.conversationId == conversationId && row.isOutbox &&
    row.ciphertextHash == msg.ciphertextHash && row.id != msg.id

/-- `mergeDmDeltas` for one message: its two statements. -/
def mergeDelta (conversationId : String) (rows : List DmMessage) (msg : IncomingDmMessage) :
    List DmMessage :=
  (Rows.upsert DmMessage.id rows (.ofIncoming conversationId msg) (DmMessage.confirm msg)).filter
    fun row => !row.matches conversationId msg

/-- The newest timestamp so far. -/
def newer (newest : Option Int) (msg : IncomingDmMessage) : Option Int :=
  match newest with
  | none => some msg.timestamp
  | some t => if t < msg.timestamp then some msg.timestamp else some t

def localId (now random : Nat) : String := "dm_local_" ++ toString now ++ "_" ++ toString random

/-- Fails if the id is taken. -/
def addOutboxDmMessage (rows : List DmMessage)
    (conversationId sender recipient content ciphertextHash : String) (now random origin : Nat) :
    Option (List DmMessage) :=
  Rows.insert DmMessage.id rows
    { id := localId now random
      conversationId
      sender
      recipient
      content
      ciphertextHash
      timestamp := now / 1000
      syncStatus := .pending
      errorMessage := none
      origin := some origin }

def markDmMessageFailed (rows : List DmMessage) (localId errorMessage : String) :
    List DmMessage :=
  Rows.updateAt DmMessage.id rows localId fun row =>
    { row with syncStatus := .failed, errorMessage := some errorMessage }

/-- The `sync_cursor` of each conversation with a row in `dm_sync_state`. -/
abbrev Cursors := String → Option Int

def getDmSyncCursor (cursors : Cursors) (conversationId : String) : Int :=
  (cursors conversationId).getD 0

def setDmSyncCursor (cursors : Cursors) (conversationId : String) (cursor : Int) : Cursors :=
  Function.update cursors conversationId <|
    match cursors conversationId with
    | none => some cursor
    | some old => some (max old cursor)

/-- The cursor is set if there is a newest message. -/
def advanceCursor (cursors : Cursors) (conversationId : String) : Option Int → Cursors
  | none => cursors
  | some newest => setDmSyncCursor cursors conversationId newest

/-! ## Syncing -/

/-- FNV-1a over the code units, in 32 bits. -/
def fnv1a (units : List Nat) : Nat :=
  units.foldl (fun hash unit => (hash ^^^ unit) * 0x01000193 % 2 ^ 32) 0x811c9dc5

def computeCiphertextHash (material : String) : String :=
  let digits := Nat.toDigits 16 (fnv1a (Text.utf16 material))
  String.ofList (List.replicate (8 - digits.length) '0' ++ digits)

def ciphertextHashOf (msg : DmSourceMessage) : String :=
  match msg.ciphertextB64 with
  | some ciphertext =>
    computeCiphertextHash (if 0 < ciphertext.length then ciphertext else msg.content)
  | none => computeCiphertextHash msg.content

def toIncoming (msg : DmSourceMessage) : IncomingDmMessage where
  id := msg.id
  sender := msg.sender
  recipient := msg.recipient
  content := msg.content
  ciphertextHash := ciphertextHashOf msg
  timestamp := msg.timestamp
  origin := msg.origin

/-- Where a call of `reconcileDmThread` stands. -/
inductive Phase where
  /-- It has read the cursor and waits for the relay. -/
  | asked (cursor : Int)
  /-- The relay has returned `all`; of those beyond the cursor, `todo` are still to be merged
  and `newest` is the newest timestamp of the others. -/
  | merging (all todo : List DmSourceMessage) (newest : Option Int)
  deriving DecidableEq

structure Call where
  conversationId : String
  phase : Phase
  deriving DecidableEq

/-- A message that was put into the outbox. -/
structure Send where
  localId : String
  conversationId : String
  sender : String
  recipient : String
  content : String
  deriving DecidableEq

/-- The phone, the relay's messages by conversation, and the calls under way.  `returned` and
`merged` are kept for the statements: what the calls that have ended had fetched, and the
messages that have been merged. -/
structure World where
  rows : List DmMessage
  cursors : Cursors
  relay : List (String × DmSourceMessage)
  calls : Nat → Option Call
  sends : List Send
  returned : List (String × DmSourceMessage)
  merged : List (String × DmSourceMessage)

def World.empty : World := ⟨[], fun _ => none, [], fun _ => none, [], [], []⟩

/-- What the relay has of a conversation. -/
def World.messagesOf (w : World) (conversationId : String) : List DmSourceMessage :=
  (w.relay.filter fun x => x.1 == conversationId).map Prod.snd

def isLocalId (id : String) : Bool := "dm_local_".toList.isPrefixOf id.toList

/-- The relay gives a new message an id that it has not given and that no phone gives, and it
stores at most one message for a send, with what the send passed to it. -/
def World.Accepts (w : World) (conversationId : String) (m : DmSourceMessage) : Prop :=
  isLocalId m.id = false ∧ (∀ x ∈ w.relay, x.2.id ≠ m.id) ∧
    ∀ n ∈ m.origin, (∃ send, w.sends[n]? = some send ∧ send.conversationId = conversationId ∧
      send.sender = m.sender ∧ send.recipient = m.recipient ∧ send.content = m.content) ∧
      ∀ x ∈ w.relay, x.2.origin ≠ some n

inductive Label where
  /-- The relay has a new message. -/
  | arrive (conversationId : String) (m : DmSourceMessage)
  /-- `reconcileDmThread`: the cursor is read. -/
  | ask (k : Nat) (conversationId : String)
  /-- `getMessages` returns what the relay has, in any order. -/
  | fetch (k : Nat) (all : List DmSourceMessage)
  /-- `getMessages` is rejected. -/
  | fetchFails (k : Nat)
  /-- `mergeDmDeltas` gets to the next message. -/
  | merge (k : Nat)
  /-- All are merged: the cursor is set. -/
  | advance (k : Nat)
  /-- `sendDmMessageWithOutbox`, the recipient's key being known: the row is added. -/
  | compose (conversationId sender recipient content : String) (now random : Nat)
  /-- `sendMessage` is rejected, which may be after the relay has stored the message. -/
  | reject (n : Nat) (errorMessage : String)

def World.withCall (w : World) (k : Nat) (c : Option Call) : World :=
  { w with calls := Function.update w.calls k c }

/-- The call returns, having fetched `all`. -/
def World.finish (w : World) (k : Nat) (conversationId : String) (all : List DmSourceMessage) :
    World :=
  { w.withCall k none with returned := w.returned ++ all.map fun m => (conversationId, m) }

/-- The next message of a call is merged. -/
def World.mergeOne (w : World) (conversationId : String) (m : DmSourceMessage) : World :=
  { w with
    rows := mergeDelta conversationId w.rows (toIncoming m)
    merged := if (conversationId, m) ∈ w.merged then w.merged
      else w.merged ++ [(conversationId, m)] }

/-- One step.  A call that finds nothing beyond its cursor returns at once. -/
inductive Step : World → Label → World → Prop where
  | arrive {w : World} {c : String} {m : DmSourceMessage} (h : w.Accepts c m) :
      Step w (.arrive c m) { w with relay := w.relay ++ [(c, m)] }
  | ask {w : World} {k : Nat} {c : String} (h : w.calls k = none) :
      Step w (.ask k c) (w.withCall k (some ⟨c, .asked (getDmSyncCursor w.cursors c)⟩))
  | fetch {w : World} {k : Nat} {c : String} {cursor : Int} {all : List DmSourceMessage}
      (h : w.calls k = some ⟨c, .asked cursor⟩) (hall : all.Perm (w.messagesOf c)) :
      Step w (.fetch k all)
        (if all.filter (cursor < ·.timestamp) = [] then w.finish k c all
        else w.withCall k (some ⟨c, .merging all (all.filter (cursor < ·.timestamp)) none⟩))
  | fetchFails {w : World} {k : Nat} {c : String} {cursor : Int}
      (h : w.calls k = some ⟨c, .asked cursor⟩) :
      Step w (.fetchFails k) (w.withCall k none)
  | merge {w : World} {k : Nat} {c : String} {all todo : List DmSourceMessage}
      {m : DmSourceMessage} {newest : Option Int}
      (h : w.calls k = some ⟨c, .merging all (m :: todo) newest⟩) :
      Step w (.merge k)
        ((w.withCall k (some ⟨c, .merging all todo (newer newest (toIncoming m))⟩)).mergeOne c m)
  | advance {w : World} {k : Nat} {c : String} {all : List DmSourceMessage} {newest : Option Int}
      (h : w.calls k = some ⟨c, .merging all [] newest⟩) :
      Step w (.advance k)
        { w.finish k c all with
          cursors := advanceCursor w.cursors c newest }
  | compose {w : World} {c sender recipient content : String} {now random : Nat}
      {rows : List DmMessage}
      (h : addOutboxDmMessage w.rows c sender recipient content (computeCiphertextHash content) now
        random w.sends.length = some rows) :
      Step w (.compose c sender recipient content now random)
        { w with
          rows
          sends := w.sends ++ [⟨localId now random, c, sender, recipient, content⟩] }
  | reject {w : World} {n : Nat} {send : Send} {errorMessage : String}
      (h : w.sends[n]? = some send) :
      Step w (.reject n errorMessage)
        { w with rows := markDmMessageFailed w.rows send.localId errorMessage }

/-! ## What the table holds -/

theorem DmMessage.ofIncoming_synced (c : String) (msg : IncomingDmMessage) :
    (DmMessage.ofIncoming c msg).isOutbox = false := rfl

theorem DmMessage.confirm_ofIncoming (c : String) (msg : IncomingDmMessage) :
    DmMessage.confirm msg (.ofIncoming c msg) = .ofIncoming c msg := rfl

theorem keyed_mergeDelta {c : String} {rows : List DmMessage} {msg : IncomingDmMessage}
    (h : Rows.Keyed DmMessage.id rows) : Rows.Keyed DmMessage.id (mergeDelta c rows msg) :=
  (h.upsert (f := DmMessage.confirm msg) (fun _ => rfl) (.ofIncoming c msg)).filter _

/-- A merge touches no row with another id, except that it takes outbox rows away. -/
theorem mem_mergeDelta_of_ne {c : String} {rows : List DmMessage} {msg : IncomingDmMessage}
    {row : DmMessage} (hrow : row ∈ rows) (hid : row.id ≠ msg.id)
    (hmatch : row.matches c msg = false) : row ∈ mergeDelta c rows msg := by
  refine List.mem_filter.mpr ⟨Rows.mem_upsert_of_ne hrow hid, ?_⟩
  rw [hmatch]
  rfl

theorem mem_mergeDelta_self {c : String} {rows : List DmMessage} {msg : IncomingDmMessage}
    (hold : ∀ row ∈ rows, row.id = msg.id → row = .ofIncoming c msg) :
    DmMessage.ofIncoming c msg ∈ mergeDelta c rows msg := by
  refine List.mem_filter.mpr ⟨Rows.mem_upsert (fun _ => rfl) fun row hrow hid => ?_, ?_⟩
  · rw [hold row hrow hid, DmMessage.confirm_ofIncoming]
  · simp [DmMessage.matches, DmMessage.ofIncoming_synced]

theorem of_mem_mergeDelta {c : String} {rows : List DmMessage} {msg : IncomingDmMessage}
    {row : DmMessage} (hold : ∀ row ∈ rows, row.id = msg.id → row = .ofIncoming c msg)
    (hrow : row ∈ mergeDelta c rows msg) :
    row = .ofIncoming c msg ∨ (row ∈ rows ∧ row.matches c msg = false) := by
  obtain ⟨hrow, hkept⟩ := List.mem_filter.mp hrow
  rcases Rows.of_mem_upsert hrow with ⟨rfl, _⟩ | ⟨y, hy, hid, rfl⟩ | ⟨hrow, _⟩
  · exact Or.inl rfl
  · rw [hold y hy hid, DmMessage.confirm_ofIncoming]
    exact Or.inl rfl
  · refine Or.inr ⟨hrow, ?_⟩
    simpa using hkept

theorem isLocalId_localId (now random : Nat) : isLocalId (localId now random) = true := by
  rw [isLocalId, localId, List.isPrefixOf_iff_prefix, String.toList_append, String.toList_append,
    String.toList_append, List.append_assoc, List.append_assoc]
  exact List.prefix_append _ _

theorem World.mem_messagesOf {w : World} {c : String} {m : DmSourceMessage} :
    m ∈ w.messagesOf c ↔ (c, m) ∈ w.relay := by
  rw [World.messagesOf, List.mem_map]
  constructor
  · rintro ⟨⟨d, _⟩, hx, rfl⟩
    obtain ⟨hx, hd⟩ := List.mem_filter.mp hx
    have hdc : d = c := by simpa using hd
    rw [← hdc]
    exact hx
  · intro h
    exact ⟨(c, m), List.mem_filter.mpr ⟨h, by simp⟩, rfl⟩

theorem World.mem_mergeOne_merged {w : World} {c : String} {m : DmSourceMessage}
    {x : String × DmSourceMessage} :
    x ∈ (w.mergeOne c m).merged ↔ x ∈ w.merged ∨ x = (c, m) := by
  show x ∈ (if (c, m) ∈ w.merged then w.merged else w.merged ++ [(c, m)]) ↔ _
  split
  · rename_i hin
    exact ⟨Or.inl, fun hx => hx.elim id fun heq => heq ▸ hin⟩
  · rw [List.mem_append, List.mem_singleton]

/-- The rows are the outbox and the messages that have been merged. -/
structure World.Sound (w : World) : Prop where
  relayIds : (w.relay.map (·.2.id)).Nodup
  relayIds_notLocal : ∀ x ∈ w.relay, isLocalId x.2.id = false
  sends_local : ∀ send ∈ w.sends, isLocalId send.localId = true
  fetched : ∀ k c all todo newest, w.calls k = some ⟨c, .merging all todo newest⟩ →
    (∀ m ∈ all, (c, m) ∈ w.relay) ∧ todo ⊆ all
  keyed : Rows.Keyed DmMessage.id w.rows
  outbox : ∀ row ∈ w.rows, row.isOutbox = true → isLocalId row.id = true ∧
    ∃ n send, row.origin = some n ∧ w.sends[n]? = some send ∧
      send.conversationId = row.conversationId ∧ send.sender = row.sender
  synced : ∀ row ∈ w.rows, row.isOutbox = false →
    ∃ x ∈ w.merged, row = .ofIncoming x.1 (toIncoming x.2)
  merged_relay : ∀ x ∈ w.merged, x ∈ w.relay
  merged_nodup : w.merged.Nodup
  merged_stored : ∀ x ∈ w.merged, DmMessage.ofIncoming x.1 (toIncoming x.2) ∈ w.rows

namespace World
namespace Sound

variable {w w' : World} {l : Label}

theorem empty : World.empty.Sound where
  relayIds := List.nodup_nil
  relayIds_notLocal := List.forall_mem_nil _
  sends_local := List.forall_mem_nil _
  fetched := nofun
  keyed := Rows.Keyed.nil
  outbox := List.forall_mem_nil _
  synced := List.forall_mem_nil _
  merged_relay := List.forall_mem_nil _
  merged_nodup := List.nodup_nil
  merged_stored := List.forall_mem_nil _

theorem eq_of_id (h : w.Sound) {x y : String × DmSourceMessage} (hx : x ∈ w.relay)
    (hy : y ∈ w.relay) (hid : x.2.id = y.2.id) : x = y :=
  List.inj_on_of_nodup_map h.relayIds hx hy hid

/-- A row with the id of a relay message is that message, merged. -/
theorem row_of_id (h : w.Sound) {c : String} {m : DmSourceMessage} (hm : (c, m) ∈ w.relay)
    {row : DmMessage} (hrow : row ∈ w.rows) (hid : row.id = m.id) :
    (c, m) ∈ w.merged ∧ row = .ofIncoming c (toIncoming m) := by
  cases hout : row.isOutbox with
  | true =>
    have hlocal := (h.outbox row hrow hout).1
    rw [hid, h.relayIds_notLocal _ hm] at hlocal
    cases hlocal
  | false =>
    obtain ⟨x, hx, rfl⟩ := h.synced row hrow hout
    obtain rfl := h.eq_of_id (h.merged_relay x hx) hm hid
    exact ⟨hx, rfl⟩

theorem withCall (h : w.Sound) (k : Nat) (call : Option Call)
    (hcall : ∀ c all todo newest, call = some ⟨c, .merging all todo newest⟩ →
      (∀ m ∈ all, (c, m) ∈ w.relay) ∧ todo ⊆ all) : (w.withCall k call).Sound where
  relayIds := h.relayIds
  relayIds_notLocal := h.relayIds_notLocal
  sends_local := h.sends_local
  fetched := by
    intro j c all todo newest hj
    show (∀ m ∈ all, (c, m) ∈ w.relay) ∧ todo ⊆ all
    by_cases hjk : j = k
    · subst hjk
      have hj' : Function.update w.calls j call j = _ := hj
      rw [Function.update_self] at hj'
      exact hcall c all todo newest hj'
    · have hj' : Function.update w.calls k call j = _ := hj
      rw [Function.update_of_ne hjk] at hj'
      exact h.fetched j c all todo newest hj'
  keyed := h.keyed
  outbox := h.outbox
  synced := h.synced
  merged_relay := h.merged_relay
  merged_nodup := h.merged_nodup
  merged_stored := h.merged_stored

/-- The cursors and the log of returned calls are not read. -/
theorem congr (h : w.Sound) (cursors : Cursors) (returned : List (String × DmSourceMessage)) :
    World.Sound { w with cursors, returned } where
  relayIds := h.relayIds
  relayIds_notLocal := h.relayIds_notLocal
  sends_local := h.sends_local
  fetched := h.fetched
  keyed := h.keyed
  outbox := h.outbox
  synced := h.synced
  merged_relay := h.merged_relay
  merged_nodup := h.merged_nodup
  merged_stored := h.merged_stored

theorem arrive (h : w.Sound) {c : String} {m : DmSourceMessage} (hacc : w.Accepts c m) :
    World.Sound { w with relay := w.relay ++ [(c, m)] } where
  relayIds := by
    rw [List.map_append, List.map_singleton, ← List.concat_eq_append]
    refine List.Nodup.concat (fun hmem => ?_) h.relayIds
    obtain ⟨x, hx, hid⟩ := List.mem_map.mp hmem
    exact hacc.2.1 x hx hid
  relayIds_notLocal := by
    intro x hx
    rcases List.mem_append.mp hx with hx | hx
    · exact h.relayIds_notLocal x hx
    · rw [List.mem_singleton.mp hx]
      exact hacc.1
  sends_local := h.sends_local
  fetched := by
    intro k c all todo newest hk
    have hold := h.fetched k c all todo newest hk
    exact ⟨fun m hm => List.mem_append_left _ (hold.1 m hm), hold.2⟩
  keyed := h.keyed
  outbox := h.outbox
  synced := h.synced
  merged_relay := fun x hx => List.mem_append_left _ (h.merged_relay x hx)
  merged_nodup := h.merged_nodup
  merged_stored := h.merged_stored

theorem mergeOne (h : w.Sound) {c : String} {m : DmSourceMessage} (hm : (c, m) ∈ w.relay) :
    (w.mergeOne c m).Sound := by
  have hold : ∀ row ∈ w.rows, row.id = (toIncoming m).id → row = .ofIncoming c (toIncoming m) :=
    fun row hrow hid => (h.row_of_id hm hrow hid).2
  constructor
  case relayIds => exact h.relayIds
  case relayIds_notLocal => exact h.relayIds_notLocal
  case sends_local => exact h.sends_local
  case fetched => exact h.fetched
  case keyed => exact keyed_mergeDelta h.keyed
  case outbox =>
    intro row hrow hout
    rcases of_mem_mergeDelta hold hrow with rfl | ⟨hrow, _⟩
    · cases hout
    · exact h.outbox row hrow hout
  case synced =>
    intro row hrow hout
    rcases of_mem_mergeDelta hold hrow with rfl | ⟨hrow, _⟩
    · exact ⟨(c, m), mem_mergeOne_merged.mpr (Or.inr rfl), rfl⟩
    · obtain ⟨x, hx, hrow⟩ := h.synced row hrow hout
      exact ⟨x, mem_mergeOne_merged.mpr (Or.inl hx), hrow⟩
  case merged_relay =>
    intro x hx
    rcases mem_mergeOne_merged.mp hx with hx | rfl
    · exact h.merged_relay x hx
    · exact hm
  case merged_nodup =>
    show (if (c, m) ∈ w.merged then w.merged else w.merged ++ [(c, m)]).Nodup
    split
    · exact h.merged_nodup
    · rename_i hnew
      rw [← List.concat_eq_append]
      exact List.Nodup.concat hnew h.merged_nodup
  case merged_stored =>
    intro x hx
    by_cases hxm : x = (c, m)
    · rw [hxm]
      exact mem_mergeDelta_self hold
    · have hx := (mem_mergeOne_merged.mp hx).resolve_right hxm
      refine mem_mergeDelta_of_ne (h.merged_stored x hx) (fun hid => hxm ?_) ?_
      · exact h.eq_of_id (h.merged_relay x hx) hm hid
      · simp [DmMessage.matches, DmMessage.ofIncoming_synced]

theorem compose (h : w.Sound) {c sender recipient content hash : String} {now random : Nat}
    {rows : List DmMessage}
    (hadd : addOutboxDmMessage w.rows c sender recipient content hash now random
      w.sends.length = some rows) :
    World.Sound { w with
      rows
      sends := w.sends ++ [⟨localId now random, c, sender, recipient, content⟩] } := by
  obtain ⟨hnew, rfl⟩ := Rows.insert_eq_some.mp hadd
  constructor
  case relayIds => exact h.relayIds
  case relayIds_notLocal => exact h.relayIds_notLocal
  case sends_local =>
    intro send hsend
    rcases List.mem_append.mp hsend with hsend | hsend
    · exact h.sends_local send hsend
    · rw [List.mem_singleton.mp hsend]
      exact isLocalId_localId now random
  case fetched => exact h.fetched
  case keyed => exact h.keyed.append hnew
  case outbox =>
    intro row hrow hout
    rcases List.mem_append.mp hrow with hrow | hrow
    · obtain ⟨hlocal, n, send, hn, hsend, hof⟩ := h.outbox row hrow hout
      refine ⟨hlocal, n, send, hn, ?_, hof⟩
      show (w.sends ++ _)[n]? = some send
      rw [List.getElem?_append_left (List.getElem?_eq_some_iff.mp hsend).1]
      exact hsend
    · obtain rfl := List.mem_singleton.mp hrow
      refine ⟨isLocalId_localId now random, w.sends.length,
        ⟨localId now random, c, sender, recipient, content⟩, rfl, ?_, rfl, rfl⟩
      exact List.getElem?_concat_length
  case synced =>
    intro row hrow hout
    rcases List.mem_append.mp hrow with hrow | hrow
    · exact h.synced row hrow hout
    · rw [List.mem_singleton.mp hrow] at hout
      cases hout
  case merged_relay => exact h.merged_relay
  case merged_nodup => exact h.merged_nodup
  case merged_stored => exact fun x hx => List.mem_append_left _ (h.merged_stored x hx)

theorem isOutbox_of_localId (h : w.Sound) {send : Send} (hsend : send ∈ w.sends)
    {row : DmMessage} (hrow : row ∈ w.rows) (hid : row.id = send.localId) :
    row.isOutbox = true := by
  by_contra hout
  obtain ⟨x, hx, rfl⟩ := h.synced row hrow (by simpa using hout)
  have hlocal := h.sends_local send hsend
  rw [← hid] at hlocal
  have hnot := h.relayIds_notLocal x (h.merged_relay x hx)
  exact Bool.false_ne_true (hnot.symm.trans hlocal)

theorem reject (h : w.Sound) {send : Send} (hsend : send ∈ w.sends) (errorMessage : String) :
    World.Sound { w with rows := markDmMessageFailed w.rows send.localId errorMessage } := by
  -- The row with the local id, if there is one, is in the outbox and stays there.
  have hrow_of : ∀ row ∈ markDmMessageFailed w.rows send.localId errorMessage,
      row ∈ w.rows ∨ ∃ y ∈ w.rows, y.id = send.localId ∧
        row = { y with syncStatus := .failed, errorMessage := some errorMessage } := by
    intro row hrow
    obtain ⟨y, hy, rfl⟩ := Rows.mem_updateAt.mp hrow
    split
    · rename_i hid
      exact Or.inr ⟨y, hy, hid, rfl⟩
    · exact Or.inl hy
  constructor
  case relayIds => exact h.relayIds
  case relayIds_notLocal => exact h.relayIds_notLocal
  case sends_local => exact h.sends_local
  case fetched => exact h.fetched
  case keyed =>
    exact h.keyed.updateAt (f := fun row =>
      { row with syncStatus := .failed, errorMessage := some errorMessage }) (fun _ => rfl) _
  case outbox =>
    intro row hrow hout
    rcases hrow_of row hrow with hrow | ⟨y, hy, hid, rfl⟩
    · exact h.outbox row hrow hout
    · exact h.outbox y hy (h.isOutbox_of_localId hsend hy hid)
  case synced =>
    intro row hrow hout
    rcases hrow_of row hrow with hrow | ⟨y, hy, hid, rfl⟩
    · exact h.synced row hrow hout
    · cases hout
  case merged_relay => exact h.merged_relay
  case merged_nodup => exact h.merged_nodup
  case merged_stored =>
    intro x hx
    have hstored := h.merged_stored x hx
    refine Rows.mem_updateAt.mpr ⟨_, hstored, ?_⟩
    rw [if_neg]
    intro hid
    cases h.isOutbox_of_localId hsend hstored hid

theorem step (h : w.Sound) (hl : Step w l w') : w'.Sound := by
  cases hl with
  | arrive hacc => exact h.arrive hacc
  | ask hk => exact h.withCall _ _ nofun
  | @fetch k c cursor all hk hall =>
    have hrelay : ∀ m ∈ all, (c, m) ∈ w.relay := fun m hm => mem_messagesOf.mp (hall.mem_iff.mp hm)
    split
    · exact (h.withCall k none nofun).congr _ _
    · refine h.withCall k _ fun d all' todo newest heq => ?_
      cases heq
      exact ⟨hrelay, List.filter_subset_self _⟩
  | fetchFails hk => exact h.withCall _ _ nofun
  | @merge k c all todo m newest hk =>
    obtain ⟨hrelay, htodo⟩ := h.fetched k c all (m :: todo) newest hk
    have hm : (c, m) ∈ w.relay := hrelay m (htodo (List.mem_cons_self))
    refine (h.withCall k _ fun d all' todo' newest' heq => ?_).mergeOne hm
    cases heq
    exact ⟨hrelay, fun y hy => htodo (List.mem_cons_of_mem _ hy)⟩
  | @advance k c all newest hk => exact (h.withCall k none nofun).congr _ _
  | compose hadd => exact h.compose hadd
  | reject hn => exact h.reject (List.mem_of_getElem? hn) _

theorem of_run {ls : List Label} (h : Run Step World.empty ls w) : w.Sound :=
  h.invariant (fun _ _ _ hi hl => hi.step hl) empty

end Sound
end World

end Mobile
end Linkora
