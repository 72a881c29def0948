import Linkora.Indexer.Posts
import Linkora.Indexer.Proposals

/-!
# The ingest pipeline

A batch is projected in one transaction.  Handlers that are given the transaction's client write
inside it; handlers that are given the pool of connections write at once, and a rollback leaves
what they have written.  Batches that fail are delivered again, and so are ranges of ledgers
that have been committed.
-/

namespace Linkora
namespace Indexer

open Linkora.Replay

/-- A transaction in progress: the tables as a rollback leaves them, and as the transaction sees
them and a commit leaves them. -/
structure Session where
  durable : Db
  seen : Db

/-- Run the domain processor on an event. -/
def Session.handle (s : Session) (e : IngestEvent) : Except String Session :=
  match s.seen.processEvent e with
  | .error message => .error message
  | .ok seen =>
    .ok { durable := if e.body.viaPool then s.durable.write e else s.durable, seen }

/-- Step (2) of `processBatchOnce`: event by event, until one throws. -/
def Session.project (s : Session) : List IngestEvent → Session × Bool
  | [] => (s, true)
  | e :: rest =>
    match s.handle e with
    | .error _ => (s, false)
    | .ok s' => s'.project rest

/-- Where an attempt fails though no event is at fault: when the handlers of `k` events have run
and before the commit, or after the commit, in what `onCommit` does. -/
inductive Fault where
  | handled (k : Nat)
  | onCommit

/-- `processBatchOnce`: the tables it leaves, and whether it returns. -/
def processBatchOnce (db : Db) (events : List IngestEvent) : Option Fault → Db × Bool
  | none =>
    match Session.project { durable := db, seen := db } events with
    | (s, true) => (s.seen, true)
    | (s, false) => (s.durable, false)
  | some (.handled k) => ((Session.project { durable := db, seen := db } (events.take k)).1.durable,
      false)
  | some .onCommit =>
    match Session.project { durable := db, seen := db } events with
    | (s, true) => (s.seen, false)
    | (s, false) => (s.durable, false)

/-- A batch with the attempts that fail before the one that succeeds. -/
structure Batch where
  events : List IngestEvent
  faults : List Fault

def Batch.attempt (b : Batch) (db : Db) (fault : Fault) : Db :=
  (processBatchOnce db b.events (some fault)).1

def deliverBatch (db : Db) (b : Batch) : Db :=
  (processBatchOnce (b.faults.foldl b.attempt db) b.events none).1

/-- The tables when each event is delivered once, in order. -/
def deliveredOnce (history : List IngestEvent) : Db := history.foldl Db.write Db.empty

def WellFormed (t : List IngestEvent) : Prop := ∀ e ∈ t, e.body.missing = none

instance : DecidablePred WellFormed := fun t => inferInstanceAs (Decidable (∀ e ∈ t, _))

def NoTransfer (t : List IngestEvent) : Prop := ∀ e ∈ t, e.body.isTransfer = false

instance : DecidablePred NoTransfer := fun t => inferInstanceAs (Decidable (∀ e ∈ t, _))

/-- A failed attempt that does no harm to the one that follows. -/
def Fault.Harmless (events : List IngestEvent) : Fault → Prop
  | .handled k => NoTransfer (events.take k) ∧ NoLateDeletion (events.take k)
  | .onCommit => NoTransfer events

namespace Db

theorem foldl_write (t : List IngestEvent) (db : Db) :
    t.foldl write db =
      { follows := t.foldl writeFollows db.follows
        profiles := t.foldl writeProfiles db.profiles
        social := t.foldl writePosts db.social
        pools := t.foldl writePools db.pools
        governance := t.foldl writeGovernance db.governance
        blocks := t.foldl writeBlocks db.blocks
        dmKeys := t.foldl writeDmKeys db.dmKeys } := by
  induction t generalizing db with
  | nil => rfl
  | cons e rest ih =>
    rw [List.foldl_cons, ih]
    rfl

/-- Events that are delivered again find their work done. -/
theorem write_idem {t : List IngestEvent} (hchain : ChainOrder t) (htransfer : NoTransfer t)
    (db : Db) : t.foldl write (t.foldl write db) = t.foldl write db := by
  simp only [foldl_write]
  rw [follows_idem, profiles_idem, social_idem hchain, pools_idem hchain htransfer,
    governance_idem, blocks_idem, dmKeys_idem]

theorem foldl_viaPool {σ : Type} {f : σ → IngestEvent → σ}
    (h : ∀ s e, e.body.viaPool = true → f s e = s) (t : List IngestEvent) (s : σ) :
    (t.filter (·.body.viaPool)).foldl f s = s :=
  foldl_of_fixed fun e he => h s e (List.mem_filter.mp he).2

theorem foldl_ofPool {σ : Type} {f : σ → IngestEvent → σ}
    (h : ∀ s e, e.body.viaPool = false → f s e = s) (t : List IngestEvent) (s : σ) :
    (t.filter (·.body.viaPool)).foldl f s = t.foldl f s :=
  foldl_filter_of_inert h t s

theorem writeFollows_of_viaPool (s : Table (String × String) Nat) (e : IngestEvent)
    (h : e.body.viaPool = true) : writeFollows s e = s := by
  obtain ⟨ledger, tx, body⟩ := e
  cases body with
  | follow follower followee => exact Bool.noConfusion h
  | unfollow follower followee => exact Bool.noConfusion h
  | _ => rfl

theorem writeBlocks_of_viaPool (s : Table (String × String) Unit) (e : IngestEvent)
    (h : e.body.viaPool = true) : writeBlocks s e = s := by
  obtain ⟨ledger, tx, body⟩ := e
  cases body with
  | block blocker blocked => exact Bool.noConfusion h
  | unblock blocker blocked => exact Bool.noConfusion h
  | _ => rfl

theorem writeDmKeys_of_viaPool (s : Table String String) (e : IngestEvent)
    (h : e.body.viaPool = true) : writeDmKeys s e = s := by
  obtain ⟨ledger, tx, body⟩ := e
  cases body with
  | dmKeyPublished user publicKey => exact Bool.noConfusion h
  | _ => rfl

theorem write_of_client (e : IngestEvent) (h : e.body.viaPool = false) :
    (∀ s, writeProfiles s e = s) ∧ (∀ s, writePools s e = s) ∧ ∀ s, writeGovernance s e = s := by
  obtain ⟨ledger, tx, body⟩ := e
  cases body with
  | follow follower followee => exact ⟨fun _ => rfl, fun _ => rfl, fun _ => rfl⟩
  | unfollow follower followee => exact ⟨fun _ => rfl, fun _ => rfl, fun _ => rfl⟩
  | tip tipper postId amount fee => exact ⟨fun _ => rfl, fun _ => rfl, fun _ => rfl⟩
  | like user postId => exact ⟨fun _ => rfl, fun _ => rfl, fun _ => rfl⟩
  | block blocker blocked => exact ⟨fun _ => rfl, fun _ => rfl, fun _ => rfl⟩
  | unblock blocker blocked => exact ⟨fun _ => rfl, fun _ => rfl, fun _ => rfl⟩
  | dmKeyPublished user publicKey => exact ⟨fun _ => rfl, fun _ => rfl, fun _ => rfl⟩
  | other => exact ⟨fun _ => rfl, fun _ => rfl, fun _ => rfl⟩
  | _ => exact Bool.noConfusion h

/-- A pass resumes from what a failed attempt has written through the pool. -/
theorem write_resume {u : List IngestEvent} (hchain : ChainOrder u) (hlate : NoLateDeletion u)
    (htransfer : NoTransfer u) (db : Db) :
    u.foldl write ((u.filter (·.body.viaPool)).foldl write db) = u.foldl write db := by
  simp only [foldl_write]
  rw [foldl_viaPool writeFollows_of_viaPool, foldl_viaPool writeBlocks_of_viaPool,
    foldl_viaPool writeDmKeys_of_viaPool, social_resume hchain hlate,
    foldl_ofPool fun s e h => (write_of_client e h).1 s,
    foldl_ofPool fun s e h => (write_of_client e h).2.1 s,
    foldl_ofPool fun s e h => (write_of_client e h).2.2 s,
    profiles_idem, pools_idem hchain htransfer, governance_idem]

end Db

/-! ## Batches -/

theorem handle_of_wellFormed {e : IngestEvent} (h : e.body.missing = none) (s : Session) :
    s.handle e =
      .ok ⟨if e.body.viaPool then s.durable.write e else s.durable, s.seen.write e⟩ := by
  rw [Session.handle, Db.processEvent, h]

theorem project_of_wellFormed {t : List IngestEvent} (h : WellFormed t) (s : Session) :
    s.project t = (⟨(t.filter (·.body.viaPool)).foldl Db.write s.durable,
      t.foldl Db.write s.seen⟩, true) := by
  induction t generalizing s with
  | nil => rfl
  | cons e rest ih =>
    rw [Session.project, handle_of_wellFormed (h e List.mem_cons_self)]
    show Session.project _ rest = _
    rw [ih fun x hx => h x (List.mem_cons_of_mem e hx), List.filter_cons]
    by_cases hpool : e.body.viaPool = true
    · rw [if_pos hpool, if_pos hpool]
      rfl
    · rw [if_neg hpool, if_neg hpool]
      rfl

theorem commit_of_wellFormed {events : List IngestEvent} (h : WellFormed events) (db : Db) :
    processBatchOnce db events none = (events.foldl Db.write db, true) := by
  rw [processBatchOnce, project_of_wellFormed h]

section

variable {b : Batch} (hwf : WellFormed b.events)

include hwf

theorem commit_attempt (hchain : ChainOrder b.events) {fault : Fault}
    (hfault : fault.Harmless b.events) (db : Db) :
    b.events.foldl Db.write (b.attempt db fault) = b.events.foldl Db.write db := by
  cases fault with
  | handled k =>
    have hsplit : b.events.take k ++ b.events.drop k = b.events := List.take_append_drop k b.events
    have hwf' : WellFormed (b.events.take k) := fun e he => hwf e (List.mem_of_mem_take he)
    have hchain' : ChainOrder (b.events.take k) := ChainOrder.left (by rwa [hsplit])
    have hattempt : b.attempt db (.handled k) =
        ((b.events.take k).filter (·.body.viaPool)).foldl Db.write db := by
      rw [Batch.attempt, processBatchOnce, project_of_wellFormed hwf']
    calc
      b.events.foldl Db.write (b.attempt db (.handled k))
        = (b.events.take k ++ b.events.drop k).foldl Db.write (b.attempt db (.handled k)) := by
          rw [hsplit]
      _ = (b.events.drop k).foldl Db.write ((b.events.take k).foldl Db.write db) := by
          rw [List.foldl_append, hattempt, Db.write_resume hchain' hfault.2 hfault.1]
      _ = b.events.foldl Db.write db := by rw [← List.foldl_append, hsplit]
  | onCommit =>
    have hattempt : b.attempt db .onCommit = b.events.foldl Db.write db := by
      rw [Batch.attempt, processBatchOnce, project_of_wellFormed hwf]
    rw [hattempt, Db.write_idem hchain hfault]

/-- A batch that is delivered until it is committed leaves what one delivery leaves. -/
theorem deliverBatch_eq (hchain : ChainOrder b.events)
    (hfaults : ∀ fault ∈ b.faults, fault.Harmless b.events) (db : Db) :
    deliverBatch db b = b.events.foldl Db.write db := by
  rw [deliverBatch, commit_of_wellFormed hwf]
  exact foldl_invariant
    (P := fun db' => b.events.foldl Db.write db' = b.events.foldl Db.write db)
    (fun db' fault hf h => (commit_attempt hwf hchain (hfaults fault hf) db').trans h) rfl

end

theorem deliver_eq {batches : List Batch} {t : List IngestEvent}
    (hbatches : (batches.map Batch.events).flatten = t) (hwf : WellFormed t) (hchain : ChainOrder t)
    (hfaults : ∀ b ∈ batches, ∀ fault ∈ b.faults, fault.Harmless b.events) (db : Db) :
    batches.foldl deliverBatch db = t.foldl Db.write db := by
  induction batches generalizing t db with
  | nil =>
    rw [← hbatches]
    rfl
  | cons b rest ih =>
    rw [List.map_cons, List.flatten_cons] at hbatches
    rw [← hbatches] at hwf hchain ⊢
    rw [List.foldl_cons, List.foldl_append,
      deliverBatch_eq (fun e he => hwf e (List.mem_append_left _ he)) hchain.left
        (hfaults b List.mem_cons_self)]
    exact ih rfl (fun e he => hwf e (List.mem_append_right _ he)) hchain.right
      (fun b' hb => hfaults b' (List.mem_cons_of_mem b hb)) _

end Indexer
end Linkora
