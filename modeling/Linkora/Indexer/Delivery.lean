import Linkora.Contract.Published
import Linkora.Indexer.Tables

/-!
# Contract events on their way to the tables

The events of the contract reach the domain processor as decoded values, under the names that
its handlers read.  The tables of posts, tips and likes refuse what their columns, their unique
keys and their references do not allow; such an event leaves no trace in them.
-/

namespace Linkora
namespace Indexer

open Contract (Address Bytes GovParameter Event)

/-- How contract values are written as text.  Addresses are written apart from each other. -/
structure Texts where
  address : Address → String
  address_injective : Function.Injective address
  address_ne_empty : ∀ a, address a ≠ ""
  bytes : Bytes → String
  bytes32 : Contract.Bytes32 → String
  parameter : GovParameter → String

/-- What the domain processor reads from an event.  A value that the event lacks is read as the
empty text, and a threshold of zero as one. -/
def EventBody.ofEvent (t : Texts) : Event → EventBody
  | .profileSet user username => .profileSet (t.address user) (t.bytes username) ""
  | .follow follower followee => .follow (t.address follower) (t.address followee)
  | .unfollow follower followee => .unfollow (t.address follower) (t.address followee)
  | .block blocker blocked => .block (t.address blocker) (t.address blocked)
  | .unblock blocker blocked => .unblock (t.address blocker) (t.address blocked)
  | .postCreated id author => .postCreated id (t.address author) ""
  | .tip tipper postId amount fee => .tip (t.address tipper) postId amount fee
  | .poolDeposit _ poolId amount => .poolDeposit poolId amount
  | .poolWithdraw _ poolId amount => .poolWithdraw poolId amount
  | .poolCreated poolId token admins threshold =>
    .poolCreated poolId (t.address token) (admins.map t.address)
      (if threshold = 0 then 1 else threshold)
  | .likePost user postId => .like (t.address user) postId
  | .postDeleted postId _ => .postDeleted postId
  | .profileDeleted user _ => .profileDeleted (t.address user)
  | .poolAdminAdded poolId newAdmin => .poolAdminAdded poolId (t.address newAdmin)
  | .poolAdminRemoved poolId admin => .poolAdminRemoved poolId (t.address admin)
  | .dmKeyPublished user publicKey => .dmKeyPublished (t.address user) (t.bytes32 publicKey)
  | .govProposalCreated proposalId proposer parameter newValue =>
    .govProposalCreated proposalId (t.address proposer) (t.parameter parameter) newValue
  | .govVote proposalId voter support => .govVote proposalId (t.address voter) support
  | .govProposalExecuted proposalId _ _ => .govProposalExecuted proposalId
  | .govProposalVetoed proposalId => .govProposalVetoed proposalId
  | .postRemovedByModeration postId _ => .postRemovedByModeration postId
  | _ => .other

def ingest (t : Texts) (ledger : Nat) (txHash : String) (e : Event) : IngestEvent :=
  ⟨ledger, txHash, .ofEvent t e⟩

/-! ## What the tables refuse -/

/-- The largest value of a `BIGINT` column. -/
def BIGINT_MAX : Int := 2 ^ 63 - 1

namespace PostTables

/-- A like was recorded for the transaction. -/
def LikedIn (s : PostTables) (txHash : String) : Prop :=
  ∃ e ∈ s.likes.entries, e.2.txHash = txHash

instance (s : PostTables) (txHash : String) : Decidable (s.LikedIn txHash) :=
  Multiset.decidableExistsMultiset

/-- Does PostgreSQL refuse what the handler of the event writes?  A tip or a like needs the row
of its post, amounts and counters have to fit their columns, and `likes.tx_hash` is unique. -/
def refuses (s : PostTables) (e : IngestEvent) : Bool :=
  match e.body with
  | .postCreated id _ _ => BIGINT_MAX < id
  | .tip _ postId amount fee =>
    BIGINT_MAX < amount || BIGINT_MAX < fee ||
      (e.txHash ∉ s.tips &&
        (s.posts.lookup postId).all fun post =>
          post.deletedAt = none && BIGINT_MAX < post.tipTotal + amount)
  | .like user postId =>
    (postId, user) ∉ s.likes &&
      (s.LikedIn e.txHash ||
        (s.posts.lookup postId).all fun post =>
          post.deletedAt = none && BIGINT_MAX < (post.likeCount + 1 : Nat))
  | _ => false

end PostTables

namespace Db

/-- One event is processed.  An event without a field, or one that is refused, changes nothing. -/
def deliver (db : Db) (e : IngestEvent) : Db :=
  if db.social.refuses e then db
  else
    match db.processEvent e with
    | .ok db' => db'
    | .error _ => db

/-- The events of one call, in order. -/
def deliverAll (t : Texts) (ledger : Nat) (txHash : String) (db : Db) (es : List Event) : Db :=
  es.foldl (fun db e => db.deliver (ingest t ledger txHash e)) db

variable {db : Db} {e : IngestEvent}

theorem deliver_eq (hrefuses : db.social.refuses e = false) (hmissing : e.body.missing = none) :
    db.deliver e = db.write e := by
  rw [deliver, hrefuses, processEvent, hmissing]
  rfl

theorem deliver_cases (db : Db) (e : IngestEvent) :
    db.deliver e = db ∨ db.deliver e = db.write e := by
  rw [deliver]
  split
  · exact Or.inl rfl
  · rw [processEvent]
    cases e.body.missing with
    | none => exact Or.inr rfl
    | some message => exact Or.inl rfl

/-- An event that follows have nothing to do with. -/
theorem deliver_follows (h : writeFollows db.follows e = db.follows) :
    (db.deliver e).follows = db.follows := by
  rcases deliver_cases db e with hd | hd
  · rw [hd]
  · rw [hd]
    exact h

/-- An event that posts have nothing to do with. -/
theorem deliver_social (h : writePosts db.social e = db.social) :
    (db.deliver e).social = db.social := by
  rcases deliver_cases db e with hd | hd
  · rw [hd]
  · rw [hd]
    exact h

/-- Events that are not social leave follows and posts alone. -/
theorem deliverAll_quiet (t : Texts) (ledger : Nat) (txHash : String) {es : List Event}
    (h : ∀ e ∈ es, e.social = false) (db : Db) :
    (db.deliverAll t ledger txHash es).follows = db.follows ∧
      (db.deliverAll t ledger txHash es).social = db.social := by
  induction es generalizing db with
  | nil => exact ⟨rfl, rfl⟩
  | cons e es ih =>
    obtain ⟨hfollows, hsocial⟩ := ih (fun x hx => h x (List.mem_cons_of_mem e hx))
      (db.deliver (ingest t ledger txHash e))
    have he := h e List.mem_cons_self
    show (deliverAll t ledger txHash (db.deliver (ingest t ledger txHash e)) es).follows = _ ∧
      (deliverAll t ledger txHash (db.deliver (ingest t ledger txHash e)) es).social = _
    rw [hfollows, hsocial]
    refine ⟨deliver_follows ?_, deliver_social ?_⟩
    · cases e with
      | follow | unfollow => cases he
      | _ => rfl
    · cases e with
      | postCreated | tip | likePost | postDeleted | postRemovedByModeration => cases he
      | _ => rfl

theorem deliverAll_append (t : Texts) (ledger : Nat) (txHash : String) (db : Db)
    (es es' : List Event) : db.deliverAll t ledger txHash (es ++ es') =
      (db.deliverAll t ledger txHash es).deliverAll t ledger txHash es' :=
  List.foldl_append

end Db

end Indexer
end Linkora
