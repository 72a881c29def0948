import Linkora.Lib.Table

/-!
# The indexer's tables and the domain processor

Contract events are projected into tables of posts, tips, likes, follows, profiles, pools and
governance.  Each event touches one group of tables.  The handlers of follows, tips, likes,
blocks and keys write through the client of the batch's transaction, the others through the
pool of connections, so that what they write does not depend on the batch being committed.
-/

namespace Linkora
namespace Indexer

/-- A row of `posts`.  The time of a deletion is the ledger given to `to_timestamp`. -/
structure PostRow where
  author : String
  content : String
  tipTotal : Int
  likeCount : Nat
  deletedAt : Option Nat
deriving DecidableEq, Repr

structure TipRow where
  postId : Nat
  tipper : String
  amount : Int
  fee : Int
deriving DecidableEq, Repr

structure LikeRow where
  txHash : String
deriving DecidableEq, Repr

structure ProfileRow where
  username : String
  creatorToken : String
  updatedLedger : Nat
deriving DecidableEq, Repr

structure PoolRow where
  token : String
  balance : Int
  admins : List String
  threshold : Nat
  createdLedger : Nat
  updatedLedger : Nat
deriving DecidableEq, Repr

inductive ProposalStatus where
  | active
  | executed
  | vetoed
deriving DecidableEq, Repr

structure ProposalRow where
  proposer : String
  parameter : String
  newValue : Int
  votesFor : Nat
  votesAgainst : Nat
  status : ProposalStatus
  createdLedger : Nat
  updatedLedger : Nat
deriving DecidableEq, Repr

structure VoteRow where
  support : Bool
  ledger : Nat
deriving DecidableEq, Repr

/-- The tables that a post, a tip and a like are kept in: `posts` by id, `tips` by transaction
hash, `likes` by post and user. -/
structure PostTables where
  posts : Table Nat PostRow
  tips : Table String TipRow
  likes : Table (Nat × String) LikeRow

/-- `governance_proposals` by id, `governance_votes` by proposal and voter. -/
structure GovernanceTables where
  proposals : Table Nat ProposalRow
  votes : Table (Nat × String) VoteRow

/-- The domain tables.  `follows` holds the ledger that `created_at` is made of. -/
structure Db where
  follows : Table (String × String) Nat
  profiles : Table String ProfileRow
  social : PostTables
  pools : Table String PoolRow
  governance : GovernanceTables
  blocks : Table (String × String) Unit
  dmKeys : Table String String

def Db.empty : Db :=
  { follows := ∅, profiles := ∅, social := { posts := ∅, tips := ∅, likes := ∅ }, pools := ∅,
    governance := { proposals := ∅, votes := ∅ }, blocks := ∅, dmKeys := ∅ }

/-- The decoded topic and fields of an event.  Topics without a handler for the modelled tables
(reports among them) are `other`. -/
inductive EventBody where
  | follow (follower followee : String)
  | unfollow (follower followee : String)
  | tip (tipper : String) (postId : Nat) (amount fee : Int)
  | like (user : String) (postId : Nat)
  | govProposalCreated (proposalId : Nat) (proposer parameter : String) (newValue : Int)
  | govVote (proposalId : Nat) (voter : String) (support : Bool)
  | govProposalExecuted (proposalId : Nat)
  | govProposalVetoed (proposalId : Nat)
  | postRemovedByModeration (postId : Nat)
  | block (blocker blocked : String)
  | unblock (blocker blocked : String)
  | dmKeyPublished (user publicKey : String)
  | profileSet (user username creatorToken : String)
  | profileDeleted (user : String)
  | postCreated (id : Nat) (author content : String)
  | postDeleted (postId : Nat)
  | poolCreated (poolId token : String) (admins : List String) (threshold : Nat)
  | poolDeposit (poolId : String) (amount : Int)
  | poolWithdraw (poolId : String) (amount : Int)
  | poolAdminAdded (poolId newAdmin : String)
  | poolAdminRemoved (poolId removedAdmin : String)
  | other
deriving DecidableEq, Repr

structure IngestEvent where
  ledgerSequence : Nat
  txHash : String
  body : EventBody
deriving DecidableEq, Repr

namespace PostTables

/-- `insertPost`: a new post has no tips and no likes. -/
def insertPost (s : PostTables) (id : Nat) (author content : String) : PostTables :=
  let post : PostRow := { author, content, tipTotal := 0, likeCount := 0, deletedAt := none }
  { s with posts := Table.insertNew s.posts id post }

/-- `markPostDeleted`: only a post that is not deleted yet. -/
def markPostDeleted (s : PostTables) (postId ledger : Nat) : PostTables :=
  { s with posts := Table.update s.posts postId fun post =>
      if post.deletedAt = none then { post with deletedAt := some ledger } else post }

/-- `_tipWrites`: the tip is counted when its row is new and the post is not deleted. -/
def handleTip (s : PostTables) (txHash tipper : String) (postId : Nat) (amount fee : Int) :
    PostTables :=
  if txHash ∈ s.tips then
    s
  else
    { s with
      tips := s.tips.insert txHash { postId, tipper, amount, fee }
      posts := Table.update s.posts postId fun post =>
        if post.deletedAt = none then { post with tipTotal := post.tipTotal + amount } else post }

/-- `_likeWrites`. -/
def handleLike (s : PostTables) (txHash user : String) (postId : Nat) : PostTables :=
  if (postId, user) ∈ s.likes then
    s
  else
    { s with
      likes := s.likes.insert (postId, user) { txHash }
      posts := Table.update s.posts postId fun post =>
        if post.deletedAt = none then { post with likeCount := post.likeCount + 1 } else post }

end PostTables

namespace GovernanceTables

/-- `upsertGovernanceProposal`: a proposal that exists keeps its votes and the ledger it was
created in. -/
def upsertProposal (g : GovernanceTables) (proposalId : Nat) (proposer parameter : String)
    (newValue : Int) (ledger : Nat) : GovernanceTables :=
  { g with proposals := g.proposals.insert proposalId <|
      match g.proposals.lookup proposalId with
      | none =>
        { proposer, parameter, newValue, votesFor := 0, votesAgainst := 0, status := .active,
          createdLedger := ledger, updatedLedger := ledger }
      | some row =>
        { row with proposer, parameter, newValue, status := .active, updatedLedger := ledger } }

def updateProposalStatus (g : GovernanceTables) (proposalId : Nat) (status : ProposalStatus)
    (ledger : Nat) : GovernanceTables :=
  { g with proposals := Table.update g.proposals proposalId fun row =>
      { row with status, updatedLedger := ledger } }

/-- `insertGovernanceVote`: the counters grow by the votes that were inserted, and the ledger of
the proposal is updated either way. -/
def insertVote (g : GovernanceTables) (proposalId : Nat) (voter : String) (support : Bool)
    (ledger : Nat) : GovernanceTables :=
  let inserted := if (proposalId, voter) ∈ g.votes then 0 else 1
  { votes := Table.insertNew g.votes (proposalId, voter) { support, ledger }
    proposals := Table.update g.proposals proposalId fun row =>
      { row with
        votesFor := row.votesFor + if support then inserted else 0
        votesAgainst := row.votesAgainst + if support then 0 else inserted
        updatedLedger := ledger } }

end GovernanceTables

/-- `jsonb_agg(DISTINCT …)` over the admins and the new one: sorted, without repetition. -/
def addAdmin (admins : List String) (admin : String) : List String :=
  (admins ++ [admin]).dedup.insertionSort (· ≤ ·)

def removeAdmin (admins : List String) (admin : String) : List String :=
  admins.filter (· ≠ admin)

/-- The checks of the handlers, with the texts of the errors they throw. -/
def EventBody.missing : EventBody → Option String
  | .follow follower followee =>
    if follower = "" then some "Follow event missing required field: follower"
    else if followee = "" then some "Follow event missing required field: followee" else none
  | .unfollow follower followee =>
    if follower = "" then some "Unfollow event missing required field: follower"
    else if followee = "" then some "Unfollow event missing required field: followee" else none
  | .govProposalCreated proposalId proposer parameter _ =>
    if proposalId = 0 then some "GovProposalCreated event missing proposal_id"
    else if proposer = "" then some "GovProposalCreated event missing proposer"
    else if parameter = "" then some "GovProposalCreated event missing parameter" else none
  | .govVote proposalId voter _ =>
    if proposalId = 0 then some "GovVote event missing proposal_id"
    else if voter = "" then some "GovVote event missing voter" else none
  | .govProposalExecuted proposalId =>
    if proposalId = 0 then some "GovProposalExecuted event missing proposal_id" else none
  | .govProposalVetoed proposalId =>
    if proposalId = 0 then some "GovProposalVetoed event missing proposal_id" else none
  | .block blocker blocked =>
    if blocker = "" then some "Block event missing required field: blocker"
    else if blocked = "" then some "Block event missing required field: blocked" else none
  | .unblock blocker blocked =>
    if blocker = "" then some "Unblock event missing required field: blocker"
    else if blocked = "" then some "Unblock event missing required field: blocked" else none
  | .dmKeyPublished user publicKey =>
    if user = "" then some "DmKeyPublished event missing required field: address"
    else if publicKey = "" then
      some "DmKeyPublished event missing required field: x25519_pubkey"
    else none
  | .profileSet user username _ =>
    if user = "" then some "ProfileSet event missing required field: user"
    else if username = "" then some "ProfileSet event missing required field: username" else none
  | .poolCreated poolId token admins threshold =>
    if poolId = "" then some "PoolCreated event missing required field: pool_id"
    else if token = "" then some "PoolCreated event missing required field: token"
    else if admins = [] then some "PoolCreated event must have at least one admin"
    else if threshold < 1 ∨ admins.length < threshold then
      some "PoolCreated event threshold must be between 1 and admins.length"
    else none
  | .poolDeposit poolId amount =>
    if poolId = "" then some "PoolDeposit event missing required field: pool_id"
    else if amount ≤ 0 then some "PoolDeposit event amount must be positive" else none
  | .poolWithdraw poolId amount =>
    if poolId = "" then some "PoolWithdraw event missing required field: pool_id"
    else if amount ≤ 0 then some "PoolWithdraw event amount must be positive" else none
  | .poolAdminAdded poolId newAdmin =>
    if poolId = "" then some "PoolAdminAdded event missing required field: pool_id"
    else if newAdmin = "" then some "PoolAdminAdded event missing required field: new_admin"
    else none
  | .poolAdminRemoved poolId removedAdmin =>
    if poolId = "" then some "PoolAdminRemoved event missing required field: pool_id"
    else if removedAdmin = "" then
      some "PoolAdminRemoved event missing required field: removed_admin"
    else none
  | _ => none

namespace Db

def writeFollows (t : Table (String × String) Nat) (e : IngestEvent) :
    Table (String × String) Nat :=
  match e.body with
  | .follow follower followee => Table.insertNew t (follower, followee) e.ledgerSequence
  | .unfollow follower followee => t.erase (follower, followee)
  | _ => t

def writeProfiles (t : Table String ProfileRow) (e : IngestEvent) : Table String ProfileRow :=
  match e.body with
  | .profileSet user username creatorToken =>
    t.insert user { username, creatorToken, updatedLedger := e.ledgerSequence }
  | .profileDeleted user => t.erase user
  | _ => t

def writePosts (s : PostTables) (e : IngestEvent) : PostTables :=
  match e.body with
  | .postCreated id author content => s.insertPost id author content
  | .postDeleted postId => s.markPostDeleted postId e.ledgerSequence
  | .postRemovedByModeration postId => s.markPostDeleted postId e.ledgerSequence
  | .tip tipper postId amount fee => s.handleTip e.txHash tipper postId amount fee
  | .like user postId => s.handleLike e.txHash user postId
  | _ => s

def writePools (t : Table String PoolRow) (e : IngestEvent) : Table String PoolRow :=
  match e.body with
  | .poolCreated poolId token admins threshold =>
    Table.insertNew t poolId
      { token, balance := 0, admins, threshold, createdLedger := e.ledgerSequence,
        updatedLedger := e.ledgerSequence }
  | .poolDeposit poolId amount => Table.update t poolId fun row =>
      { row with balance := row.balance + amount, updatedLedger := e.ledgerSequence }
  | .poolWithdraw poolId amount => Table.update t poolId fun row =>
      { row with balance := row.balance + -amount, updatedLedger := e.ledgerSequence }
  | .poolAdminAdded poolId newAdmin => Table.update t poolId fun row =>
      { row with admins := addAdmin row.admins newAdmin, updatedLedger := e.ledgerSequence }
  | .poolAdminRemoved poolId removedAdmin => Table.update t poolId fun row =>
      { row with admins := removeAdmin row.admins removedAdmin, updatedLedger := e.ledgerSequence }
  | _ => t

def writeGovernance (g : GovernanceTables) (e : IngestEvent) : GovernanceTables :=
  match e.body with
  | .govProposalCreated proposalId proposer parameter newValue =>
    g.upsertProposal proposalId proposer parameter newValue e.ledgerSequence
  | .govVote proposalId voter support => g.insertVote proposalId voter support e.ledgerSequence
  | .govProposalExecuted proposalId => g.updateProposalStatus proposalId .executed e.ledgerSequence
  | .govProposalVetoed proposalId => g.updateProposalStatus proposalId .vetoed e.ledgerSequence
  | _ => g

def writeBlocks (t : Table (String × String) Unit) (e : IngestEvent) :
    Table (String × String) Unit :=
  match e.body with
  | .block blocker blocked => Table.insertNew t (blocker, blocked) ()
  | .unblock blocker blocked => t.erase (blocker, blocked)
  | _ => t

def writeDmKeys (t : Table String String) (e : IngestEvent) : Table String String :=
  match e.body with
  | .dmKeyPublished user publicKey => t.insert user publicKey
  | _ => t

/-- What the handler of an event writes. -/
def write (db : Db) (e : IngestEvent) : Db :=
  { follows := writeFollows db.follows e
    profiles := writeProfiles db.profiles e
    social := writePosts db.social e
    pools := writePools db.pools e
    governance := writeGovernance db.governance e
    blocks := writeBlocks db.blocks e
    dmKeys := writeDmKeys db.dmKeys e }

/-- `processEvent`: check the fields, then write. -/
def processEvent (db : Db) (e : IngestEvent) : Except String Db :=
  match e.body.missing with
  | some message => .error message
  | none => .ok (db.write e)

end Db

end Indexer
end Linkora
