import Linkora.Contract.Validation

/-!
# The follow graph

The adjacency-set social graph: an `Edge` entry per follow, and on either side an
index of the neighbours with their positions and their number.  The functions
that edit several key families at once act on `Graph` alone; the entry points
add their checks and the event.
-/

namespace Linkora
namespace Contract

namespace Graph

/-- Write the edge and append it to both indexes, as `follow` and
`migrate_follow_graph` do. -/
def addEdge (g : Graph) (follower followee : Address) : Except Panic Graph := do
  let _ ← u32 (g.following.size follower + 1)
  let _ ← u32 (g.followers.size followee + 1)
  return { g with
    edge := g.edge.set (follower, followee) true
    following := g.following.append follower followee
    followers := g.followers.append followee follower }

def swapPanic : SwapError → Panic
  | .positionMissing => .message "position entry missing for swap-remove"
  | .entryMissing => .message "index entry missing"

def swapRemoveFromIndex (g : Graph) (owner target : Address) (isFollowing : Bool) :
    Except Panic Graph :=
  if isFollowing then
    ((g.following.swapRemove owner target).mapError swapPanic).map
      fun ix => { g with following := ix }
  else
    ((g.followers.swapRemove owner target).mapError swapPanic).map
      fun ix => { g with followers := ix }

/-- Delete the edge and swap-remove it from both indexes. -/
def removeEdge (g : Graph) (follower followee : Address) : Except Panic Graph := do
  let g : Graph := { g with edge := g.edge.remove (follower, followee) }
  let g ← swapRemoveFromIndex g follower followee true
  swapRemoveFromIndex g followee follower false

/-- `removeEdge` where there is an edge. -/
def unlink (g : Graph) (follower followee : Address) : Except Panic Graph :=
  if g.edge.has (follower, followee) then removeEdge g follower followee else .ok g

/-- `addEdge` where there is no edge yet. -/
def link (g : Graph) (follower followee : Address) : Except Panic Graph :=
  if g.edge.has (follower, followee) then .ok g else addEdge g follower followee

def cleanupFollowOnBlock (g : Graph) (userA userB : Address) : Except Panic Graph := do
  let g ← unlink g userA userB
  unlink g userB userA

/-! ## Migration of the legacy lists -/

def migrateFollowingList (g : Graph) (user : Address) : Except Panic Graph :=
  match g.legacyFollowing.get user with
  | some followingList => do
    let g ← followingList.foldlM (fun g followee => link g user followee) g
    return { g with legacyFollowing := g.legacyFollowing.remove user }
  | none => .ok g

def migrateFollowersList (g : Graph) (user : Address) : Except Panic Graph :=
  match g.legacyFollowers.get user with
  | some followersList => do
    let g ← followersList.foldlM (fun g follower => link g follower user) g
    return { g with legacyFollowers := g.legacyFollowers.remove user }
  | none => .ok g

def migrateUser (g : Graph) (user : Address) : Except Panic Graph :=
  if g.graphMigrated.has user then .ok g
  else do
    let g ← migrateFollowingList g user
    let g ← migrateFollowersList g user
    return { g with graphMigrated := g.graphMigrated.set user true }

/-! ## Cleanup of a deleted user's edges

The loops of `batch_cleanup_profile` edit the deleted user's own side by hand,
against a count they hold in a local variable, and the other side by
swap-remove.  The count is written back after the loop. -/

/-- Drop the edge of a listed follower, as far as it lies outside the slot that
lists it. -/
def detachFollower (g : Graph) (user : Address) : Option Address → Except Panic Graph
  | some follower =>
    swapRemoveFromIndex
      { g with
        edge := g.edge.remove (follower, user)
        followers := { g.followers with pos := g.followers.pos.remove (user, follower) } }
      follower user true
  | none => .ok g

def detachFollowee (g : Graph) (user : Address) : Option Address → Except Panic Graph
  | some followee =>
    swapRemoveFromIndex
      { g with
        edge := g.edge.remove (user, followee)
        following := { g.following with pos := g.following.pos.remove (user, followee) } }
      followee user false
  | none => .ok g

def cleanupFollower (user : Address) (count : Nat) (g : Graph) : Except Panic Graph := do
  let g ← detachFollower g user (g.followers.idx.get (user, count))
  return { g with followers := { g.followers with idx := g.followers.idx.remove (user, count) } }

def cleanupFollowing (user : Address) (count : Nat) (g : Graph) : Except Panic Graph := do
  let g ← detachFollowee g user (g.following.idx.get (user, count))
  return { g with following := { g.following with idx := g.following.idx.remove (user, count) } }

def setFollowersCount (g : Graph) (user : Address) (count : Nat) : Graph :=
  { g with followers := { g.followers with count := g.followers.count.set user count } }

def setFollowingCount (g : Graph) (user : Address) (count : Nat) : Graph :=
  { g with following := { g.following with count := g.following.count.set user count } }

/-- The two graph loops of `batch_cleanup_profile`, with the counts they end at
and the number of entries that may still be removed. -/
def cleanupUser (g : Graph) (user : Address) (maxEntries : Nat) :
    Except Panic (Nat × Nat × Nat × Graph) := do
  let (fCount, left, g) ←
    Checked.drain (cleanupFollower user) (g.followers.size user) maxEntries g
  let g := g.setFollowersCount user fCount
  let (followingCount, left, g) ←
    Checked.drain (cleanupFollowing user) (g.following.size user) left g
  return (fCount, followingCount, left, g.setFollowingCount user followingCount)

/-- `set_profile` resets both counts of a user it registers. -/
def initCounts (g : Graph) (user : Address) : Graph :=
  (g.setFollowingCount user 0).setFollowersCount user 0

/-! ## Reading -/

def side (g : Graph) (isFollowing : Bool) : Index Address Address :=
  if isFollowing then g.following else g.followers

def paginateIndex (g : Graph) (user : Address) (offset limit : Nat) (isFollowing : Bool) :
    Except Panic (List Address) :=
  if (g.side isFollowing).size user ≤ offset then .ok []
  else do
    let stop ← u32 (offset + limit)
    return (g.side isFollowing).slice user offset
      (min stop ((g.side isFollowing).size user) - offset)

end Graph

def getFollowing (s : State) (user : Address) (offset limit : Nat) :
    Except Panic (List Address) := do
  validateNonDefaultAddress "user" user
  requireWithError (0 < limit ∧ limit ≤ MAX_PAGINATION_LIMIT) "limit must be between 1 and 50"
  s.graph.paginateIndex user offset limit true

def getFollowers (s : State) (user : Address) (offset limit : Nat) :
    Except Panic (List Address) := do
  validateNonDefaultAddress "user" user
  requireWithError (0 < limit ∧ limit ≤ MAX_PAGE_LIMIT) "limit must be between 1 and 50"
  s.graph.paginateIndex user offset limit false

def isBlocked (s : State) (blocker blocked : Address) : Except Panic Bool := do
  validateNonDefaultAddress "blocker" blocker
  validateNonDefaultAddress "blocked" blocked
  return ((s.blocks.get blocker).getD ∅).has blocked

/-- Does `blocker`'s block map name `blocked`? -/
def blocks (s : State) (blocker blocked : Address) : Bool :=
  ((s.blocks.get blocker).getD ∅).has blocked

theorem isBlocked_eq_ok {s : State} {a b : Address} {r : Bool} :
    isBlocked s a b = .ok r ↔
      isZeroAddress a = false ∧ isZeroAddress b = false ∧ blocks s a b = r := by
  simp only [isBlocked, blocks, Checked.bind_eq_ok, Checked.pure_eq_ok,
    validateNonDefaultAddress_eq_ok, exists_const]

/-! ## Entry points -/

def registered (s : State) : Store Address Bool := s.profiles.registeredUsers.getD ∅

/-- The consistency guard of `follow`: a registered user has both count entries. -/
def checkExpired (s : State) (user : Address) : Except Panic Unit :=
  if (registered s).has user then do
    requireWithError (s.graph.following.count.has user = true) "graph entry expired - pay rent"
    requireWithError (s.graph.followers.count.has user = true) "graph entry expired - pay rent"
  else .ok ()

def follow (env : Env) (s : State) (follower followee : Address) : Except Panic State := do
  requireAuth env follower
  validateNonDefaultAddress "follower" follower
  validateNonDefaultAddress "followee" followee
  requireWithError (follower ≠ followee) "follower and followee must be different"
  requireNotPaused s .social
  requireWithError ((← isBlocked s followee follower) = false) "blocked"
  requireWithError ((← isBlocked s follower followee) = false) "blocked"
  requireWithError ((← isBlocked s follower followee) = false) "blocked"
  checkExpired s follower
  checkExpired s followee
  let graph ← s.graph.link follower followee
  return { s with graph }.publish (.follow follower followee)

def unfollow (env : Env) (s : State) (follower followee : Address) : Except Panic State := do
  requireAuth env follower
  validateNonDefaultAddress "follower" follower
  validateNonDefaultAddress "followee" followee
  requireWithError (follower ≠ followee) "follower and followee must be different"
  requireNotPaused s .social
  let graph ← s.graph.unlink follower followee
  return { s with graph }.publish (.unfollow follower followee)

def migrateFollowGraph (env : Env) (s : State) (admin : Address) (users : List Address) :
    Except Panic State := do
  requireAuth env admin
  validateNonDefaultAddress "admin" admin
  requireRole s admin .admin
  validateAddressList "users" users
  requireWithError (users.length ≤ 50) "batch size must not exceed 50 users"
  let graph ← users.foldlM Graph.migrateUser s.graph
  return { s with graph }

/-! ## What a successful call says -/

/-- The guard of `follow` passes for `user`. -/
def GraphLive (s : State) (user : Address) : Prop :=
  (registered s).has user = true →
    s.graph.following.count.has user = true ∧ s.graph.followers.count.has user = true

theorem checkExpired_eq_ok {s : State} {user : Address} {u : Unit} :
    checkExpired s user = .ok u ↔ GraphLive s user := by
  unfold checkExpired GraphLive
  by_cases h : (registered s).has user = true
  · simp [h]
  · simp [h]

theorem follow_eq_ok {env : Env} {s s' : State} {follower followee : Address} :
    follow env s follower followee = .ok s' ↔
      env.auth follower = true ∧ isZeroAddress follower = false ∧
      isZeroAddress followee = false ∧ follower ≠ followee ∧ Running s .social ∧
      blocks s followee follower = false ∧ blocks s follower followee = false ∧
      GraphLive s follower ∧ GraphLive s followee ∧
      ∃ graph, s.graph.link follower followee = .ok graph ∧
        { s with graph }.publish (.follow follower followee) = s' := by
  simp only [follow, Checked.bind_eq_ok, Checked.pure_eq_ok, requireAuth_eq_ok,
    validateNonDefaultAddress_eq_ok, requireWithError_eq_ok, requireNotPaused_eq_ok,
    isBlocked_eq_ok, checkExpired_eq_ok, exists_const]
  constructor
  · rintro ⟨hauth, ha, hb, hne, hrun, -, ⟨-, -, rfl⟩, hba, -, ⟨-, -, rfl⟩, hab, -, -, -, h⟩
    exact ⟨hauth, ha, hb, hne, hrun, hba, hab, h⟩
  · rintro ⟨hauth, ha, hb, hne, hrun, hba, hab, h⟩
    exact ⟨hauth, ha, hb, hne, hrun, false, ⟨hb, ha, hba⟩, rfl, false, ⟨ha, hb, hab⟩, rfl,
      false, ⟨ha, hb, hab⟩, rfl, h⟩

theorem unfollow_eq_ok {env : Env} {s s' : State} {follower followee : Address} :
    unfollow env s follower followee = .ok s' ↔
      env.auth follower = true ∧ isZeroAddress follower = false ∧
      isZeroAddress followee = false ∧ follower ≠ followee ∧ Running s .social ∧
      ∃ graph, s.graph.unlink follower followee = .ok graph ∧
        { s with graph }.publish (.unfollow follower followee) = s' := by
  simp only [unfollow, Checked.bind_eq_ok, Checked.pure_eq_ok, requireAuth_eq_ok,
    validateNonDefaultAddress_eq_ok, requireWithError_eq_ok, requireNotPaused_eq_ok, exists_const]

theorem migrateFollowGraph_ok {env : Env} {s s' : State} {admin : Address} {users : List Address}
    (h : migrateFollowGraph env s admin users = .ok s') :
    ∃ graph, users.foldlM Graph.migrateUser s.graph = .ok graph ∧ s' = { s with graph } := by
  simp only [migrateFollowGraph, Checked.bind_eq_ok, Checked.pure_eq_ok] at h
  obtain ⟨-, -, -, -, -, -, -, -, -, -, graph, hgraph, rfl⟩ := h
  exact ⟨graph, hgraph, rfl⟩

end Contract
end Linkora
