import Linkora.Contract.Graph

/-!
# Posts, likes and blocks

Posts with their author lists, the commit-reveal cycle, likes with their index,
and the sweep that a block makes over both.  The last section is the lazy cleanup
of what a removed post leaves behind.
-/

namespace Linkora
namespace Contract

def COMMITTED_POST_PLACEHOLDER : Bytes := asciiBytes "[committed post]"

/-- `Self::bump` of a persistent entry.  It is written out only where the entry
is not the one that was just read or written, which is in `revealPost`. -/
def bump {κ α : Type} (store : Store κ α) (key : κ) : Except Panic Unit :=
  if store.has key then .ok () else .error .missingEntry

/-! ## Creating and deleting -/

def insertPost (env : Env) (s : State) (author : Address) (content : Bytes) :
    Except Panic (Nat × State) := do
  let id ← u64 (s.posts.postCt.getD 0 + 1)
  let post : Post :=
    { id, author, content, tipTotal := 0, timestamp := env.timestamp, likeCount := 0 }
  let authorPosts := (s.posts.authorPosts.get author).getD [] ++ [id]
  let posts := { s.posts with
    post := s.posts.post.set id post
    postCt := some id
    authorPosts := s.posts.authorPosts.set author authorPosts }
  return (id, { s with posts }.publish (.postCreated id author))

def createPost (env : Env) (s : State) (author : Address) (content : Bytes) :
    Except Panic (Nat × State) := do
  requireAuth env author
  validateNonDefaultAddress "author" author
  validateContent content
  requireNotPaused s .posts
  insertPost env s author content

def batchCreatePost (env : Env) (s : State) (author : Address) (contents : List Bytes) :
    Except Panic (List Nat × State) := do
  requireAuth env author
  validateNonDefaultAddress "author" author
  requireWithError (contents ≠ [] ∧ contents.length ≤ MAX_BATCH_POST_SIZE)
    "batch size must be between 1 and 10"
  requireNotPaused s .posts
  contents.foldlM (fun (ids, s) content => do
    validateContent content
    let (id, s) ← insertPost env s author content
    return (ids ++ [id], s)) ([], s)

def setPostContentHash (env : Env) (s : State) (author : Address) (postId : Nat)
    (contentHash : Bytes32) : Except Panic State := do
  requireAuth env author
  validateNonDefaultAddress "author" author
  requireWithError (0 < postId) "post id must be positive"
  requireNotPaused s .posts
  let post ← expect (s.posts.post.get postId) s!"post does not exist: {postId}"
  requireWithError (post.author = author) "only author can set content hash"
  let posts := { s.posts with contentHash := s.posts.contentHash.set postId contentHash }
  return { s with posts }.publish (.postContentHashSet postId author contentHash)

def commitPost (env : Env) (s : State) (author : Address) (contentHash : Bytes32)
    (revealTime : Nat) : Except Panic (Nat × State) := do
  validateNonDefaultAddress "author" author
  requireAuth env author
  requireNotPaused s .posts
  requireWithError (env.timestamp < revealTime) "reveal time must be in the future"
  validateContent COMMITTED_POST_PLACEHOLDER
  let (postId, s) ← insertPost env s author COMMITTED_POST_PLACEHOLDER
  let committed : CommittedPost :=
    { postId, author, contentHash, revealTime, timestamp := env.timestamp }
  let posts := { s.posts with committedPost := s.posts.committedPost.set postId committed }
  return (postId, { s with posts }.publish (.postCommitted postId author contentHash revealTime))

def revealPost {σ : Type} (host : Host σ) (env : Env) (s : State) (author : Address)
    (postId : Nat) (content : Bytes) : Except Panic State := do
  validateNonDefaultAddress "author" author
  requireAuth env author
  requireWithError (0 < postId) "post id must be positive"
  requireNotPaused s .posts
  let committed ← expect (s.posts.committedPost.get postId) s!"post is not committed: {postId}"
  requireWithError (committed.author = author) "only author can reveal post"
  requireWithError (committed.revealTime ≤ env.timestamp) "reveal time not reached"
  validateContent content
  requireWithError (host.sha256 content = committed.contentHash) "content hash mismatch"
  let post ← expect (s.posts.post.get postId) s!"post does not exist: {postId}"
  let posts := { s.posts with
    post := s.posts.post.set postId { post with content }
    committedPost := s.posts.committedPost.remove postId }
  -- The source bumps the entry it has just removed.
  bump posts.committedPost postId
  return { s with posts }.publish (.postRevealed postId author committed.contentHash)

/-- Drop a post id from its author's list, and the list with its last id. -/
def unlinkAuthorPost (authorPosts : Store Address (List Nat)) (author : Address) (postId : Nat) :
    Store Address (List Nat) :=
  match authorPosts.get author with
  | some ids =>
    if postId ∈ ids then
      if ids.erase postId = [] then authorPosts.remove author
      else authorPosts.set author (ids.erase postId)
    else authorPosts
  | none => authorPosts

def deletePost (env : Env) (s : State) (author : Address) (postId : Nat) :
    Except Panic State := do
  requireAuth env author
  validateNonDefaultAddress "author" author
  requireWithError (0 < postId) "post id must be positive"
  requireNotPaused s .posts
  let post ← expect (s.posts.post.get postId) s!"post does not exist: {postId}"
  requireWithError (post.author = author) "only author can delete post"
  let posts := { s.posts with
    post := s.posts.post.remove postId
    deletedPost := s.posts.deletedPost.set postId true
    authorPosts := unlinkAuthorPost s.posts.authorPosts author postId }
  return { s with posts }.publish (.postDeleted postId author)

/-! ## Likes -/

def likePost (env : Env) (s : State) (user : Address) (postId : Nat) : Except Panic State := do
  requireAuth env user
  validateNonDefaultAddress "user" user
  requireWithError (0 < postId) "post id must be positive"
  requireNotPaused s .posts
  if s.likes.like.has (postId, user) then return s
  else
    let post ← expect (s.posts.post.get postId) "post not found"
    requireWithError ((← isBlocked s post.author user) = false) "blocked"
    requireWithError ((← isBlocked s user post.author) = false) "blocked"
    let likeCount ← u64 (post.likeCount + 1)
    let posts := { s.posts with post := s.posts.post.set postId { post with likeCount } }
    let likes : Likes :=
      { like := s.likes.like.set (postId, user) true
        likersIdx := s.likes.likersIdx.set (postId, post.likeCount % 2 ^ 32) user
        likersCount := s.likes.likersCount.set postId (likeCount % 2 ^ 32) }
    return { s with posts, likes }.publish (.likePost user postId)

def swapRemoveLikeFromIndex (l : Likes) (postId : Nat) (user : Address) : Likes :=
  let count := (l.likersCount.get postId).getD 0
  if count = 0 then l
  else
    match (List.range count).find? fun i => l.likersIdx.get (postId, i) == some user with
    | none => l
    | some pos =>
      let last := count - 1
      let likersIdx :=
        if pos ≠ last then
          match l.likersIdx.get (postId, last) with
          | some lastAddr => l.likersIdx.set (postId, pos) lastAddr
          | none => l.likersIdx
        else l.likersIdx
      { l with
        likersIdx := likersIdx.remove (postId, last)
        likersCount := l.likersCount.set postId last }

/-- Remove the like of `liker` on post `postId` if `author` wrote it. -/
def unlikeOnBlock (s : Posts × Likes) (postId : Nat) (liker author : Address) : Posts × Likes :=
  if s.2.like.has (postId, liker) then
    match s.1.post.get postId with
    | some post =>
      if post.author = author then
        ({ s.1 with post := s.1.post.set postId { post with likeCount := post.likeCount - 1 } },
          swapRemoveLikeFromIndex { s.2 with like := s.2.like.remove (postId, liker) } postId liker)
      else s
    | none => s
  else s

def cleanupLikesOnBlock (s : Posts × Likes) (userA userB : Address) : Posts × Likes :=
  (List.range' 1 (s.1.postCt.getD 0)).foldl
    (fun s postId => unlikeOnBlock (unlikeOnBlock s postId userA userB) postId userB userA) s

/-! ## Blocks -/

def blockUser (env : Env) (s : State) (blocker blocked : Address) : Except Panic State := do
  requireAuth env blocker
  validateNonDefaultAddress "blocker" blocker
  validateNonDefaultAddress "blocked" blocked
  requireWithError (blocker ≠ blocked) "blocker and blocked must be different"
  requireNotPaused s .social
  let blocks := s.blocks.set blocker (((s.blocks.get blocker).getD ∅).set blocked ())
  let graph ← s.graph.cleanupFollowOnBlock blocker blocked
  let (posts, likes) := cleanupLikesOnBlock (s.posts, s.likes) blocker blocked
  return { s with blocks, graph, posts, likes }.publish (.block blocker blocked)

def unblockUser (env : Env) (s : State) (blocker blocked : Address) : Except Panic State := do
  requireAuth env blocker
  validateNonDefaultAddress "blocker" blocker
  validateNonDefaultAddress "blocked" blocked
  requireWithError (blocker ≠ blocked) "blocker and blocked must be different"
  requireNotPaused s .social
  let blocks := s.blocks.set blocker (((s.blocks.get blocker).getD ∅).remove blocked)
  return { s with blocks }.publish (.unblock blocker blocked)

/-! ## Cleanup of a removed post -/

/-- Store a count, or remove its entry when nothing is left. -/
def setOrRemove (counts : Store Nat Nat) (postId count : Nat) : Store Nat Nat :=
  if count = 0 then counts.remove postId else counts.set postId count

def drainLike (postId count : Nat) (l : Likes) : Except Panic Likes :=
  match l.likersIdx.get (postId, count) with
  | some liker =>
    .ok { l with
      like := l.like.remove (postId, liker)
      likersIdx := l.likersIdx.remove (postId, count) }
  | none => .ok l

def drainReport (postId count : Nat) (r : Reports) : Except Panic Reports :=
  match r.reportersIdx.get (postId, count) with
  | some reporter =>
    .ok { r with
      report := r.report.remove (postId, reporter)
      reportersIdx := r.reportersIdx.remove (postId, count) }
  | none => .ok r

def drainCooldown (postId count : Nat) (t : Tips) : Except Panic Tips :=
  match t.cooldownsIdx.get (postId, count) with
  | some (tipper, token) =>
    .ok { t with
      tipCooldown := t.tipCooldown.remove (postId, tipper, token)
      cooldownsIdx := t.cooldownsIdx.remove (postId, count) }
  | none => .ok t

def batchCleanupPost (s : State) (postId maxEntries : Nat) : Except Panic State := do
  requireWithError (s.posts.deletedPost.has postId = true) "post not deleted"
  let (likesCount, left, likes) ←
    Checked.drain (drainLike postId) ((s.likes.likersCount.get postId).getD 0) maxEntries s.likes
  let likes := { likes with likersCount := setOrRemove likes.likersCount postId likesCount }
  let (reportsCount, left, reports) ←
    Checked.drain (drainReport postId) ((s.reports.reportCount.get postId).getD 0) left s.reports
  let reports := { reports with
    reportCount := setOrRemove reports.reportCount postId reportsCount }
  let (tcCount, _, tips) ←
    Checked.drain (drainCooldown postId) ((s.tips.cooldownsCount.get postId).getD 0) left s.tips
  let tips := { tips with cooldownsCount := setOrRemove tips.cooldownsCount postId tcCount }
  let deletedPost :=
    if likesCount = 0 ∧ reportsCount = 0 ∧ tcCount = 0 then s.posts.deletedPost.remove postId
    else s.posts.deletedPost
  return { s with posts := { s.posts with deletedPost }, likes, reports, tips }

def sweepLikes (l : Likes) (postId : Nat) : Likes :=
  let swept := (List.range ((l.likersCount.get postId).getD 0)).foldl
    (fun (l : Likes) i =>
      { l with
        like := match l.likersIdx.get (postId, i) with
          | some liker => l.like.remove (postId, liker)
          | none => l.like
        likersIdx := l.likersIdx.remove (postId, i) }) l
  { swept with likersCount := swept.likersCount.remove postId }

def sweepReports (r : Reports) (postId : Nat) : Reports :=
  let swept := (List.range ((r.reportCount.get postId).getD 0)).foldl
    (fun (r : Reports) i =>
      { r with
        report := match r.reportersIdx.get (postId, i) with
          | some reporter => r.report.remove (postId, reporter)
          | none => r.report
        reportersIdx := r.reportersIdx.remove (postId, i) }) r
  { swept with reportCount := swept.reportCount.remove postId }

def sweepCooldowns (t : Tips) (postId : Nat) : Tips :=
  let swept := (List.range ((t.cooldownsCount.get postId).getD 0)).foldl
    (fun (t : Tips) i =>
      { t with
        tipCooldown := match t.cooldownsIdx.get (postId, i) with
          | some (tipper, token) => t.tipCooldown.remove (postId, tipper, token)
          | none => t.tipCooldown
        cooldownsIdx := t.cooldownsIdx.remove (postId, i) }) t
  { swept with cooldownsCount := swept.cooldownsCount.remove postId }

def cleanupPostAssociations (s : State) (postId : Nat) : State :=
  { s with
    likes := sweepLikes s.likes postId
    reports := sweepReports s.reports postId
    tips := sweepCooldowns s.tips postId }

/-! ## What a successful call says -/

/-- The posts and the author list after `insertPost` has stored `post`. -/
def Posts.insert (p : Posts) (post : Post) : Posts :=
  { p with
    post := p.post.set post.id post
    postCt := some post.id
    authorPosts := p.authorPosts.set post.author
      ((p.authorPosts.get post.author).getD [] ++ [post.id]) }

theorem insertPost_ok {env : Env} {s : State} {author : Address} {content : Bytes}
    {r : Nat × State} (h : insertPost env s author content = .ok r) :
    ∃ post : Post, post.id = s.posts.postCt.getD 0 + 1 ∧ post.author = author ∧
      post.content = content ∧ post.tipTotal = 0 ∧ post.likeCount = 0 ∧ r.1 = post.id ∧
      r.2 = { s with posts := s.posts.insert post }.publish (.postCreated post.id author) := by
  simp only [insertPost, Checked.bind_eq_ok, Checked.pure_eq_ok, u64_eq_ok] at h
  obtain ⟨id, ⟨-, rfl⟩, rfl⟩ := h
  exact ⟨⟨_, author, content, 0, env.timestamp, 0⟩, rfl, rfl, rfl, rfl, rfl, rfl, rfl⟩

theorem createPost_ok {env : Env} {s : State} {author : Address} {content : Bytes}
    {r : Nat × State} (h : createPost env s author content = .ok r) :
    env.auth author = true ∧ isZeroAddress author = false ∧
      insertPost env s author content = .ok r := by
  simp only [createPost, Checked.bind_eq_ok, requireAuth_eq_ok, validateNonDefaultAddress_eq_ok,
    exists_const] at h
  obtain ⟨hauth, hzero, -, -, -, -, h⟩ := h
  exact ⟨hauth, hzero, h⟩

/-- A batch authorises once, and keeps what each of its insertions keeps. -/
theorem batchCreatePost_ok {env : Env} {s : State} {author : Address} {contents : List Bytes}
    {r : List Nat × State} (h : batchCreatePost env s author contents = .ok r) :
    env.auth author = true ∧ isZeroAddress author = false ∧ ∀ P : List Nat × State → Prop,
      (∀ b content q, P b → insertPost env b.2 author content = .ok q → P (b.1 ++ [q.1], q.2)) →
      P ([], s) → P r := by
  simp only [batchCreatePost, Checked.bind_eq_ok, requireAuth_eq_ok,
    validateNonDefaultAddress_eq_ok, exists_const] at h
  obtain ⟨hauth, hzero, -, -, -, -, h⟩ := h
  refine ⟨hauth, hzero, fun P hstep hs => ?_⟩
  have hfold : ∀ content ∈ contents, ∀ b b' : List Nat × State, P b →
      (do
        validateContent content
        let q ← insertPost env b.2 author content
        return (b.1 ++ [q.1], q.2)) = Except.ok b' → P b' := by
    intro content _ b b' hb hb'
    simp only [Checked.bind_eq_ok, Checked.pure_eq_ok] at hb'
    obtain ⟨-, -, q, hq, rfl⟩ := hb'
    exact hstep b content q hb hq
  exact Checked.foldlM_invariant hfold hs h

theorem setPostContentHash_ok {env : Env} {s s' : State} {author : Address} {postId : Nat}
    {contentHash : Bytes32} (h : setPostContentHash env s author postId contentHash = .ok s') :
    s' = { s with posts := { s.posts with
      contentHash := s.posts.contentHash.set postId contentHash } }.publish
        (.postContentHashSet postId author contentHash) := by
  simp only [setPostContentHash, Checked.bind_eq_ok, Checked.pure_eq_ok] at h
  obtain ⟨-, -, -, -, -, -, -, -, -, -, -, -, rfl⟩ := h
  rfl

theorem commitPost_ok {env : Env} {s : State} {author : Address} {contentHash : Bytes32}
    {revealTime : Nat} {r : Nat × State}
    (h : commitPost env s author contentHash revealTime = .ok r) :
    env.auth author = true ∧ isZeroAddress author = false ∧
    ∃ q, insertPost env s author COMMITTED_POST_PLACEHOLDER = .ok q ∧
      r = (q.1, { q.2 with posts := { q.2.posts with
        committedPost := q.2.posts.committedPost.set q.1
          ⟨q.1, author, contentHash, revealTime, env.timestamp⟩ } }.publish
            (.postCommitted q.1 author contentHash revealTime)) := by
  simp only [commitPost, Checked.bind_eq_ok, Checked.pure_eq_ok, requireAuth_eq_ok,
    validateNonDefaultAddress_eq_ok, exists_const] at h
  obtain ⟨hzero, hauth, -, -, -, -, -, -, q, hq, rfl⟩ := h
  exact ⟨hauth, hzero, q, hq, rfl⟩

/-- No reveal ever returns: the entry it bumps last is the one it removed. -/
theorem revealPost_ne_ok {σ : Type} {host : Host σ} {env : Env} {s s' : State} {author : Address}
    {postId : Nat} {content : Bytes} : revealPost host env s author postId content ≠ .ok s' := by
  intro h
  simp only [revealPost, Checked.bind_eq_ok] at h
  obtain ⟨_, _, _, _, _, _, _, _, _, _, _, _, _, _, _, _, _, _, _, _, _, hbump, _⟩ := h
  simp [bump, Store.has_remove] at hbump

theorem deletePost_ok {env : Env} {s s' : State} {author : Address} {postId : Nat}
    (h : deletePost env s author postId = .ok s') :
    ∃ post, s.posts.post.get postId = some post ∧ post.author = author ∧
      s' = { s with posts := { s.posts with
        post := s.posts.post.remove postId
        deletedPost := s.posts.deletedPost.set postId true
        authorPosts := unlinkAuthorPost s.posts.authorPosts author postId } }.publish
          (.postDeleted postId author) := by
  simp only [deletePost, Checked.bind_eq_ok, Checked.pure_eq_ok, expect_eq_ok,
    requireWithError_eq_ok, exists_const] at h
  obtain ⟨-, -, -, -, -, -, -, post, hpost, hauthor, rfl⟩ := h
  exact ⟨post, hpost, hauthor, rfl⟩

/-- The likes after `user` has liked a post that counted `likeCount` likes. -/
def Likes.add (l : Likes) (postId likeCount : Nat) (user : Address) : Likes :=
  { like := l.like.set (postId, user) true
    likersIdx := l.likersIdx.set (postId, likeCount % 2 ^ 32) user
    likersCount := l.likersCount.set postId ((likeCount + 1) % 2 ^ 32) }

theorem likePost_ok {env : Env} {s s' : State} {user : Address} {postId : Nat}
    (h : likePost env s user postId = .ok s') :
    (s.likes.like.has (postId, user) = true ∧ s' = s) ∨
    ∃ post, s.likes.like.has (postId, user) = false ∧ s.posts.post.get postId = some post ∧
      blocks s post.author user = false ∧ blocks s user post.author = false ∧
      s' = { s with
        posts := { s.posts with
          post := s.posts.post.set postId { post with likeCount := post.likeCount + 1 } }
        likes := s.likes.add postId post.likeCount user }.publish (.likePost user postId) := by
  simp only [likePost, Checked.bind_eq_ok] at h
  obtain ⟨-, -, -, -, -, -, -, -, h⟩ := h
  split at h
  · rename_i hliked
    exact Or.inl ⟨hliked, (Checked.pure_eq_ok.mp h).symm⟩
  · rename_i hliked
    simp only [Checked.bind_eq_ok, Checked.pure_eq_ok, expect_eq_ok, isBlocked_eq_ok,
      requireWithError_eq_ok, u64_eq_ok, exists_const] at h
    obtain ⟨post, hpost, -, ⟨-, -, rfl⟩, hab, -, ⟨-, -, rfl⟩, hba, -, ⟨-, rfl⟩, rfl⟩ := h
    exact Or.inr ⟨post, Bool.not_eq_true _ ▸ hliked, hpost, hab, hba, rfl⟩

theorem blockUser_ok {env : Env} {s s' : State} {blocker blocked : Address}
    (h : blockUser env s blocker blocked = .ok s') :
    blocker ≠ blocked ∧ ∃ graph, s.graph.cleanupFollowOnBlock blocker blocked = .ok graph ∧
      s' = { s with
        blocks := s.blocks.set blocker (((s.blocks.get blocker).getD ∅).set blocked ())
        graph
        posts := (cleanupLikesOnBlock (s.posts, s.likes) blocker blocked).1
        likes := (cleanupLikesOnBlock (s.posts, s.likes) blocker blocked).2 }.publish
          (.block blocker blocked) := by
  simp only [blockUser, Checked.bind_eq_ok, Checked.pure_eq_ok, requireWithError_eq_ok,
    exists_const] at h
  obtain ⟨-, -, -, -, -, -, hne, -, -, graph, hgraph, rfl⟩ := h
  exact ⟨hne, graph, hgraph, rfl⟩

theorem unblockUser_ok {env : Env} {s s' : State} {blocker blocked : Address}
    (h : unblockUser env s blocker blocked = .ok s') :
    s' = { s with
      blocks := s.blocks.set blocker (((s.blocks.get blocker).getD ∅).remove blocked) }.publish
        (.unblock blocker blocked) := by
  simp only [unblockUser, Checked.bind_eq_ok, Checked.pure_eq_ok] at h
  obtain ⟨-, -, -, -, -, -, -, -, -, -, rfl⟩ := h
  rfl

/-- What `batchCleanupPost` leaves of the three families, and the tombstone it
keeps unless all three are used up. -/
theorem batchCleanupPost_ok {s s' : State} {postId maxEntries : Nat}
    (h : batchCleanupPost s postId maxEntries = .ok s') :
    s.posts.deletedPost.has postId = true ∧
    ∃ likes reports tips : Nat × Nat × _, ∃ deletedPost,
      Checked.drain (drainLike postId) ((s.likes.likersCount.get postId).getD 0) maxEntries
        s.likes = .ok likes ∧
      Checked.drain (drainReport postId) ((s.reports.reportCount.get postId).getD 0) likes.2.1
        s.reports = .ok reports ∧
      Checked.drain (drainCooldown postId) ((s.tips.cooldownsCount.get postId).getD 0)
        reports.2.1 s.tips = .ok tips ∧
      (deletedPost = s.posts.deletedPost ∨ deletedPost = s.posts.deletedPost.remove postId) ∧
      s' = { s with
        posts := { s.posts with deletedPost }
        likes := { likes.2.2 with
          likersCount := setOrRemove likes.2.2.likersCount postId likes.1 }
        reports := { reports.2.2 with
          reportCount := setOrRemove reports.2.2.reportCount postId reports.1 }
        tips := { tips.2.2 with
          cooldownsCount := setOrRemove tips.2.2.cooldownsCount postId tips.1 } } := by
  simp only [batchCleanupPost, Checked.bind_eq_ok, Checked.pure_eq_ok, requireWithError_eq_ok,
    exists_const] at h
  obtain ⟨htomb, likes, hlikes, reports, hreports, tips, htips, rfl⟩ := h
  refine ⟨htomb, likes, reports, tips, _, hlikes, hreports, htips, ?_, rfl⟩
  by_cases hdone : likes.1 = 0 ∧ reports.1 = 0 ∧ tips.1 = 0
  · exact Or.inr (if_pos hdone)
  · exact Or.inl (if_neg hdone)

end Contract
end Linkora
