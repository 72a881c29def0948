import Mathlib.Logic.Relation
import Linkora.Contract.Entry

/-!
# The posts and the lists of their authors

A post leaves the storage by four routes: its author deletes it, a review takes it
away, an appeal brings it back, and the cleanup of a deleted account retires what
the account has written.  Each edits the list of the author on its own.  Every call
is broken down into small edits of the posts, their likes and the snapshots of what
has been taken away, and an invariant looks at each kind of edit once.
-/

namespace Linkora
namespace Contract

/-- The posts, the snapshots of the posts that a review has taken away, and the
likes. -/
structure PostView where
  posts : Posts
  removed : Store Nat Post
  likes : Likes

def State.postView (s : State) : PostView := ⟨s.posts, s.appeals.removedPost, s.likes⟩

/-- `AuthorPosts` of a user; a missing entry is an empty list. -/
def Posts.byAuthor (p : Posts) (a : Address) : List Nat := (p.authorPosts.get a).getD []

/-- The number of the last post; none has been written if it is missing. -/
def Posts.lastId (p : Posts) : Nat := p.postCt.getD 0

/-- Write an author's list down, or drop it with its last id. -/
def relist (authorPosts : Store Address (List Nat)) (user : Address) (ids : List Nat) :
    Store Address (List Nat) :=
  if ids = [] then authorPosts.remove user else authorPosts.set user ids

/-- The likes differ at one post only, and none is new. -/
structure Likes.PrunedAt (l l' : Likes) (id : Nat) : Prop where
  like : ∀ key, l'.like.has key = true → l.like.has key = true
  likeOff : ∀ key, key.1 ≠ id → l'.like.get key = l.like.get key
  countOff : ∀ k, k ≠ id → l'.likersCount.get k = l.likersCount.get k
  count : l'.likersCount.has id = true → l.likersCount.has id = true
  idxOff : ∀ slot, slot.1 ≠ id → l'.likersIdx.get slot = l.likersIdx.get slot

/-- The small edits that the calls are made of, `like_post` apart.  Only with `tips` may
a tip be among them. -/
inductive PostEdit (tips : Bool) (v : PostView) : PostView → Prop where
  | note (contentHash : Store Nat Bytes32) (committedPost : Store Nat CommittedPost) :
      PostEdit tips v { v with posts := { v.posts with contentHash, committedPost } }
  | add (post : Post) (fresh : post.id = v.posts.lastId + 1)
      (author : isZeroAddress post.author = false) (likeCount : post.likeCount = 0) :
      PostEdit tips v { v with posts := v.posts.insert post }
  | tip (id : Nat) (post : Post) (tipTotal : Int) (stored : v.posts.post.get id = some post)
      (tipped : tips = true) :
      PostEdit tips v { v with posts := { v.posts with
        post := v.posts.post.set id { post with tipTotal } } }
  | unlike (id : Nat) (post : Post) (liker : Address)
      (stored : v.posts.post.get id = some post) (liked : v.likes.like.has (id, liker) = true) :
      PostEdit tips v { v with
        posts := { v.posts with
          post := v.posts.post.set id { post with likeCount := post.likeCount - 1 } }
        likes := swapRemoveLikeFromIndex
          { v.likes with like := v.likes.like.remove (id, liker) } id liker }
  | delete (id : Nat) (post : Post) (stored : v.posts.post.get id = some post) :
      PostEdit tips v { v with posts := { v.posts with
        post := v.posts.post.remove id
        deletedPost := v.posts.deletedPost.set id true
        authorPosts := unlinkAuthorPost v.posts.authorPosts post.author id } }
  | drain (id : Nat) (likes : Likes) (dead : v.posts.deletedPost.has id = true)
      (pruned : v.likes.PrunedAt likes id) : PostEdit tips v { v with likes }
  | release (id : Nat) :
      PostEdit tips v { v with posts := { v.posts with
        deletedPost := v.posts.deletedPost.remove id } }
  | relist (user : Address) :
      PostEdit tips v { v with posts := { v.posts with
        authorPosts := relist v.posts.authorPosts user (v.posts.byAuthor user) } }
  | retire (user : Address) (ids : List Nat) (id : Nat) (likes : Likes)
      (listed : v.posts.byAuthor user = ids ++ [id]) (pruned : v.likes.PrunedAt likes id) :
      PostEdit tips v { v with
        posts := { v.posts with
          post := v.posts.post.remove id
          deletedPost := v.posts.deletedPost.set id true
          authorPosts := Contract.relist v.posts.authorPosts user ids }
        likes }
  | takeAway (id : Nat) (post : Post) (stored : v.posts.post.get id = some post) :
      PostEdit tips v { v with
        posts := { v.posts with
          post := v.posts.post.remove id
          authorPosts := unlinkAuthorPost v.posts.authorPosts post.author id }
        removed := v.removed.set id post }
  | restore (id : Nat) (post : Post) (snapshot : v.removed.get id = some post) :
      PostEdit tips v { v with
        posts := { v.posts with
          post := v.posts.post.set id post
          authorPosts :=
            if id ∈ v.posts.byAuthor post.author then v.posts.authorPosts
            else v.posts.authorPosts.set post.author (v.posts.byAuthor post.author ++ [id]) }
        removed := v.removed.remove id }

/-- A sequence of edits. -/
abbrev PostEdits (tips : Bool) : PostView → PostView → Prop :=
  Relation.ReflTransGen (PostEdit tips)

/-- The call is a tip. -/
def Call.tips : Call → Bool
  | .tip .. => true
  | _ => false

variable {tips : Bool}

/-! ## What the calls are made of -/

theorem Likes.PrunedAt.refl (l : Likes) (id : Nat) : l.PrunedAt l id :=
  ⟨fun _ h => h, fun _ _ => rfl, fun _ _ => rfl, fun h => h, fun _ _ => rfl⟩

theorem Likes.PrunedAt.trans {l l' l'' : Likes} {id : Nat} (h : l.PrunedAt l' id)
    (h' : l'.PrunedAt l'' id) : l.PrunedAt l'' id where
  like key hk := h.like key (h'.like key hk)
  likeOff key hk := (h'.likeOff key hk).trans (h.likeOff key hk)
  countOff k hk := (h'.countOff k hk).trans (h.countOff k hk)
  count hk := h.count (h'.count hk)
  idxOff slot hs := (h'.idxOff slot hs).trans (h.idxOff slot hs)

/-- Dropping a slot of the post, and with it the like of whoever the slot names. -/
theorem Likes.prunedAt_slot (l : Likes) (id i : Nat) :
    l.PrunedAt { l with
      like := match l.likersIdx.get (id, i) with
        | some liker => l.like.remove (id, liker)
        | none => l.like
      likersIdx := l.likersIdx.remove (id, i) } id where
  like key hk := by
    cases hslot : l.likersIdx.get (id, i) with
    | none =>
      rw [hslot] at hk
      exact hk
    | some liker =>
      rw [hslot] at hk
      obtain ⟨v, hv⟩ := Store.has_iff_exists.mp hk
      exact Store.has_of_get (Store.get_of_get_remove hv)
  likeOff key hk := by
    cases hslot : l.likersIdx.get (id, i) with
    | none => rfl
    | some liker =>
      refine Store.get_remove_of_ne fun e => hk ?_
      rw [e]
  countOff _ _ := rfl
  count h := h
  idxOff slot hs := Store.get_remove_of_ne fun e => hs (by rw [e])

theorem drainLike_prunedAt {id count : Nat} {l l' : Likes} (h : drainLike id count l = .ok l') :
    l.PrunedAt l' id := by
  have hslot := l.prunedAt_slot id count
  rw [drainLike] at h
  split at h
  · rename_i liker hliker
    rw [Except.ok.injEq] at h
    rw [hliker] at hslot
    exact h ▸ hslot
  · rw [Except.ok.injEq] at h
    exact h ▸ Likes.PrunedAt.refl l id

theorem drain_likes_prunedAt {id left : Nat} {l : Likes} {r : Nat × Nat × Likes}
    (h : Checked.drain (drainLike id) ((l.likersCount.get id).getD 0) left l = .ok r) :
    l.PrunedAt { r.2.2 with likersCount := setOrRemove r.2.2.likersCount id r.1 } id := by
  have hr : l.PrunedAt r.2.2 id ∧ r.1 ≤ (l.likersCount.get id).getD 0 := by
    refine Checked.drain_invariant (P := fun count b => l.PrunedAt b id ∧
      count ≤ (l.likersCount.get id).getD 0) ?_ ⟨.refl l id, le_rfl⟩ h
    intro count b b' hb hb'
    exact ⟨hb.1.trans (drainLike_prunedAt hb'), by omega⟩
  refine ⟨hr.1.like, hr.1.likeOff, fun k hk => ?_, fun hhas => ?_, hr.1.idxOff⟩
  · show (setOrRemove r.2.2.likersCount id r.1).get k = _
    rw [setOrRemove, ← hr.1.countOff k hk]
    split
    · exact Store.get_remove_of_ne hk
    · exact Store.get_set_of_ne hk _
  · -- A count that is written back is positive, so there was one before.
    rw [Store.has_eq]
    cases hn : l.likersCount.get id with
    | some n => rfl
    | none =>
      have hzero : r.1 = 0 := by
        have hle := hr.2
        rw [hn, Option.getD_none] at hle
        omega
      have hgone : (setOrRemove r.2.2.likersCount id r.1).has id = true := hhas
      rw [setOrRemove, if_pos hzero, Store.has_remove, if_pos rfl] at hgone
      cases hgone

theorem sweepLikes_prunedAt (l : Likes) (id : Nat) : l.PrunedAt (sweepLikes l id) id := by
  have hfold : ∀ (slots : List Nat) (b : Likes), l.PrunedAt b id →
      l.PrunedAt (slots.foldl (fun (l : Likes) i =>
        { l with
          like := match l.likersIdx.get (id, i) with
            | some liker => l.like.remove (id, liker)
            | none => l.like
          likersIdx := l.likersIdx.remove (id, i) }) b) id := by
    intro slots
    induction slots with
    | nil => exact fun b hb => hb
    | cons i slots ih => exact fun b hb => ih _ (hb.trans (b.prunedAt_slot id i))
  have h := hfold (List.range ((l.likersCount.get id).getD 0)) l (.refl l id)
  refine ⟨h.like, h.likeOff, fun k hk => ?_, fun hhas => ?_, h.idxOff⟩
  · exact (Store.get_remove_of_ne hk).trans (h.countOff k hk)
  · have hgone : (Store.remove _ id).has id = true := hhas
    rw [Store.has_remove, if_pos rfl] at hgone
    cases hgone

theorem unlikeOnBlock_edits (p : Posts × Likes) (removed : Store Nat Post) (id : Nat)
    (liker author : Address) :
    PostEdits tips ⟨p.1, removed, p.2⟩
      ⟨(unlikeOnBlock p id liker author).1, removed, (unlikeOnBlock p id liker author).2⟩ := by
  rw [unlikeOnBlock]
  split
  · rename_i hliked
    split
    · rename_i post hpost
      split
      · exact .single (.unlike id post liker hpost hliked)
      · exact .refl
    · exact .refl
  · exact .refl

theorem cleanupLikesOnBlock_edits (p : Posts × Likes) (removed : Store Nat Post)
    (a b : Address) :
    PostEdits tips ⟨p.1, removed, p.2⟩
      ⟨(cleanupLikesOnBlock p a b).1, removed, (cleanupLikesOnBlock p a b).2⟩ := by
  have hfold : ∀ (ids : List Nat) (q : Posts × Likes),
      PostEdits tips ⟨p.1, removed, p.2⟩ ⟨q.1, removed, q.2⟩ →
      PostEdits tips ⟨p.1, removed, p.2⟩
        ⟨(ids.foldl (fun s id => unlikeOnBlock (unlikeOnBlock s id a b) id b a) q).1, removed,
          (ids.foldl (fun s id => unlikeOnBlock (unlikeOnBlock s id a b) id b a) q).2⟩ := by
    intro ids
    induction ids with
    | nil => exact fun q hq => hq
    | cons id ids ih =>
      intro q hq
      exact ih _ ((hq.trans (unlikeOnBlock_edits q removed id a b)).trans
        (unlikeOnBlock_edits _ removed id b a))
  exact hfold _ p .refl

theorem get_relist (authorPosts : Store Address (List Nat)) (user a : Address) (ids : List Nat) :
    (relist authorPosts user ids).get a =
      if a = user then (if ids = [] then none else some ids) else authorPosts.get a := by
  rw [relist]
  split
  · exact Store.get_remove _ _ _
  · exact Store.get_set _ _ _ _

theorem relist_relist (authorPosts : Store Address (List Nat)) (user : Address)
    (ids ids' : List Nat) :
    relist (relist authorPosts user ids) user ids' = relist authorPosts user ids' := by
  ext a : 1
  rw [get_relist, get_relist, get_relist]
  by_cases ha : a = user
  · rw [if_pos ha, if_pos ha]
  · rw [if_neg ha, if_neg ha, if_neg ha]

theorem byAuthor_relist {p p' : Posts} {user : Address} {ids : List Nat}
    (h : p'.authorPosts = relist p.authorPosts user ids) (a : Address) :
    p'.byAuthor a = if a = user then ids else p.byAuthor a := by
  rw [Posts.byAuthor, h, get_relist]
  by_cases ha : a = user
  · rw [if_pos ha, if_pos ha]
    by_cases hids : ids = []
    · rw [if_pos hids, hids]
      rfl
    · rw [if_neg hids]
      rfl
  · rw [if_neg ha, if_neg ha]
    rfl

/-- What the cleanup of an account leaves of the posts, with the list that its loop
holds in place of the stored one. -/
theorem batchCleanupProfile_posts {s s' : State} {user : Address} {maxEntries : Nat}
    (h : batchCleanupProfile s user maxEntries = .ok s') :
    ∃ (fCount followingCount left : Nat) (graph : Graph) (r : Nat × Nat × List Nat × State),
      s.graph.cleanupUser user maxEntries = .ok (fCount, followingCount, left, graph) ∧
      Checked.drain cleanupAuthorPost (s.posts.byAuthor user).length left
        (s.posts.byAuthor user, { s with graph }) = .ok r ∧
      s'.posts = { r.2.2.2.posts with
        authorPosts := relist r.2.2.2.posts.authorPosts user r.2.2.1 } ∧
      s'.likes = r.2.2.2.likes ∧ s'.tips = r.2.2.2.tips ∧ s'.graph = r.2.2.2.graph ∧
      s'.appeals = r.2.2.2.appeals := by
  simp only [batchCleanupProfile, Checked.bind_eq_ok, Checked.pure_eq_ok] at h
  obtain ⟨-, -, ⟨fCount, followingCount, left, graph⟩, hgraph, r, hr, rfl⟩ := h
  exact ⟨fCount, followingCount, left, graph, r, hgraph, hr, rfl, rfl, rfl, rfl, rfl⟩

/-- The loop over an account's posts retires the last posts of the list one by one. -/
theorem drain_cleanupAuthorPost_edits {s : State} {user : Address} {left : Nat}
    {r : Nat × Nat × List Nat × State}
    (h : Checked.drain cleanupAuthorPost (s.posts.byAuthor user).length left
      (s.posts.byAuthor user, s) = .ok r) :
    r.2.2.2.appeals = s.appeals ∧
    PostEdits tips s.postView ⟨{ r.2.2.2.posts with
      authorPosts := relist r.2.2.2.posts.authorPosts user r.2.2.1 }, s.appeals.removedPost,
      r.2.2.2.likes⟩ := by
  have hall : r.2.2.1 = (s.posts.byAuthor user).take r.1 ∧
      r.2.2.2.posts.authorPosts = s.posts.authorPosts ∧ r.2.2.2.appeals = s.appeals ∧
      PostEdits tips s.postView ⟨{ r.2.2.2.posts with
        authorPosts := relist r.2.2.2.posts.authorPosts user r.2.2.1 }, s.appeals.removedPost,
        r.2.2.2.likes⟩ := by
    refine Checked.drain_invariant (P := fun count (b : List Nat × State) =>
      b.1 = (s.posts.byAuthor user).take count ∧ b.2.posts.authorPosts = s.posts.authorPosts ∧
      b.2.appeals = s.appeals ∧ PostEdits tips s.postView ⟨{ b.2.posts with
        authorPosts := relist b.2.posts.authorPosts user b.1 }, s.appeals.removedPost,
        b.2.likes⟩) ?_ ?_ h
    · intro count b b' hb hb'
      obtain ⟨hids, hlists, happeals, hedits⟩ := hb
      obtain ⟨id, hid, hids', hs'⟩ := cleanupAuthorPost_ok hb'
      rw [hids, List.getElem?_take_of_lt (Nat.lt_succ_self count)] at hid
      obtain ⟨hlt, hid⟩ := List.getElem?_eq_some_iff.mp hid
      have hlast : b.1 = (s.posts.byAuthor user).take count ++ [id] := by
        rw [hids, ← hid, List.take_concat_get' _ _ hlt]
      have herase : b'.1 = (s.posts.byAuthor user).take count := by
        rw [hids', hlast, List.eraseIdx_append_of_length_le (by simp)]
        simp [hlt.le]
      refine ⟨herase, ?_, ?_, ?_⟩
      · rw [hs']
        exact hlists
      · rw [hs']
        exact happeals
      · refine hedits.tail ?_
        have hlisted : ({ b.2.posts with
            authorPosts := relist b.2.posts.authorPosts user b.1 } : Posts).byAuthor user =
            (s.posts.byAuthor user).take count ++ [id] := by
          rw [byAuthor_relist rfl, if_pos rfl, hlast]
        have hedit := @PostEdit.retire tips ⟨_, s.appeals.removedPost, b.2.likes⟩ user _ id _
          hlisted (sweepLikes_prunedAt b.2.likes id)
        rw [relist_relist] at hedit
        rw [hs', herase]
        exact hedit
    · refine ⟨List.take_length.symm, rfl, rfl, .single ?_⟩
      exact .relist user
  exact ⟨hall.2.2.1, hall.2.2.2⟩

theorem insertPost_edit {env : Env} {s : State} {author : Address} {content : Bytes}
    {r : Nat × State} (hzero : isZeroAddress author = false)
    (h : insertPost env s author content = .ok r) : PostEdit tips s.postView r.2.postView := by
  obtain ⟨post, hid, hauthor, -, -, hcount, -, hs⟩ := insertPost_ok h
  rw [hs]
  exact .add post hid (hauthor ▸ hzero) hcount

/-- A call that writes neither posts nor likes nor appeals leaves the view of the posts. -/
theorem exec_postView {σ : Type} {host : Host σ} {env : Env} {w w' : World σ} {c : Call}
    (he : exec host env w c = .ok w') (hparts : ∀ p ∈ [Part.posts, .likes, .appeals], p ∉ c.parts) :
    w'.store.postView = w.store.postView := by
  have hposts : w'.store.posts = w.store.posts :=
    exec_frame (p := .posts) he (hparts _ (by simp))
  have hlikes : w'.store.likes = w.store.likes :=
    exec_frame (p := .likes) he (hparts _ (by simp))
  have happeals : w'.store.appeals = w.store.appeals :=
    exec_frame (p := .appeals) he (hparts _ (by simp))
  rw [State.postView, hposts, hlikes, happeals]
  rfl

/-- Every successful call but `like_post` is a sequence of edits, and only `tip` tips. -/
theorem exec_postEdits {σ : Type} {host : Host σ} {env : Env} {w w' : World σ} {c : Call}
    (he : exec host env w c = .ok w') (hc : ∀ user id, c ≠ .likePost user id) :
    PostEdits c.tips w.store.postView w'.store.postView := by
  cases c with
  | likePost user id => exact absurd rfl (hc user id)
  | createPost author content =>
    obtain ⟨r, hr, hrs⟩ := Checked.map_eq_ok.mp (World.onStore_eq_ok.mp he).1
    obtain ⟨-, hzero, hr⟩ := createPost_ok hr
    rw [← hrs]
    exact .single (insertPost_edit hzero hr)
  | batchCreatePost author contents =>
    obtain ⟨r, hr, hrs⟩ := Checked.map_eq_ok.mp (World.onStore_eq_ok.mp he).1
    obtain ⟨-, hzero, hr⟩ := batchCreatePost_ok hr
    rw [← hrs]
    refine hr (fun b => PostEdits _ w.store.postView b.2.postView) ?_ .refl
    intro b content q hb hq
    exact hb.tail (insertPost_edit hzero hq)
  | setPostContentHash author id contentHash =>
    rw [setPostContentHash_ok (World.onStore_eq_ok.mp he).1]
    exact .single (.note _ _)
  | commitPost author contentHash revealTime =>
    obtain ⟨r, hr, hrs⟩ := Checked.map_eq_ok.mp (World.onStore_eq_ok.mp he).1
    obtain ⟨-, hzero, q, hq, rfl⟩ := commitPost_ok hr
    rw [← hrs]
    exact .tail (.single (insertPost_edit hzero hq)) (.note _ _)
  | revealPost => exact absurd (World.onStore_eq_ok.mp he).1 revealPost_ne_ok
  | deletePost author id =>
    obtain ⟨post, hpost, rfl, hs⟩ := deletePost_ok (World.onStore_eq_ok.mp he).1
    rw [hs]
    exact .single (.delete id post hpost)
  | batchCleanupPost id maxEntries =>
    obtain ⟨hdead, likes, reports, tips, deletedPost, hlikes, -, -, hdeleted, hs⟩ :=
      batchCleanupPost_ok (World.onStore_eq_ok.mp he).1
    rw [hs]
    have hdrain : PostEdit false w.store.postView { w.store.postView with
        likes := { likes.2.2 with
          likersCount := setOrRemove likes.2.2.likersCount id likes.1 } } :=
      .drain id _ hdead (drain_likes_prunedAt hlikes)
    rcases hdeleted with rfl | rfl
    · exact .single hdrain
    · exact .tail (.single hdrain) (.release id)
  | tip tipper id token amount =>
    obtain ⟨-, -, post, tips, feeAmount, tipTotal, paid, tokens, hpost, -, -, -, -, rfl⟩ :=
      tip_ok he
    exact .single (.tip id post tipTotal hpost rfl)
  | blockUser a b =>
    obtain ⟨-, graph, -, hs⟩ := blockUser_ok (World.onStore_eq_ok.mp he).1
    rw [hs]
    exact cleanupLikesOnBlock_edits (w.store.posts, w.store.likes) _ a b
  | batchCleanupProfile user maxEntries =>
    obtain ⟨fCount, followingCount, left, graph, r, -, hr, hposts, hlikes, -, -, happeals⟩ :=
      batchCleanupProfile_posts (World.onStore_eq_ok.mp he).1
    have hloop : Checked.drain cleanupAuthorPost
        (({ w.store with graph } : State).posts.byAuthor user).length left
        (({ w.store with graph } : State).posts.byAuthor user, { w.store with graph }) = .ok r := hr
    obtain ⟨hsame, hedits⟩ := drain_cleanupAuthorPost_edits hloop
    have hview : w'.store.postView = ⟨{ r.2.2.2.posts with
        authorPosts := relist r.2.2.2.posts.authorPosts user r.2.2.1 },
        w.store.appeals.removedPost, r.2.2.2.likes⟩ := by
      rw [State.postView, hposts, hlikes, happeals, hsame]
    rw [hview]
    exact hedits
  | reviewReport moderator signers id reporter verdict =>
    obtain ⟨-, pool, report, v, -, -, -, -, hv, rfl⟩ := reviewReport_ok he
    obtain ⟨posts, appeals, events, hs, hcase⟩ := resolveReport_store hv
    show PostEdits _ w.store.postView ⟨v.store.posts, v.store.appeals.removedPost, v.store.likes⟩
    rw [hs]
    rcases hcase with ⟨-, rfl, rfl⟩ | ⟨post, -, hpost, rfl, rfl⟩
    · exact .refl
    · exact .single (.takeAway id post hpost)
  | appealModeration appellant id reasonHash =>
    obtain ⟨appeal, events, hs⟩ := appealModeration_ok (World.onStore_eq_ok.mp he).1
    rw [hs]
    exact .refl
  | reviewAppeal reviewer id approve =>
    obtain ⟨appeal, events, hs | hs⟩ := reviewAppeal_ok (World.onStore_eq_ok.mp he).1
    · rw [hs]
      exact .refl
    · rw [hs]
      show PostEdits _ w.store.postView
        ⟨(restoreModeratedPost w.store id).posts, w.store.appeals.removedPost.remove id,
          w.store.likes⟩
      cases hget : w.store.appeals.removedPost.get id with
      | none =>
        have hposts : (restoreModeratedPost w.store id).posts = w.store.posts := by
          rw [restoreModeratedPost, hget]
        rw [hposts, Store.remove_eq_self_iff.mpr hget]
        exact .refl
      | some post =>
        have hedit := @PostEdit.restore false w.store.postView id post hget
        rw [restoreModeratedPost, hget]
        exact .single hedit
  | _ =>
    rw [exec_postView he (by simp [Call.parts])]

/-! ## The index -/

/-- The post with this id, stored or taken away by a review. -/
def PostView.Holds (v : PostView) (id : Nat) (post : Post) : Prop :=
  v.posts.post.get id = some post ∨ v.removed.get id = some post

namespace PostView

variable {v v' : PostView} {id i : Nat} {post p : Post}

/-- The post under one id is stored anew; under the others the view holds what it held. -/
theorem holds_of_set (hp : v'.Holds i p) (hpost : v'.posts.post = v.posts.post.set id post)
    (hremoved : ∀ i p, v'.removed.get i = some p → i ≠ id ∧ v.removed.get i = some p) :
    (i = id ∧ p = post) ∨ (i ≠ id ∧ v.Holds i p) := by
  rcases hp with hp | hp
  · rw [hpost, Store.get_set] at hp
    by_cases hi : i = id
    · rw [if_pos hi] at hp
      exact Or.inl ⟨hi, (Option.some.inj hp).symm⟩
    · rw [if_neg hi] at hp
      exact Or.inr ⟨hi, Or.inl hp⟩
  · obtain ⟨hi, hp⟩ := hremoved i p hp
    exact Or.inr ⟨hi, Or.inr hp⟩

/-- A post that is taken away was held before. -/
theorem holds_of_takeAway (hp : v'.Holds i p) (stored : v.posts.post.get id = some post)
    (hpost : v'.posts.post = v.posts.post.remove id)
    (hremoved : v'.removed = v.removed.set id post) : v.Holds i p := by
  rcases hp with hp | hp
  · rw [hpost] at hp
    exact Or.inl (Store.get_of_get_remove hp)
  · rw [hremoved, Store.get_set] at hp
    by_cases hi : i = id
    · rw [if_pos hi] at hp
      rw [hi, ← Option.some.inj hp]
      exact Or.inl stored
    · rw [if_neg hi] at hp
      exact Or.inr hp

/-- A post that is brought back was held before. -/
theorem holds_of_restore (hp : v'.Holds i p) (snapshot : v.removed.get id = some post)
    (hpost : v'.posts.post = v.posts.post.set id post)
    (hremoved : v'.removed = v.removed.remove id) : v.Holds i p := by
  rcases hp with hp | hp
  · rw [hpost, Store.get_set] at hp
    by_cases hi : i = id
    · rw [if_pos hi] at hp
      rw [hi, ← Option.some.inj hp]
      exact Or.inr snapshot
    · rw [if_neg hi] at hp
      exact Or.inl hp
  · rw [hremoved] at hp
    exact Or.inr (Store.get_of_get_remove hp)

end PostView

/-- The posts that are stored are those that the lists name, each once, and an id is
stored, taken away or deleted, but only one of these at a time. -/
structure PostsIndexed (v : PostView) : Prop where
  known : ∀ id p, v.Holds id p →
    1 ≤ id ∧ id ≤ v.posts.lastId ∧ p.id = id ∧ isZeroAddress p.author = false
  listed : ∀ a id, id ∈ v.posts.byAuthor a ↔ ∃ p, v.posts.post.get id = some p ∧ p.author = a
  nodup : ∀ a, (v.posts.byAuthor a).Nodup
  nonempty : ∀ a, v.posts.authorPosts.get a ≠ some []
  removed : ∀ id p, v.removed.get id = some p → v.posts.post.get id = none
  deleted : ∀ id, v.posts.deletedPost.has id = true →
    id ≤ v.posts.lastId ∧ v.posts.post.get id = none ∧ v.removed.get id = none

/-- Unlinking a post takes its id out of the list of its author. -/
theorem get_unlinkAuthorPost (authorPosts : Store Address (List Nat)) (author a : Address)
    (id : Nat) :
    (unlinkAuthorPost authorPosts author id).get a =
      if a = author ∧ id ∈ (authorPosts.get a).getD [] then
        (relist authorPosts author (((authorPosts.get a).getD []).erase id)).get a
      else authorPosts.get a := by
  unfold unlinkAuthorPost
  by_cases ha : a = author
  · subst ha
    cases hget : authorPosts.get a with
    | none => simp [hget]
    | some ids =>
      by_cases hid : id ∈ ids
      · simp only [hid, if_true, Option.getD_some, true_and]
        rw [relist]
      · simp [hid, hget]
  · have hne : ¬(a = author ∧ id ∈ (authorPosts.get a).getD []) := fun h => ha h.1
    rw [if_neg hne]
    split
    · split
      · split
        · exact Store.get_remove_of_ne ha
        · exact Store.get_set_of_ne ha _
      · rfl
    · rfl

theorem byAuthor_unlink {p p' : Posts} {author : Address} {id : Nat}
    (h : p'.authorPosts = unlinkAuthorPost p.authorPosts author id) (a : Address) :
    p'.byAuthor a = if a = author then (p.byAuthor a).erase id else p.byAuthor a := by
  rw [Posts.byAuthor, h, get_unlinkAuthorPost]
  by_cases ha : a = author
  · rw [if_pos ha]
    by_cases hid : id ∈ (p.authorPosts.get a).getD []
    · rw [if_pos ⟨ha, hid⟩, get_relist, if_pos ha]
      show Option.getD (if ((p.authorPosts.get a).getD []).erase id = [] then none
        else some (((p.authorPosts.get a).getD []).erase id)) [] = _
      split
      · rename_i hnil
        exact hnil.symm
      · rfl
    · have hid' : id ∉ p.byAuthor a := hid
      rw [if_neg fun h => hid h.2, List.erase_of_not_mem hid']
      rfl
  · rw [if_neg ha, if_neg fun h => ha h.1]
    rfl

theorem unlinkAuthorPost_nonempty {authorPosts : Store Address (List Nat)} {a : Address}
    (h : authorPosts.get a ≠ some []) (author : Address) (id : Nat) :
    (unlinkAuthorPost authorPosts author id).get a ≠ some [] := by
  rw [get_unlinkAuthorPost]
  split
  · rename_i hcase
    rw [get_relist, if_pos hcase.1]
    split
    · exact nofun
    · rename_i hne
      exact fun h => hne (Option.some.inj h)
  · exact h

namespace PostsIndexed

variable {v v' : PostView} {id : Nat} {post : Post}

/-- Only the posts, the lists, the tombstones and the snapshots matter. -/
theorem congr (h : PostsIndexed v) (hpost : v'.posts.post = v.posts.post)
    (hct : v'.posts.postCt = v.posts.postCt) (hlists : v'.posts.authorPosts = v.posts.authorPosts)
    (hdeleted : v'.posts.deletedPost = v.posts.deletedPost) (hremoved : v'.removed = v.removed) :
    PostsIndexed v' := by
  have hby : ∀ a, v'.posts.byAuthor a = v.posts.byAuthor a := by
    intro a
    rw [Posts.byAuthor, Posts.byAuthor, hlists]
  have hlast : v'.posts.lastId = v.posts.lastId := by rw [Posts.lastId, Posts.lastId, hct]
  constructor
  · intro i p hp
    rw [PostView.Holds, hpost, hremoved] at hp
    rw [hlast]
    exact h.known i p hp
  · intro a i
    rw [hby, hpost]
    exact h.listed a i
  · intro a
    rw [hby]
    exact h.nodup a
  · intro a
    rw [hlists]
    exact h.nonempty a
  · intro i p hp
    rw [hremoved] at hp
    rw [hpost]
    exact h.removed i p hp
  · intro i hi
    rw [hdeleted] at hi
    rw [hlast, hpost, hremoved]
    exact h.deleted i hi

/-! A stored post has neither a snapshot nor a tombstone. -/

theorem ne_of_removed (h : PostsIndexed v) (stored : v.posts.post.get id = some post) {i : Nat}
    {p : Post} (hp : v.removed.get i = some p) : i ≠ id := by
  intro e
  rw [e] at hp
  rw [h.removed id p hp] at stored
  cases stored

theorem removed_of_stored (h : PostsIndexed v) (stored : v.posts.post.get id = some post) :
    v.removed.get id = none := by
  cases hsnap : v.removed.get id with
  | none => rfl
  | some p => exact absurd rfl (h.ne_of_removed stored hsnap)

theorem ne_of_deleted (h : PostsIndexed v) (stored : v.posts.post.get id = some post) {i : Nat}
    (hi : v.posts.deletedPost.has i = true) : i ≠ id := by
  intro e
  have hnone := (h.deleted i hi).2.1
  rw [e, stored] at hnone
  cases hnone

theorem eq_of_stored (h : PostsIndexed v) (stored : v.posts.post.get id = some post) {p : Post}
    (hp : v.Holds id p) : p = post := by
  rcases hp with hp | hp
  · rw [stored, Option.some.injEq] at hp
    exact hp.symm
  · exact absurd rfl (h.ne_of_removed stored hp)

/-- A stored post is written anew. -/
theorem holds_of_rewrite (h : PostsIndexed v) (stored : v.posts.post.get id = some post)
    {post' : Post} {i : Nat} {p : Post} (hp : v'.Holds i p)
    (hpost : v'.posts.post = v.posts.post.set id post') (hremoved : v'.removed = v.removed) :
    (i = id ∧ p = post') ∨ (i ≠ id ∧ v.Holds i p) := by
  refine PostView.holds_of_set hp hpost fun i p hp => ?_
  rw [hremoved] at hp
  exact ⟨h.ne_of_removed stored hp, hp⟩

/-- A post may be rewritten as long as its id and its author stay. -/
theorem rewrite (h : PostsIndexed v) (stored : v.posts.post.get id = some post) {post' : Post}
    (hid : post'.id = post.id) (hauthor : post'.author = post.author) :
    PostsIndexed { v with posts := { v.posts with post := v.posts.post.set id post' } } := by
  have hold := h.known id post (Or.inl stored)
  constructor
  · intro i p hp
    rcases h.holds_of_rewrite stored hp rfl rfl with ⟨hi, hpost⟩ | ⟨-, hp⟩
    · rw [hi, hpost, hid, hauthor]
      exact hold
    · exact h.known i p hp
  · intro a i
    show i ∈ v.posts.byAuthor a ↔ ∃ p, (v.posts.post.set id post').get i = some p ∧ p.author = a
    rw [h.listed a i, Store.get_set]
    by_cases hi : i = id
    · subst hi
      simp [stored, hauthor]
    · simp [hi]
  · exact h.nodup
  · exact h.nonempty
  · intro i p hp
    show (v.posts.post.set id post').get i = none
    rw [Store.get_set_of_ne (h.ne_of_removed stored hp)]
    exact h.removed i p hp
  · intro i hi
    obtain ⟨hle, hnone, hrem⟩ := h.deleted i hi
    refine ⟨hle, ?_, hrem⟩
    show (v.posts.post.set id post').get i = none
    rw [Store.get_set_of_ne (h.ne_of_deleted stored hi)]
    exact hnone

/-- A stored post is taken out of the storage and out of the lists, and leaves a
tombstone or a snapshot. -/
theorem withdraw (h : PostsIndexed v) (stored : v.posts.post.get id = some post)
    (hpost : v'.posts.post = v.posts.post.remove id) (hct : v'.posts.postCt = v.posts.postCt)
    (hby : ∀ a, v'.posts.byAuthor a =
      if a = post.author then (v.posts.byAuthor a).erase id else v.posts.byAuthor a)
    (hnonempty : ∀ a, v'.posts.authorPosts.get a ≠ some [])
    (hleft : (v'.posts.deletedPost = v.posts.deletedPost.set id true ∧ v'.removed = v.removed) ∨
      (v'.posts.deletedPost = v.posts.deletedPost ∧ v'.removed = v.removed.set id post)) :
    PostsIndexed v' := by
  have hlast : v'.posts.lastId = v.posts.lastId := by rw [Posts.lastId, Posts.lastId, hct]
  have hold := h.known id post (Or.inl stored)
  have hsnapshot : ∀ i p, v'.removed.get i = some p →
      (i = id ∧ p = post ∧ v'.posts.deletedPost = v.posts.deletedPost) ∨
        (i ≠ id ∧ v.removed.get i = some p) := by
    intro i p hp
    rcases hleft with ⟨-, hrem⟩ | ⟨hdel, hrem⟩
    · rw [hrem] at hp
      exact Or.inr ⟨h.ne_of_removed stored hp, hp⟩
    · rw [hrem, Store.get_set] at hp
      split at hp
      · rename_i hi
        exact Or.inl ⟨hi, (Option.some.inj hp).symm, hdel⟩
      · rename_i hi
        exact Or.inr ⟨hi, hp⟩
  constructor
  · intro i p hp
    rw [hlast]
    rcases hp with hp | hp
    · rw [hpost] at hp
      exact h.known i p (Or.inl (Store.get_of_get_remove hp))
    · rcases hsnapshot i p hp with ⟨rfl, rfl, -⟩ | ⟨-, hp⟩
      · exact hold
      · exact h.known i p (Or.inr hp)
  · intro a i
    -- The id stood in the list of its author, and in no other list.
    have hmem : i ∈ v'.posts.byAuthor a ↔ i ≠ id ∧ i ∈ v.posts.byAuthor a := by
      rw [hby]
      split
      · exact (h.nodup a).mem_erase_iff
      · rename_i ha
        refine ⟨fun hi => ⟨fun e => ?_, hi⟩, And.right⟩
        rw [e, h.listed a id] at hi
        obtain ⟨p, hp, hpa⟩ := hi
        rw [stored, Option.some.injEq] at hp
        exact ha (hp ▸ hpa.symm)
    rw [hmem, h.listed a i, hpost, Store.get_remove]
    by_cases hi : i = id
    · simp [hi]
    · simp [hi]
  · intro a
    rw [hby]
    split
    · exact (h.nodup a).erase id
    · exact h.nodup a
  · exact hnonempty
  · intro i p hp
    rw [hpost, Store.get_remove]
    rcases hsnapshot i p hp with ⟨hi, -⟩ | ⟨hi, hp⟩
    · rw [if_pos hi]
    · rw [if_neg hi]
      exact h.removed i p hp
  · intro i hi
    rw [hlast, hpost, Store.get_remove]
    rcases hleft with ⟨hdel, hrem⟩ | ⟨hdel, hrem⟩
    · rw [hdel, Store.has_set] at hi
      rw [hrem]
      split at hi
      · rename_i he
        rw [if_pos he, he]
        exact ⟨hold.2.1, rfl, h.removed_of_stored stored⟩
      · rename_i he
        rw [if_neg he]
        exact h.deleted i hi
    · rw [hdel] at hi
      obtain ⟨hle, hnone, hnorem⟩ := h.deleted i hi
      have hne := h.ne_of_deleted stored hi
      rw [if_neg hne, hrem, Store.get_set_of_ne hne]
      exact ⟨hle, hnone, hnorem⟩

/-- A post is written under an id that is neither stored nor deleted, and enters the
list of its author. -/
theorem enter (h : PostsIndexed v) (hpos : 1 ≤ id) (hid : post.id = id)
    (hauthor : isZeroAddress post.author = false) (hfree : v.posts.post.get id = none)
    (hdead : v.posts.deletedPost.has id = false)
    (hpost : v'.posts.post = v.posts.post.set id post)
    (hlists : v'.posts.authorPosts =
      v.posts.authorPosts.set post.author (v.posts.byAuthor post.author ++ [id]))
    (hlast : v.posts.lastId ≤ v'.posts.lastId ∧ id ≤ v'.posts.lastId)
    (hdeleted : v'.posts.deletedPost = v.posts.deletedPost)
    (hremoved : ∀ i p, v'.removed.get i = some p → i ≠ id ∧ v.removed.get i = some p) :
    PostsIndexed v' := by
  have hby : ∀ a, v'.posts.byAuthor a =
      if a = post.author then v.posts.byAuthor a ++ [id] else v.posts.byAuthor a := by
    intro a
    rw [Posts.byAuthor, hlists, Store.get_set]
    by_cases ha : a = post.author
    · rw [if_pos ha, if_pos ha, ha]
      rfl
    · rw [if_neg ha, if_neg ha]
      rfl
  have hunlisted : ∀ a, id ∉ v.posts.byAuthor a := by
    intro a hi
    obtain ⟨p, hp, -⟩ := (h.listed a id).mp hi
    rw [hfree] at hp
    cases hp
  constructor
  · intro i p hp
    rcases PostView.holds_of_set hp hpost hremoved with ⟨hi, rfl⟩ | ⟨-, hold⟩
    · exact ⟨by omega, by omega, hid.trans hi.symm, hauthor⟩
    · obtain ⟨hge, hle, hrest⟩ := h.known i p hold
      exact ⟨hge, by omega, hrest⟩
  · intro a i
    rw [hby, hpost, Store.get_set]
    by_cases hi : i = id
    · rw [if_pos hi, hi]
      by_cases ha : a = post.author
      · simp [ha]
      · rw [if_neg ha]
        refine ⟨fun hmem => absurd hmem (hunlisted a), fun ⟨p, hp, hpa⟩ => ?_⟩
        obtain rfl := Option.some.inj hp
        exact absurd hpa.symm ha
    · rw [if_neg hi, ← h.listed a i]
      split
      · simp [hi]
      · rfl
  · intro a
    rw [hby]
    split
    · refine List.nodup_append.mpr ⟨h.nodup a, List.nodup_singleton _, ?_⟩
      intro i hi j hj e
      rw [List.mem_singleton] at hj
      rw [e, hj] at hi
      exact hunlisted a hi
    · exact h.nodup a
  · intro a
    rw [hlists, Store.get_set]
    split
    · simp
    · exact h.nonempty a
  · intro i p hp
    obtain ⟨hi, hp⟩ := hremoved i p hp
    rw [hpost, Store.get_set_of_ne hi]
    exact h.removed i p hp
  · intro i hi
    rw [hdeleted] at hi
    obtain ⟨hle, hnone, hrem⟩ := h.deleted i hi
    have hne : i ≠ id := by
      intro e
      rw [e, hdead] at hi
      cases hi
    refine ⟨by omega, ?_, ?_⟩
    · rw [hpost, Store.get_set_of_ne hne]
      exact hnone
    · cases hsnap : v'.removed.get i with
      | none => rfl
      | some p =>
        rw [(hremoved i p hsnap).2] at hrem
        cases hrem

/-- Ids beyond the last one are free. -/
theorem free_of_lt (h : PostsIndexed v) (hlt : v.posts.lastId < id) :
    v.posts.post.get id = none ∧ v.removed.get id = none ∧
      v.posts.deletedPost.has id = false := by
  have hunused : ∀ p, ¬v.Holds id p := by
    intro p hp
    have hle := (h.known id p hp).2.1
    omega
  refine ⟨?_, ?_, ?_⟩
  · cases hget : v.posts.post.get id with
    | none => rfl
    | some p => exact absurd (Or.inl hget) (hunused p)
  · cases hget : v.removed.get id with
    | none => rfl
    | some p => exact absurd (Or.inr hget) (hunused p)
  · rw [← Bool.not_eq_true]
    intro hdead
    have hle := (h.deleted id hdead).1
    omega

theorem edit (h : PostsIndexed v) (he : PostEdit tips v v') : PostsIndexed v' := by
  cases he with
  | note => exact h.congr rfl rfl rfl rfl rfl
  | add post fresh author likeCount =>
    have hlt : v.posts.lastId < post.id := by omega
    obtain ⟨hfree, hsnap, hdead⟩ := h.free_of_lt hlt
    refine h.enter (by omega) rfl author hfree hdead rfl rfl ⟨?_, le_rfl⟩ rfl ?_
    · show v.posts.lastId ≤ post.id
      omega
    · intro i p hp
      refine ⟨?_, hp⟩
      intro e
      have hp : v.removed.get i = some p := hp
      rw [e, hsnap] at hp
      cases hp
  | tip id post tipTotal stored => exact h.rewrite stored rfl rfl
  | unlike id post liker stored liked =>
    have hposts : PostsIndexed { v with posts := { v.posts with
        post := v.posts.post.set id { post with likeCount := post.likeCount - 1 } } } :=
      h.rewrite stored rfl rfl
    exact hposts.congr rfl rfl rfl rfl rfl
  | delete id post stored =>
    exact h.withdraw stored rfl rfl (fun a => byAuthor_unlink rfl a)
      (fun a => unlinkAuthorPost_nonempty (h.nonempty a) _ _) (Or.inl ⟨rfl, rfl⟩)
  | drain => exact h.congr rfl rfl rfl rfl rfl
  | release id =>
    refine ⟨h.known, h.listed, h.nodup, h.nonempty, h.removed, fun i hi => h.deleted i ?_⟩
    have hi : (v.posts.deletedPost.remove id).has i = true := hi
    rw [Store.has_remove] at hi
    split at hi
    · cases hi
    · exact hi
  | relist user =>
    have hsame : relist v.posts.authorPosts user (v.posts.byAuthor user) =
        v.posts.authorPosts := by
      ext a : 1
      rw [get_relist]
      split
      · rename_i ha
        rw [ha, Posts.byAuthor]
        cases hget : v.posts.authorPosts.get user with
        | none => rfl
        | some ids =>
          have hne : ids ≠ [] := fun e => h.nonempty user (by rw [hget, e])
          rw [Option.getD_some, if_neg hne]
      · rfl
    exact h.congr rfl rfl hsame rfl rfl
  | retire user ids id likes listed pruned =>
    have hmem : id ∈ v.posts.byAuthor user := by
      rw [listed]
      exact List.mem_append_right ids (List.mem_singleton_self id)
    obtain ⟨post, stored, rfl⟩ := (h.listed user id).mp hmem
    have hnodup := h.nodup post.author
    rw [listed] at hnodup
    have hid : id ∉ ids := fun hi =>
      (List.nodup_append.mp hnodup).2.2 id hi id (List.mem_singleton_self id) rfl
    refine h.withdraw stored rfl rfl (fun a => ?_) (fun a => ?_) (Or.inl ⟨rfl, rfl⟩)
    · show Posts.byAuthor { v.posts with
          authorPosts := Contract.relist v.posts.authorPosts post.author ids } a = _
      rw [byAuthor_relist rfl]
      split
      · rename_i ha
        rw [ha, listed, List.erase_append_right [id] hid, List.erase_cons_head, List.append_nil]
      · rfl
    · show (Contract.relist v.posts.authorPosts post.author ids).get a ≠ some []
      rw [get_relist]
      split
      · split
        · exact nofun
        · rename_i hne
          exact fun e => hne (Option.some.inj e)
      · exact h.nonempty a
  | takeAway id post stored =>
    exact h.withdraw stored rfl rfl (fun a => byAuthor_unlink rfl a)
      (fun a => unlinkAuthorPost_nonempty (h.nonempty a) _ _) (Or.inr ⟨rfl, rfl⟩)
  | restore id post snapshot =>
    obtain ⟨hpos, hle, hid, hauthor⟩ := h.known id post (Or.inr snapshot)
    have hfree := h.removed id post snapshot
    have hunlisted : id ∉ v.posts.byAuthor post.author := by
      rw [h.listed, hfree]
      exact fun ⟨p, hp, _⟩ => nomatch hp
    have hdead : v.posts.deletedPost.has id = false := by
      rw [← Bool.not_eq_true]
      intro hdead
      rw [(h.deleted id hdead).2.2] at snapshot
      cases snapshot
    rw [if_neg hunlisted]
    refine h.enter hpos hid hauthor hfree hdead rfl rfl ⟨le_rfl, hle⟩ rfl ?_
    intro i p hp
    have hp : (v.removed.remove id).get i = some p := hp
    rw [Store.get_remove] at hp
    split at hp
    · cases hp
    · rename_i hi
      exact ⟨hi, hp⟩

theorem edits (h : PostsIndexed v) (he : PostEdits tips v v') : PostsIndexed v' := by
  induction he with
  | refl => exact h
  | tail _ hlast ih => exact ih.edit hlast

end PostsIndexed

theorem PostsIndexed.call {σ : Type} {host : Host σ} {env : Env} {w w' : World σ} {c : Call}
    (h : PostsIndexed w.store.postView) (he : exec host env w c = .ok w') :
    PostsIndexed w'.store.postView := by
  cases c with
  | likePost user id =>
    rcases likePost_ok (World.onStore_eq_ok.mp he).1 with ⟨-, hs⟩ | ⟨post, -, stored, -, -, hs⟩
    · rw [hs]
      exact h
    · have hposts : PostsIndexed { w.store.postView with posts := { w.store.posts with
          post := w.store.posts.post.set id { post with likeCount := post.likeCount + 1 } } } :=
        h.rewrite stored rfl rfl
      rw [hs]
      exact hposts.congr rfl rfl rfl rfl rfl
  | _ => exact h.edits (exec_postEdits he (fun _ _ => nofun))

theorem PostsIndexed.of_reachable {σ : Type} {host : Host σ} {w : World σ}
    (h : Reachable host w) : PostsIndexed w.store.postView := by
  refine h.store_invariant (I := fun s => PostsIndexed s.postView) ?_ ?_
  · intro s env admin treasury feeBps hs
    obtain ⟨-, -, access, events, rfl⟩ := initializeContract_ok hs
    refine ⟨?_, ?_, fun _ => List.nodup_nil, fun _ => nofun, nofun, nofun⟩
    · intro id p hp
      exact hp.elim nofun nofun
    · intro a id
      exact ⟨nofun, fun ⟨_, hp, _⟩ => nomatch hp⟩
  · intro w env c w' hw he
    exact hw.call he

/-! ## Ids are not used again -/

/-- Neither the number of the last post nor what is known of an id goes back: a post
under an old id is the post that was there, with the author and the time it had, and
without `tips` also with the tips it had. -/
structure PostView.Later (tips : Bool) (v v' : PostView) : Prop where
  lastId : v.posts.lastId ≤ v'.posts.lastId
  holds : ∀ id post', id ≤ v.posts.lastId → v'.Holds id post' →
    ∃ post, v.Holds id post ∧ post'.author = post.author ∧ post'.timestamp = post.timestamp ∧
      (tips = false → post'.tipTotal = post.tipTotal)

/-- A relation between the versions of a post that likes cannot break, nor tips if there are
any. -/
structure PostRel (tips : Bool) (R : Post → Post → Prop) : Prop where
  refl : ∀ p, R p p
  trans : ∀ {p q r}, R p q → R q r → R p r
  likeCount : ∀ p likeCount, R p { p with likeCount }
  tipTotal : tips = true → ∀ p tipTotal, R p { p with tipTotal }

/-- The post that is held under an id given out before was held under it before, and the two
are related. -/
structure PostView.Carries (R : Post → Post → Prop) (v v' : PostView) : Prop where
  lastId : v.posts.lastId ≤ v'.posts.lastId
  holds : ∀ id post', id ≤ v.posts.lastId → v'.Holds id post' →
    ∃ post, v.Holds id post ∧ R post post'

namespace PostView.Carries

variable {R : Post → Post → Prop} {v v' v'' : PostView}

theorem refl (hR : PostRel tips R) (v : PostView) : v.Carries R v :=
  ⟨le_rfl, fun _ post' _ hp => ⟨post', hp, hR.refl post'⟩⟩

theorem trans (hR : PostRel tips R) (h : v.Carries R v') (h' : v'.Carries R v'') :
    v.Carries R v'' := by
  refine ⟨h.lastId.trans h'.lastId, fun id post'' hle hp => ?_⟩
  obtain ⟨post', hp', hrel'⟩ := h'.holds id post'' (hle.trans h.lastId) hp
  obtain ⟨post, hp, hrel⟩ := h.holds id post' hle hp'
  exact ⟨post, hp, hR.trans hrel hrel'⟩

/-- Nothing is held that was not held before. -/
theorem of_holds (hR : PostRel tips R) (hlast : v'.posts.lastId = v.posts.lastId)
    (h : ∀ id post, v'.Holds id post → v.Holds id post) : v.Carries R v' :=
  ⟨hlast.ge, fun id post _ hp => ⟨post, h id post hp, hR.refl post⟩⟩

/-- A stored post is rewritten. -/
theorem of_rewrite (hR : PostRel tips R) {id : Nat} {post post' : Post}
    (stored : v.posts.post.get id = some post)
    (hpost : v'.posts.post = v.posts.post.set id post') (hrel : R post post')
    (hlast : v'.posts.lastId = v.posts.lastId) (hremoved : v'.removed = v.removed) :
    v.Carries R v' := by
  refine ⟨hlast.ge, fun i p _ hp => ?_⟩
  rw [Holds, hpost, hremoved, Store.get_set] at hp
  by_cases hi : i = id
  · rw [if_pos hi] at hp
    rcases hp with hp | hp
    · rw [← Option.some.inj hp, hi]
      exact ⟨post, Or.inl stored, hrel⟩
    · exact ⟨p, Or.inr hp, hR.refl p⟩
  · rw [if_neg hi] at hp
    exact ⟨p, hp, hR.refl p⟩

theorem of_edit (hR : PostRel tips R) (he : PostEdit tips v v') : v.Carries R v' := by
  cases he with
  | note | drain | release | relist => exact of_holds hR rfl fun _ _ hp => hp
  | add post fresh =>
    have hlast : (v.posts.insert post).lastId = post.id := rfl
    refine ⟨by rw [hlast]; omega, fun i p hle hp => ?_⟩
    have hne : i ≠ post.id := by omega
    refine ⟨p, hp.imp_left fun hp => ?_, hR.refl p⟩
    exact (Store.get_set_of_ne hne post).symm.trans hp
  | tip id post tipTotal stored tipped =>
    exact of_rewrite hR stored rfl (hR.tipTotal tipped post tipTotal) rfl rfl
  | unlike id post liker stored liked =>
    exact of_rewrite hR stored rfl (hR.likeCount post _) rfl rfl
  | delete | retire =>
    exact of_holds hR rfl fun _ _ hp => hp.imp_left Store.get_of_get_remove
  | takeAway id post stored =>
    exact of_holds hR rfl fun i p hp => holds_of_takeAway hp stored rfl rfl
  | restore id post snapshot =>
    exact of_holds hR rfl fun i p hp => holds_of_restore hp snapshot rfl rfl

theorem of_edits (hR : PostRel tips R) (he : PostEdits tips v v') : v.Carries R v' := by
  induction he with
  | refl => exact refl hR v
  | tail _ hlast ih => exact ih.trans hR (of_edit hR hlast)

section Runs

variable {σ : Type} {host : Host σ}

theorem of_exec {env : Env} {w w' : World σ} {c : Call} (hR : PostRel c.tips R)
    (he : exec host env w c = .ok w') : w.store.postView.Carries R w'.store.postView := by
  cases c with
  | likePost user id =>
    rcases likePost_ok (World.onStore_eq_ok.mp he).1 with ⟨-, hs⟩ | ⟨post, -, stored, -, -, hs⟩
    · rw [hs]
      exact refl hR _
    · rw [hs]
      exact of_rewrite hR stored rfl (hR.likeCount post _) rfl rfl
  | _ => exact of_edits hR (exec_postEdits he (fun _ _ => nofun))

theorem of_run (hR : PostRel true R) {w w' : World σ} {acts : List (Action σ)}
    (hrun : Run (Step host) w acts w') : w.store.postView.Carries R w'.store.postView := by
  induction hrun with
  | nil => exact refl hR _
  | snoc _ hstep ih =>
    cases hstep with
    | call he =>
      exact ih.trans hR (of_exec ⟨hR.refl, hR.trans, hR.likeCount, fun _ => hR.tipTotal rfl⟩ he)
    | others => exact ih

end Runs

end PostView.Carries

theorem postRel_later (tips : Bool) : PostRel tips fun post post' =>
    post'.author = post.author ∧ post'.timestamp = post.timestamp ∧
      (tips = false → post'.tipTotal = post.tipTotal) where
  refl _ := ⟨rfl, rfl, fun _ => rfl⟩
  trans h h' := ⟨h'.1.trans h.1, h'.2.1.trans h.2.1, fun e => (h'.2.2 e).trans (h.2.2 e)⟩
  likeCount _ _ := ⟨rfl, rfl, fun _ => rfl⟩
  tipTotal htips _ _ := by
    refine ⟨rfl, rfl, fun e => ?_⟩
    rw [htips] at e
    cases e

theorem PostView.Later.of_exec {σ : Type} {host : Host σ} {env : Env} {w w' : World σ} {c : Call}
    (he : exec host env w c = .ok w') :
    w.store.postView.Later c.tips w'.store.postView := by
  obtain ⟨hlast, hholds⟩ := PostView.Carries.of_exec (postRel_later c.tips) he
  exact ⟨hlast, hholds⟩

theorem PostView.Later.of_run {σ : Type} {host : Host σ} {w w' : World σ}
    {acts : List (Action σ)} (hrun : Run (Step host) w acts w') :
    w.store.postView.Later true w'.store.postView := by
  obtain ⟨hlast, hholds⟩ := PostView.Carries.of_run (postRel_later true) hrun
  exact ⟨hlast, hholds⟩

/-- The ids that a call gives out, if it succeeds. -/
def newIds (env : Env) (s : State) : Call → List Nat
  | .createPost author content => ((createPost env s author content).toOption.map (·.1)).toList
  | .batchCreatePost author contents =>
    ((batchCreatePost env s author contents).toOption.map (·.1)).getD []
  | .commitPost author contentHash revealTime =>
    ((commitPost env s author contentHash revealTime).toOption.map (·.1)).toList
  | _ => []

theorem insertPost_id {env : Env} {s : State} {author : Address} {content : Bytes}
    {r : Nat × State} (h : insertPost env s author content = .ok r) :
    r.1 = s.posts.lastId + 1 ∧ r.2.posts.lastId = s.posts.lastId + 1 := by
  obtain ⟨post, hid, -, -, -, -, hr, hs⟩ := insertPost_ok h
  rw [hr, hs]
  exact ⟨hid, hid⟩

/-- The ids given out are the next ones, in order. -/
theorem newIds_eq {σ : Type} {host : Host σ} {env : Env} {w w' : World σ} {c : Call}
    (he : exec host env w c = .ok w') (hne : newIds env w.store c ≠ []) :
    newIds env w.store c = List.range' (w.store.posts.lastId + 1) (newIds env w.store c).length ∧
      w'.store.posts.lastId = w.store.posts.lastId + (newIds env w.store c).length := by
  cases c with
  | createPost author content =>
    obtain ⟨r, hr, hrs⟩ := Checked.map_eq_ok.mp (World.onStore_eq_ok.mp he).1
    obtain ⟨hid, hlast⟩ := insertPost_id (createPost_ok hr).2.2
    have hids : newIds env w.store (.createPost author content) = [r.1] := by
      rw [newIds, hr]
      rfl
    rw [hids, ← hrs, hid]
    exact ⟨rfl, hlast⟩
  | batchCreatePost author contents =>
    obtain ⟨r, hr, hrs⟩ := Checked.map_eq_ok.mp (World.onStore_eq_ok.mp he).1
    have hids : newIds env w.store (.batchCreatePost author contents) = r.1 := by
      rw [newIds, hr]
      rfl
    rw [hids, ← hrs]
    refine (batchCreatePost_ok hr).2.2 (fun b =>
      b.1 = List.range' (w.store.posts.lastId + 1) b.1.length ∧
        b.2.posts.lastId = w.store.posts.lastId + b.1.length) ?_ ⟨rfl, rfl⟩
    intro b content q hb hq
    obtain ⟨hid, hlast⟩ := insertPost_id hq
    obtain ⟨hb, hblast⟩ := hb
    constructor
    · rw [List.length_append, List.length_singleton, List.range'_concat, ← hb, hid, hblast]
      simp [Nat.add_right_comm]
    · rw [hlast, hblast, List.length_append, List.length_singleton]
      omega
  | commitPost author contentHash revealTime =>
    obtain ⟨r, hr, hrs⟩ := Checked.map_eq_ok.mp (World.onStore_eq_ok.mp he).1
    obtain ⟨-, -, q, hq, rfl⟩ := commitPost_ok hr
    obtain ⟨hid, hlast⟩ := insertPost_id hq
    have hids : newIds env w.store (.commitPost author contentHash revealTime) = [q.1] := by
      rw [newIds, hr]
      rfl
    rw [hids, ← hrs, hid]
    exact ⟨rfl, hlast⟩
  | _ => exact absurd rfl hne

/-- In every reachable state the stored posts are numbered from one to the last id,
each is named once by the list of its author, the lists name nothing else, and an
id is stored, taken away or deleted, but only one of these at a time.  A call gives
out ids that are in no use and that no later call gives out; and a post that is
stored or taken away in a later state of a run, under an id that has been given out
by now, is the post that is there now. -/
theorem posts_indexed {σ : Type} {host : Host σ} {w : World σ} (h : Reachable host w) :
    (∀ id p, w.store.posts.post.get id = some p → 1 ≤ id ∧ id ≤ w.store.posts.postCt.getD 0 ∧
      p.id = id ∧ (w.store.posts.byAuthor p.author).count id = 1) ∧
    (∀ a id, id ∈ w.store.posts.byAuthor a →
      ∃ p, w.store.posts.post.get id = some p ∧ p.author = a) ∧
    (∀ id, ¬(w.store.posts.post.has id = true ∧ w.store.appeals.removedPost.has id = true) ∧
      ¬(w.store.posts.post.has id = true ∧ w.store.posts.deletedPost.has id = true) ∧
      ¬(w.store.appeals.removedPost.has id = true ∧ w.store.posts.deletedPost.has id = true)) ∧
    (∀ env c w₁, exec host env w c = .ok w₁ → (newIds env w.store c).Nodup ∧
      ∀ id ∈ newIds env w.store c,
        (w.store.posts.post.has id = false ∧ w.store.appeals.removedPost.has id = false ∧
          w.store.posts.deletedPost.has id = false) ∧
        ∀ acts w₂ env' c' w₃, Run (Step host) w₁ acts w₂ → exec host env' w₂ c' = .ok w₃ →
          id ∉ newIds env' w₂.store c') ∧
    ∀ acts w₁, Run (Step host) w acts w₁ → ∀ id post', id ≤ w.store.posts.postCt.getD 0 →
      w₁.store.postView.Holds id post' → ∃ post, w.store.postView.Holds id post ∧
        post'.author = post.author ∧ post'.timestamp = post.timestamp := by
  have hix := PostsIndexed.of_reachable h
  refine ⟨fun id p hp => ?_, fun a id => (hix.listed a id).mp, fun id => ?_, ?_, ?_⟩
  · obtain ⟨hpos, hle, hid, -⟩ := hix.known id p (Or.inl hp)
    have hmem : id ∈ w.store.posts.byAuthor p.author := (hix.listed _ _).mpr ⟨p, hp, rfl⟩
    exact ⟨hpos, hle, hid, List.count_eq_one_of_mem (hix.nodup p.author) hmem⟩
  · refine ⟨fun ⟨hpost, hrem⟩ => ?_, fun ⟨hpost, hdead⟩ => ?_, fun ⟨hrem, hdead⟩ => ?_⟩
    · obtain ⟨p, hp⟩ := Store.has_iff_exists.mp hrem
      have hnone : w.store.posts.post.get id = none := hix.removed id p hp
      rw [Store.has_eq, hnone] at hpost
      cases hpost
    · have hnone : w.store.posts.post.get id = none := (hix.deleted id hdead).2.1
      rw [Store.has_eq, hnone] at hpost
      cases hpost
    · have hnone : w.store.appeals.removedPost.get id = none := (hix.deleted id hdead).2.2
      rw [Store.has_eq, hnone] at hrem
      cases hrem
  · intro env c w₁ he
    by_cases hnil : newIds env w.store c = []
    · rw [hnil]
      exact ⟨List.nodup_nil, fun id hid => absurd hid List.not_mem_nil⟩
    · obtain ⟨hids, hlast⟩ := newIds_eq he hnil
      refine ⟨by rw [hids]; exact List.nodup_range', fun id hid => ?_⟩
      rw [hids, List.mem_range'_1] at hid
      have hlt : w.store.postView.posts.lastId < id := by
        show w.store.posts.lastId < id
        omega
      obtain ⟨hfree, hsnap, hdead⟩ := hix.free_of_lt hlt
      refine ⟨⟨Store.has_eq_false_iff.mpr hfree, Store.has_eq_false_iff.mpr hsnap, hdead⟩, ?_⟩
      intro acts w₂ env' c' w₃ hrun he' hid'
      obtain ⟨hids', -⟩ := newIds_eq he' (List.ne_nil_of_mem hid')
      rw [hids', List.mem_range'_1] at hid'
      have hmono : w₁.store.posts.lastId ≤ w₂.store.posts.lastId :=
        (PostView.Later.of_run hrun).lastId
      omega
  · intro acts w₁ hrun id post' hle hp
    obtain ⟨post, hold, hauthor, htime, -⟩ := (PostView.Later.of_run hrun).holds id post' hle hp
    exact ⟨post, hold, hauthor, htime⟩

/-- `carol` writes a post, and a report by `bob` has it taken away; `alice` is the
moderator. -/
def takedown : List (Env × Call) :=
  [(signedAt 2, .createPool alice "mods" coin [alice] 1),
    (signedAt 3, .grantRole alice alice .moderator),
    (signedAt 4, .createPost carol (asciiBytes "hello")),
    (signedAt 5, .reportPost bob 1 coin 20 0),
    (signedAt 6, .reviewReport alice [alice] 1 bob .upheld)]

/-- A post comes back from an appeal after two others have been written, of which one
has been deleted again. -/
theorem posts_indexed_after_appeal :
    ∃ w : World Book, Reachable (bookHost linkora) w ∧ w.store.posts.post.has 1 = true ∧
      (w.store.posts.byAuthor carol).count 1 = 1 ∧
      w.store.appeals.removedPost.has 1 = false ∧ w.store.posts.byAuthor carol = [3, 1] := by
  have hdemo : (demo (fun _ _ _ => True) (fun _ _ => 100)
      (takedown ++ [(signedAt 7, .appealModeration carol 1 0),
        (signedAt 8, .batchCreatePost carol [asciiBytes "two", asciiBytes "three"]),
        (signedAt 9, .deletePost carol 2), (signedAt 10, .reviewAppeal alice 1 true)])).map
      (fun w => ((w.store.posts.post.get 1).map (·.author), w.store.posts.byAuthor carol)) =
      some (some carol, [3, 1]) := by rfl
  obtain ⟨w, hw, hsee⟩ := reachable_demo hdemo
  obtain ⟨hauthor, hlist⟩ := Prod.mk.inj hsee
  obtain ⟨post, hpost, hauthor⟩ := Option.map_eq_some_iff.mp hauthor
  obtain ⟨hstored, -, hexclusive, -⟩ := posts_indexed hw.reachable
  have hhas : w.store.posts.post.has 1 = true := Store.has_of_get hpost
  refine ⟨w, hw.reachable, hhas, ?_, ?_, hlist⟩
  · rw [← hauthor]
    exact (hstored 1 post hpost).2.2.2
  · rw [← Bool.not_eq_true]
    exact fun hrem => (hexclusive 1).1 ⟨hhas, hrem⟩

end Contract
end Linkora
