import Linkora.Contract.LikeCounts

/-!
# Blocked pairs and likes

`like_post` refuses a like between two users of whom one has blocked the other, and
`block_user` takes the likes between the two back, but only on posts that are stored
at the time.  A post that a review has taken away keeps its likes, and an appeal can
bring it back with them.
-/

namespace Linkora
namespace Contract

/-- No post is liked by a user in a block with its author. -/
def Unliked (s : State) : Prop :=
  ∀ id post u, s.posts.post.get id = some post →
    blocks s post.author u = true ∨ blocks s u post.author = true →
    s.likes.like.has (id, u) = false

/-- The post that a vote on an appeal brings back: the approvals reach the threshold
with it, and there is a snapshot. -/
def restored (s : State) : Call → Option (Nat × Post)
  | .reviewAppeal reviewer postId approve =>
    (s.pools.get modsPool).bind fun pool => (s.appeals.appeal.get postId).bind fun appeal =>
      if pool.threshold ≤ (recordReview appeal reviewer approve).approvers.length then
        (s.appeals.removedPost.get postId).map fun post => (postId, post)
      else none
  | _ => none

/-- What is brought back has no like by a user in a block with its author. -/
def RestoresUnliked : Condition := fun s _ c =>
  ∀ r ∈ restored s c, ∀ u, blocks s r.2.author u = true ∨ blocks s u r.2.author = true →
    s.likes.like.has (r.1, u) = false

/-! ## The sweep of a block -/

section Sweep

variable {q : Posts × Likes} {id i : Nat} {liker author : Address}

/-- The sweep leaves the authors of posts as they are and makes no like. -/
structure Swept (q q' : Posts × Likes) : Prop where
  post : ∀ i post', q'.1.post.get i = some post' →
    ∃ post, q.1.post.get i = some post ∧ post'.author = post.author
  like : ∀ key, q'.2.like.has key = true → q.2.like.has key = true

theorem Swept.refl (q : Posts × Likes) : Swept q q :=
  ⟨fun _ post' hp => ⟨post', hp, rfl⟩, fun _ h => h⟩

theorem Swept.trans {q q' q'' : Posts × Likes} (h : Swept q q') (h' : Swept q' q'') :
    Swept q q'' := by
  refine ⟨fun i post'' hp => ?_, fun key hk => h.like key (h'.like key hk)⟩
  obtain ⟨post', hp', hauthor'⟩ := h'.post i post'' hp
  obtain ⟨post, hp, hauthor⟩ := h.post i post' hp'
  exact ⟨post, hp, hauthor'.trans hauthor⟩

theorem Swept.unliked {q q' : Posts × Likes} (h : Swept q q') {key : Nat × Address}
    (hk : q.2.like.has key = false) : q'.2.like.has key = false := by
  rw [← Bool.not_eq_true] at hk ⊢
  exact fun hliked => hk (h.like key hliked)

theorem unlikeOnBlock_swept (q : Posts × Likes) (id : Nat) (liker author : Address) :
    Swept q (unlikeOnBlock q id liker author) := by
  rw [unlikeOnBlock]
  split
  · split
    · rename_i post hpost
      split
      · refine ⟨fun i post' hp => ?_, fun key hk => ?_⟩
        · have hp : (q.1.post.set id { post with likeCount := post.likeCount - 1 }).get i =
            some post' := hp
          rw [Store.get_set] at hp
          split at hp
          · rename_i hi
            rw [hi, ← Option.some.inj hp]
            exact ⟨post, hpost, rfl⟩
          · exact ⟨post', hp, rfl⟩
        · rw [Likes.swapRemove_like, Store.has_remove] at hk
          split at hk
          · cases hk
          · exact hk
      · exact .refl q
    · exact .refl q
  · exact .refl q

/-- The like is gone where the post is by the given author. -/
theorem unlikeOnBlock_clean {post : Post}
    (hp : (unlikeOnBlock q id liker author).1.post.get id = some post)
    (hauthor : post.author = author) :
    (unlikeOnBlock q id liker author).2.like.has (id, liker) = false := by
  rw [unlikeOnBlock] at hp ⊢
  split
  · rename_i hliked
    rw [if_pos hliked] at hp
    split at hp
    · rename_i post₀ hpost₀
      split at hp
      · rename_i hauthor₀
        rw [if_pos hauthor₀, Likes.swapRemove_like, Store.has_remove, if_pos rfl]
      · rename_i hauthor₀
        rw [hpost₀, Option.some.injEq] at hp
        exact absurd (hp ▸ hauthor) hauthor₀
    · rename_i hnone
      rw [hnone] at hp
      cases hp
  · rename_i hliked
    exact Bool.not_eq_true _ ▸ hliked

/-- Neither of the two likes post `i` if the other has written it. -/
def Clean (q : Posts × Likes) (a b : Address) (i : Nat) : Prop :=
  ∀ post, q.1.post.get i = some post →
    (post.author = b → q.2.like.has (i, a) = false) ∧
      (post.author = a → q.2.like.has (i, b) = false)

theorem Clean.swept {q' : Posts × Likes} {a b : Address} (h : Clean q a b i)
    (hs : Swept q q') : Clean q' a b i := by
  intro post' hp
  obtain ⟨post, hpost, hauthor⟩ := hs.post i post' hp
  obtain ⟨ha, hb⟩ := h post hpost
  exact ⟨fun e => hs.unliked (ha (hauthor ▸ e)), fun e => hs.unliked (hb (hauthor ▸ e))⟩

/-- The sweep over a list of posts cleans each of them, and soils none. -/
theorem foldl_unlikeOnBlock (a b : Address) (ids : List Nat) (q : Posts × Likes) :
    Swept q (ids.foldl (fun s id => unlikeOnBlock (unlikeOnBlock s id a b) id b a) q) ∧
      ∀ i ∈ ids, Clean
        (ids.foldl (fun s id => unlikeOnBlock (unlikeOnBlock s id a b) id b a) q) a b i := by
  induction ids generalizing q with
  | nil => exact ⟨.refl q, nofun⟩
  | cons id ids ih =>
    have hfirst := unlikeOnBlock_swept q id a b
    have hsecond := unlikeOnBlock_swept (unlikeOnBlock q id a b) id b a
    obtain ⟨hswept, hclean⟩ := ih (unlikeOnBlock (unlikeOnBlock q id a b) id b a)
    refine ⟨(hfirst.trans hsecond).trans hswept, fun i hi => ?_⟩
    rcases List.mem_cons.mp hi with rfl | hi
    · refine Clean.swept (fun post hpost => ⟨fun hauthor => ?_, fun hauthor => ?_⟩) hswept
      · obtain ⟨post₀, hpost₀, hauthor₀⟩ := hsecond.post i post hpost
        exact hsecond.unliked (unlikeOnBlock_clean hpost₀ (hauthor₀ ▸ hauthor))
      · exact unlikeOnBlock_clean hpost hauthor
    · exact hclean i hi

end Sweep

/-! ## What the calls do to the likes of a stored post -/

theorem PostEdit.like_of_like {tips : Bool} {v v' : PostView} (he : PostEdit tips v v')
    {key : Nat × Address} (hk : v'.likes.like.has key = true) : v.likes.like.has key = true := by
  cases he with
  | note | release | relist | add | tip | delete | takeAway | restore => exact hk
  | drain id likes dead pruned => exact pruned.like key hk
  | retire user ids id likes listed pruned => exact pruned.like key hk
  | unlike id post liker stored liked =>
    rw [Likes.swapRemove_like, Store.has_remove] at hk
    split at hk
    · cases hk
    · exact hk

section Calls

variable {σ : Type} {host : Host σ} {env : Env} {w w' : World σ} {c : Call}

/-- Only `like_post` makes a like. -/
theorem exec_like_of_like (he : exec host env w c = .ok w') (hc : ∀ user id, c ≠ .likePost user id)
    {key : Nat × Address} (hk : w'.store.likes.like.has key = true) :
    w.store.likes.like.has key = true := by
  have hedits := exec_postEdits he hc
  have hback : ∀ v, PostEdits c.tips v w'.store.postView → v.likes.like.has key = true := by
    intro v hv
    induction hv using Relation.ReflTransGen.head_induction_on with
    | refl => exact hk
    | head hfirst _ ih => exact hfirst.like_of_like ih
  exact hback _ hedits

theorem exec_unliked (he : exec host env w c = .ok w') (hc : ∀ user id, c ≠ .likePost user id)
    {key : Nat × Address} (hk : w.store.likes.like.has key = false) :
    w'.store.likes.like.has key = false := by
  rw [← Bool.not_eq_true] at hk ⊢
  exact fun hliked => hk (exec_like_of_like he hc hliked)

/-- A snapshot stays until an appeal is decided. -/
theorem exec_removed (hix : PostsIndexed w.store.postView) (he : exec host env w c = .ok w')
    (hc : ∀ reviewer id approve, c ≠ .reviewAppeal reviewer id approve) {id : Nat} {post : Post}
    (hp : w.store.appeals.removedPost.get id = some post) :
    w'.store.appeals.removedPost.get id = some post := by
  cases c with
  | reviewAppeal reviewer i approve => exact absurd rfl (hc reviewer i approve)
  | appealModeration appellant i reasonHash =>
    obtain ⟨appeal, events, hs⟩ := appealModeration_ok (World.onStore_eq_ok.mp he).1
    rw [hs]
    exact hp
  | reviewReport moderator signers i reporter verdict =>
    obtain ⟨-, pool, report, v, -, -, -, -, hv, rfl⟩ := reviewReport_ok he
    obtain ⟨posts, appeals, events, hs, hcase⟩ := resolveReport_store hv
    show v.store.appeals.removedPost.get id = some post
    rw [hs]
    rcases hcase with ⟨-, -, rfl⟩ | ⟨taken, -, htaken, -, rfl⟩
    · exact hp
    · exact (Store.get_set_of_ne (hix.ne_of_removed htaken hp) taken).trans hp
  | _ =>
    have happeals : w'.store.appeals = w.store.appeals :=
      exec_frame (p := .appeals) he (by simp [Call.parts])
    rw [happeals]
    exact hp

/-- A post that is stored after a call other than a vote on an appeal was stored
before it, or is new. -/
theorem exec_stored (hix : PostsIndexed w.store.postView) (he : exec host env w c = .ok w')
    (hc : ∀ reviewer id approve, c ≠ .reviewAppeal reviewer id approve) {id : Nat} {post' : Post}
    (hp : w'.store.posts.post.get id = some post') :
    (∃ post, w.store.posts.post.get id = some post ∧ post'.author = post.author) ∨
      w.store.posts.lastId < id := by
  by_cases hle : id ≤ w.store.posts.lastId
  · have hlater := PostView.Later.of_exec he
    obtain ⟨post, hold, hauthor, -⟩ := hlater.holds id post' hle (Or.inl hp)
    rcases hold with hstored | hsnap
    · exact Or.inl ⟨post, hstored, hauthor⟩
    · have hkept := exec_removed hix he hc hsnap
      have hnone : w'.store.posts.post.get id = none := (hix.call he).removed id post hkept
      rw [hnone] at hp
      cases hp
  · exact Or.inr (by omega)

/-- A vote on an appeal stores a post again, or none. -/
theorem reviewAppeal_stored {reviewer : Address} {postId : Nat} {approve : Bool} {s s' : State}
    (h : reviewAppeal env s reviewer postId approve = .ok s') {id : Nat} {post : Post}
    (hp : s'.posts.post.get id = some post) :
    s.posts.post.get id = some post ∨
      restored s (.reviewAppeal reviewer postId approve) = some (id, post) := by
  obtain ⟨-, pool, appeal, hpool, -, happeal, -, rfl⟩ := reviewAppeal_eq h
  rw [restored, hpool, happeal]
  unfold settleAppeal at hp
  by_cases hreached : pool.threshold ≤ (recordReview appeal reviewer approve).approvers.length
  · rw [if_pos hreached] at hp
    have hp : (restoreModeratedPost s postId).posts.post.get id = some post := hp
    show _ ∨ (if pool.threshold ≤ _ then _ else none) = some (id, post)
    rw [if_pos hreached]
    cases hsnap : s.appeals.removedPost.get postId with
    | none =>
      rw [restoreModeratedPost, hsnap] at hp
      exact Or.inl hp
    | some snap =>
      rw [restoreModeratedPost, hsnap] at hp
      have hp : (s.posts.post.set postId snap).get id = some post := hp
      rw [Store.get_set] at hp
      split at hp
      · rename_i hi
        rw [hi, ← Option.some.inj hp]
        exact Or.inr rfl
      · exact Or.inl hp
  · rw [if_neg hreached] at hp
    refine Or.inl ?_
    split at hp
    · exact hp
    · exact hp

/-- `like_post` refuses the likes in question. -/
theorem Unliked.likePost {s s' : State} {user : Address} {postId : Nat} (h : Unliked s)
    (hs : likePost env s user postId = .ok s') : Unliked s' := by
  intro id post u hp hblocked
  rcases likePost_ok hs with ⟨-, hs⟩ | ⟨liked, -, stored, hau, hua, hs⟩
  · rw [hs] at hp hblocked ⊢
    exact h id post u hp hblocked
  · have hblocks : ∀ x y, blocks s' x y = blocks s x y := by
      intro x y
      rw [hs]
      rfl
    rw [hblocks, hblocks] at hblocked
    rw [hs] at hp ⊢
    have hp : (s.posts.post.set postId { liked with likeCount := liked.likeCount + 1 }).get id =
      some post := hp
    show (s.likes.like.set (postId, user) true).has (id, u) = false
    rw [Store.get_set] at hp
    rw [Store.has_set]
    split at hp
    · rename_i hi
      rw [← Option.some.inj hp] at hblocked
      have hne : (id, u) ≠ (postId, user) := by
        intro e
        rw [(Prod.mk.inj e).2, hau, hua] at hblocked
        rcases hblocked with hb | hb
        · cases hb
        · cases hb
      rw [if_neg hne]
      exact h id liked u (hi ▸ stored) hblocked
    · rename_i hi
      have hne : (id, u) ≠ (postId, user) := fun e => hi (Prod.mk.inj e).1
      rw [if_neg hne]
      exact h id post u hp hblocked

/-- `block_user` sweeps every stored post, as the ids run up to the last one. -/
theorem Unliked.blockUser {s s' : State} {a b : Address} (h : Unliked s)
    (hix : PostsIndexed s.postView) (hs : blockUser env s a b = .ok s') : Unliked s' := by
  intro id post u hp hblocked
  obtain ⟨-, graph, -, hs⟩ := blockUser_ok hs
  obtain ⟨hswept, hclean⟩ := foldl_unlikeOnBlock a b
    (List.range' 1 (s.posts.postCt.getD 0)) (s.posts, s.likes)
  have hblocks : ∀ x y, blocks s' x y = true ↔
      blocks s x y = true ∨ (x = a ∧ y = b) := blocks_set (by rw [hs]; rfl)
  rw [hs] at hp ⊢
  obtain ⟨post₀, hpost₀, hauthor₀⟩ := hswept.post id post hp
  have hold : blocks s post.author u = true ∨ blocks s u post.author = true →
      (cleanupLikesOnBlock (s.posts, s.likes) a b).2.like.has (id, u) = false := by
    intro hb
    rw [hauthor₀] at hb
    exact hswept.unliked (h id post₀ u hpost₀ hb)
  have hmem : id ∈ List.range' 1 (s.posts.postCt.getD 0) := by
    obtain ⟨hpos, hle, -⟩ := hix.known id post₀ (Or.inl hpost₀)
    have hle : id ≤ s.posts.postCt.getD 0 := hle
    rw [List.mem_range'_1]
    omega
  obtain ⟨hcleanA, hcleanB⟩ := hclean id hmem post hp
  rcases hblocked with hb | hb
  · rcases (hblocks post.author u).mp hb with hb | ⟨hauthor, rfl⟩
    · exact hold (Or.inl hb)
    · exact hcleanB hauthor
  · rcases (hblocks u post.author).mp hb with hb | ⟨rfl, hauthor⟩
    · exact hold (Or.inr hb)
    · exact hcleanA hauthor

theorem Unliked.call (h : Unliked w.store) (hix : PostsIndexed w.store.postView)
    (hlikes : LikesObey Tallied w.store.postView) (hc : RestoresUnliked w.store env c)
    (he : exec host env w c = .ok w') : Unliked w'.store := by
  cases c with
  | likePost user i => exact h.likePost (World.onStore_eq_ok.mp he).1
  | blockUser a b => exact h.blockUser hix (World.onStore_eq_ok.mp he).1
  | reviewAppeal reviewer i approve =>
    intro id post u hp hblocked
    have hold := exec_blocks he (fun _ _ => nofun)
    have hblocked := hblocked.imp (hold post.author u) (hold u post.author)
    apply exec_unliked he (fun _ _ => nofun)
    rcases reviewAppeal_stored (World.onStore_eq_ok.mp he).1 hp with hstored | hback
    · exact h id post u hstored hblocked
    · exact hc (id, post) hback u hblocked
  | _ =>
    intro id post u hp hblocked
    have hold := exec_blocks he (fun _ _ => nofun)
    have hblocked := hblocked.imp (hold post.author u) (hold u post.author)
    apply exec_unliked he (fun _ _ => nofun)
    rcases exec_stored hix he (fun _ _ _ => nofun) hp with ⟨post₀, hpost₀, hauthor⟩ | hlt
    · rw [hauthor] at hblocked
      exact h id post₀ u hpost₀ hblocked
    · -- A new post has no likes yet.
      rw [← Bool.not_eq_true]
      intro hliked
      have hle : id ≤ w.store.posts.lastId := hlikes.likes id u hliked
      omega

end Calls

theorem LikesObey.tallied {σ : Type} {host : Host σ} {w : World σ} (h : Reachable host w) :
    LikesObey Tallied w.store.postView :=
  .of_reachableUnder Tallied.likeLaw (fun _ _ _ _ _ _ _ hnew hlaw => hlaw.add hnew) h.under

theorem Unliked.of_reachableUnder {σ : Type} {host : Host σ} {w : World σ}
    (h : ReachableUnder host RestoresUnliked w) : Unliked w.store := by
  refine h.store_induction (I := Unliked) ?_ ?_
  · intro s env admin treasury feeBps hs id post u hp
    obtain ⟨-, -, access, events, rfl⟩ := initializeContract_ok hs
    cases hp
  · intro w env c w' hr hw hc he
    exact hw.call (.of_reachable hr.reachable) (.tallied hr.reachable) hc he

/-- In every state reached by calls of which none brings back a post that is liked by
a user in a block with its author: where one of the author and a user has blocked the
other, the user has no like on the post, and the number in the post is that of the
likes by others. -/
theorem blocked_share_no_like {σ : Type} {host : Host σ} {w : World σ}
    (h : ReachableUnder host RestoresUnliked w) {id : Nat} {post : Post} {u : Address}
    (stored : w.store.posts.post.get id = some post)
    (hblocked : isBlocked w.store post.author u = .ok true ∨
      isBlocked w.store u post.author = .ok true) :
    hasLiked w.store u id = .ok false ∧
      post.likeCount = {x | x ≠ u ∧ w.store.likes.like.has (id, x) = true}.ncard := by
  have hpos := ((PostsIndexed.of_reachable h.reachable).known id post (Or.inl stored)).1
  have hfacts : isZeroAddress u = false ∧
      (blocks w.store post.author u = true ∨ blocks w.store u post.author = true) := by
    rcases hblocked with hb | hb
    · obtain ⟨-, hzero, hb⟩ := isBlocked_eq_ok.mp hb
      exact ⟨hzero, Or.inl hb⟩
    · obtain ⟨hzero, -, hb⟩ := isBlocked_eq_ok.mp hb
      exact ⟨hzero, Or.inr hb⟩
  have hlike := Unliked.of_reachableUnder h id post u stored hfacts.2
  constructor
  · simp only [hasLiked, Checked.bind_eq_ok, Checked.pure_eq_ok, validateNonDefaultAddress_eq_ok,
      requireWithError_eq_ok, exists_const]
    exact ⟨hfacts.1, hpos, hlike⟩
  · have hcount : Tallied w.store.likes id post.likeCount :=
      (LikesObey.tallied h.reachable).law id post (Or.inl stored)
    have hset : {x | x ≠ u ∧ w.store.likes.like.has (id, x) = true} =
        w.store.likes.likers id := by
      ext x
      show x ≠ u ∧ w.store.likes.like.has (id, x) = true ↔ w.store.likes.like.has (id, x) = true
      refine ⟨And.right, fun hx => ⟨fun e => ?_, hx⟩⟩
      rw [e, hlike] at hx
      cases hx
    rw [hset]
    exact hcount

/-- `bob` likes a post by `carol`, who then blocks him. -/
theorem blocked_share_no_like_after_block :
    ∃ w : World Book, ReachableUnder (bookHost linkora) RestoresUnliked w ∧
      ∃ post, w.store.posts.post.get 1 = some post ∧
        isBlocked w.store post.author bob = .ok true ∧ hasLiked w.store bob 1 = .ok false := by
  have hdemo : (demo (fun s _ c => restored s c = none) (fun _ _ => 0)
      [(signedAt 2, .createPost carol (asciiBytes "hello")), (signedAt 3, .likePost bob 1),
        (signedAt 4, .blockUser carol bob)]).map
      (fun w => ((w.store.posts.post.get 1).map (·.author),
        decide (isBlocked w.store carol bob = .ok true))) = some (some carol, true) := by rfl
  obtain ⟨w, hw, hsee⟩ := reachable_demo hdemo
  obtain ⟨hauthor, hblocked⟩ := Prod.mk.inj hsee
  obtain ⟨post, hpost, hauthor⟩ := Option.map_eq_some_iff.mp hauthor
  have hw' : ReachableUnder (bookHost linkora) RestoresUnliked w := by
    refine hw.mono fun s env c hnone r hr => ?_
    rw [hnone] at hr
    cases hr
  have hblocked : isBlocked w.store post.author bob = .ok true := by
    rw [hauthor]
    exact of_decide_eq_true hblocked
  exact ⟨w, hw', post, hpost, hblocked, (blocked_share_no_like hw' hpost (Or.inl hblocked)).1⟩

/-- `bob` likes a post by `carol`; while a review has taken the post away she blocks
him, and her appeal brings it back with his like. -/
theorem restored_post_keeps_blocked_like :
    ¬∀ (w : World Book) (id : Nat) (post : Post) (u : Address), Reachable (bookHost linkora) w →
      w.store.posts.post.get id = some post →
      isBlocked w.store post.author u = .ok true ∨ isBlocked w.store u post.author = .ok true →
      hasLiked w.store u id = .ok false ∧
        post.likeCount = {x | x ≠ u ∧ w.store.likes.like.has (id, x) = true}.ncard := by
  intro hclaim
  have hdemo : (demo (fun _ _ _ => True) (fun _ _ => 100)
      [(signedAt 2, .createPool alice "mods" coin [alice] 1),
        (signedAt 3, .grantRole alice alice .moderator),
        (signedAt 4, .createPost carol (asciiBytes "hello")), (signedAt 5, .likePost bob 1),
        (signedAt 6, .reportPost alice 1 coin 20 0),
        (signedAt 7, .reviewReport alice [alice] 1 alice .upheld),
        (signedAt 8, .blockUser carol bob), (signedAt 9, .appealModeration carol 1 0),
        (signedAt 10, .reviewAppeal alice 1 true)]).map
      (fun w => ((w.store.posts.post.get 1).map (·.author),
        decide (isBlocked w.store carol bob = .ok true),
        decide (hasLiked w.store bob 1 = .ok true))) = some (some carol, true, true) := by rfl
  obtain ⟨w, hw, hsee⟩ := reachable_demo hdemo
  simp only [Prod.mk.injEq, decide_eq_true_eq] at hsee
  obtain ⟨hauthor, hblocked, hliked⟩ := hsee
  obtain ⟨post, hpost, hauthor⟩ := Option.map_eq_some_iff.mp hauthor
  have hfalse := (hclaim w 1 post bob hw.reachable hpost (Or.inl (hauthor ▸ hblocked))).1
  rw [hliked] at hfalse
  cases hfalse

end Contract
end Linkora
