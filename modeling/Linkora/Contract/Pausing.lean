import Linkora.Contract.Nullifiers
import Linkora.Contract.BlockedLikes

/-!
# What a pause stops

Most entry points ask for one module before they write, and abort while it is
stopped.  Some write entries of a module that they do not ask for: blocking edits
likes, a tip edits its post, registering edits the counts of the follow graph, and
moderation and the cleanups ask for none.  Each family of entries is set against
every call here, with what the call has to find there to change it.
-/

namespace Linkora
namespace Contract

/-- Stopped by the global flag, or by the module's own bit. -/
def Stopped (s : State) (m : PauseModule) : Prop := isPaused s = true ∨ isModulePaused s m = true

theorem Stopped.not_running {s : State} {m : PauseModule} (h : Stopped s m) : ¬Running s m := by
  intro hrun
  rcases h with h | h
  · rw [hrun.1] at h
    cases h
  · rw [hrun.2] at h
    cases h

/-- The families of entries that belong to a module; `tipTotal` is a field of the
posts, and `likers`, `following` and `followers` are the index families. -/
inductive Family where
  | post
  | authorPosts
  | like
  | likers
  | committedPost
  | contentHash
  | tipCooldown
  | tipTotal
  | pool
  | govConfig
  | govProposal
  | govVote
  | govDelegation
  | credentialRoot
  | credentialEpoch
  | nullifierSet
  | credentialAuthority
  | edge
  | following
  | followers
  | blocks
  deriving DecidableEq

namespace Family

/-- The module that the family belongs to. -/
def owner : Family → PauseModule
  | .post | .authorPosts | .like | .likers | .committedPost | .contentHash => .posts
  | .tipCooldown | .tipTotal => .tips
  | .pool => .pools
  | .govConfig | .govProposal | .govVote | .govDelegation => .governance
  | .credentialRoot | .credentialEpoch | .nullifierSet | .credentialAuthority => .credentials
  | .edge | .following | .followers | .blocks => .social

/-- The group of the storage that holds the family. -/
def part : Family → Part
  | .post | .authorPosts | .committedPost | .contentHash | .tipTotal => .posts
  | .like | .likers => .likes
  | .tipCooldown => .tips
  | .pool => .pools
  | .govConfig | .govProposal | .govVote | .govDelegation => .gov
  | .credentialRoot | .credentialEpoch | .nullifierSet | .credentialAuthority => .credentials
  | .edge | .following | .followers => .graph
  | .blocks => .blocks

/-- The family reads the same before and after a call.  A temporary entry reads as
missing once its lifetime has run out, and the tips of a post are looked at where it
is stored both times. -/
def Same (env : Env) (s s' : State) : Family → Prop
  | .post => s'.posts.post = s.posts.post
  | .authorPosts => s'.posts.authorPosts = s.posts.authorPosts
  | .like => s'.likes.like = s.likes.like
  | .likers =>
    s'.likes.likersCount = s.likes.likersCount ∧ s'.likes.likersIdx = s.likes.likersIdx
  | .committedPost => s'.posts.committedPost = s.posts.committedPost
  | .contentHash => s'.posts.contentHash = s.posts.contentHash
  | .tipCooldown => ∀ key, liveCooldown env s'.tips key = liveCooldown env s.tips key
  | .tipTotal => ∀ id post post', s.posts.post.get id = some post →
      s'.posts.post.get id = some post' → post'.tipTotal = post.tipTotal
  | .pool => s'.pools = s.pools
  | .govConfig => s'.gov.config = s.gov.config
  | .govProposal => s'.gov.proposal = s.gov.proposal
  | .govVote => s'.gov.vote = s.gov.vote
  | .govDelegation => s'.gov.delegation = s.gov.delegation
  | .credentialRoot => s'.credentials.root = s.credentials.root
  | .credentialEpoch => s'.credentials.epoch = s.credentials.epoch
  | .nullifierSet => s'.credentials.nullifier = s.credentials.nullifier
  | .credentialAuthority => s'.credentials.authority = s.credentials.authority
  | .edge => s'.graph.edge = s.graph.edge
  | .following =>
    s'.graph.following = s.graph.following ∧ s'.graph.legacyFollowing = s.graph.legacyFollowing
  | .followers =>
    s'.graph.followers = s.graph.followers ∧ s'.graph.legacyFollowers = s.graph.legacyFollowers
  | .blocks => s'.blocks = s.blocks

theorem same_of_sameOn {env : Env} {s s' : State} {f : Family} (h : s.SameOn s' f.part) :
    f.Same env s s' := by
  cases f with
  | likers =>
    have h : s'.likes = s.likes := h
    exact ⟨by rw [h], by rw [h]⟩
  | following | followers =>
    have h : s'.graph = s.graph := h
    exact ⟨by rw [h], by rw [h]⟩
  | tipCooldown =>
    have h : s'.tips = s.tips := h
    intro key
    rw [h]
  | tipTotal =>
    have h : s'.posts = s.posts := h
    intro id post post' hp hp'
    rw [h, hp, Option.some.injEq] at hp'
    rw [hp']
  | pool | blocks => exact h
  | post => exact congrArg Posts.post h
  | authorPosts => exact congrArg Posts.authorPosts h
  | committedPost => exact congrArg Posts.committedPost h
  | contentHash => exact congrArg Posts.contentHash h
  | like => exact congrArg Likes.like h
  | govConfig => exact congrArg Gov.config h
  | govProposal => exact congrArg Gov.proposal h
  | govVote => exact congrArg Gov.vote h
  | govDelegation => exact congrArg Gov.delegation h
  | credentialRoot => exact congrArg Credentials.root h
  | credentialEpoch => exact congrArg Credentials.epoch h
  | nullifierSet => exact congrArg Credentials.nullifier h
  | credentialAuthority => exact congrArg Credentials.authority h
  | edge => exact congrArg Graph.edge h

end Family

/-- The module that an entry point asks for before it writes. -/
def Call.asksFor : Call → Option PauseModule
  | .createPost .. | .batchCreatePost .. | .setPostContentHash .. | .commitPost ..
  | .revealPost .. | .deletePost .. | .likePost .. => some .posts
  | .tip .. | .setTipCooldownWindow .. => some .tips
  | .createPool .. | .poolDeposit .. | .poolWithdraw .. | .addPoolAdmin .. | .removePoolAdmin ..
  | .updatePoolThreshold .. => some .pools
  | .setFee .. | .setTreasury .. | .govPropose .. | .govVote .. | .govDelegate ..
  | .govExecute .. | .govVeto .. | .upgrade .. => some .governance
  | .setCredentialAuthority .. | .updateCredentialRoot .. => some .credentials
  | .follow .. | .unfollow .. | .blockUser .. | .unblockUser .. => some .social
  | _ => none

/-- The call has something to change in the family without asking for its module. -/
def Reaches {σ : Type} (host : Host σ) (env : Env) (s : State) (c : Call) : Family → Prop
  | .post => match c with
    | .blockUser blocker blocked => ¬∀ id, Clean (s.posts, s.likes) blocker blocked id
    | .tip _ _ _ amount => tipFee amount (getFeeBps s) ≠ .ok amount
    | .batchCleanupProfile user _ => s.posts.authorPosts.has user = true
    | .reviewReport _ _ postId _ verdict => verdict = .upheld ∧ s.posts.post.has postId = true
    | .reviewAppeal .. => restored s c ≠ none
    | _ => False
  | .authorPosts => match c with
    | .batchCleanupProfile user _ => s.posts.authorPosts.has user = true
    | .reviewReport _ _ postId _ verdict => verdict = .upheld ∧ s.posts.post.has postId = true
    | .reviewAppeal .. => restored s c ≠ none
    | _ => False
  | .like | .likers => match c with
    | .blockUser blocker blocked => ¬∀ id, Clean (s.posts, s.likes) blocker blocked id
    | .batchCleanupPost postId _ => s.likes.likersCount.has postId = true
    | .batchCleanupProfile user _ => s.posts.authorPosts.has user = true
    | _ => False
  | .tipCooldown => match c with
    | .batchCleanupPost postId _ =>
      ∃ tipper token, (liveCooldown env s.tips (postId, tipper, token)).isSome = true
    | .batchCleanupProfile user _ => ∃ postId ∈ s.posts.byAuthor user,
      ∃ tipper token, (liveCooldown env s.tips (postId, tipper, token)).isSome = true
    | _ => False
  | .govConfig => match c with
    | .govInitConfig _ quorum timeLockLedgers voteWindowLedgers quorumDecayRateBps quorumFloor =>
      s.gov.config ≠ some ⟨quorum, timeLockLedgers, voteWindowLedgers, quorumDecayRateBps,
        quorumFloor, 0⟩
    | _ => False
  | .govDelegation => match c with
    | .govRevokeDelegation delegator => s.gov.delegation.has delegator = true
    | _ => False
  | .credentialRoot => match c with
    | .deleteProfile user => s.credentials.root.has user = true
    | _ => False
  | .nullifierSet => match c with
    | .verifyCredential user proof leaf nullifier => Proves host s user proof leaf nullifier
    | .pruneNullifiers user epoch nullifiers =>
      ∃ nullifier ∈ nullifiers, s.credentials.nullifier.has (user, epoch, nullifier) = true
    | _ => False
  | .edge => match c with
    | .batchCleanupProfile user _ =>
      0 < s.graph.followers.size user ∨ 0 < s.graph.following.size user
    | _ => False
  | .following => match c with
    | .setProfile user _ _ =>
      s.profiles.profile.has user = false ∧ s.graph.following.count.get user ≠ some 0
    | .batchCleanupProfile user _ =>
      0 < s.graph.followers.size user ∨ s.graph.following.count.get user ≠ some 0
    | _ => False
  | .followers => match c with
    | .setProfile user _ _ =>
      s.profiles.profile.has user = false ∧ s.graph.followers.count.get user ≠ some 0
    | .batchCleanupProfile user _ =>
      0 < s.graph.following.size user ∨ s.graph.followers.count.get user ≠ some 0
    | _ => False
  | .blocks => match c with
    | .deleteProfile user => s.blocks.has user = true
    | _ => False
  | .committedPost | .contentHash | .tipTotal | .pool | .govProposal | .govVote
  | .credentialEpoch | .credentialAuthority => False

/-! ## Who asks -/

section Asking

variable {σ : Type} {host : Host σ} {env : Env} {w w' : World σ} {c : Call} {m : PauseModule}

theorem asks (s : State) (m : PauseModule) :
    Checked.Ensures (Running s m) (requireNotPaused s m) :=
  fun _ h => requireNotPaused_eq_ok.mp h

theorem World.onStore_ensures {P : Prop} {r : Except Panic State} (h : Checked.Ensures P r) :
    Checked.Ensures P (w.onStore r) :=
  fun _ hr => h _ (World.onStore_eq_ok.mp hr).1

/-- A call that succeeds finds the module it asks for running. -/
theorem exec_running (he : exec host env w c = .ok w') (hm : c.asksFor = some m) :
    Running w.store m := by
  have hasks : Checked.Ensures (Running w.store m) (exec host env w c) := by
    cases c with
    | setCredentialAuthority | updateCredentialRoot | createPool | addPoolAdmin
    | removePoolAdmin | updatePoolThreshold | govVote | govDelegate | govExecute | govVeto =>
      obtain rfl := Option.some.inj hm
      apply World.onStore_ensures
      exact .first (asks _ _)
    | follow | unfollow | blockUser | unblockUser | setFee | setTreasury | setTipCooldownWindow =>
      obtain rfl := Option.some.inj hm
      apply World.onStore_ensures
      exact .later fun _ => .later fun _ => .later fun _ => .later fun _ => .first (asks _ _)
    | createPost | batchCreatePost =>
      obtain rfl := Option.some.inj hm
      apply World.onStore_ensures
      exact .map (.later fun _ => .later fun _ => .later fun _ => .first (asks _ _))
    | setPostContentHash | revealPost | deletePost | likePost =>
      obtain rfl := Option.some.inj hm
      apply World.onStore_ensures
      exact .later fun _ => .later fun _ => .later fun _ => .first (asks _ _)
    | commitPost =>
      obtain rfl := Option.some.inj hm
      apply World.onStore_ensures
      exact .map (.later fun _ => .later fun _ => .first (asks _ _))
    | tip | poolDeposit | poolWithdraw =>
      obtain rfl := Option.some.inj hm
      exact .first (asks _ _)
    | govPropose =>
      obtain rfl := Option.some.inj hm
      apply World.onStore_ensures
      exact .map (.first (asks _ _))
    | upgrade =>
      obtain rfl := Option.some.inj hm
      apply World.onStore_ensures
      exact .later fun _ => .later fun _ => .later fun _ => .later fun _ => .later fun _ =>
        .later fun _ => .first (asks _ _)
    | _ => cases hm
  exact hasks w' he

end Asking

/-! ## What the others do to the posts and the likes -/

/-- The posts differ in nothing but the posts themselves. -/
def Posts.SameNotes (p p' : Posts) : Prop :=
  p'.authorPosts = p.authorPosts ∧ p'.committedPost = p.committedPost ∧
    p'.contentHash = p.contentHash

theorem unlikeOnBlock_sameNotes {p : Posts} {q : Posts × Likes} (h : p.SameNotes q.1) (id : Nat)
    (liker author : Address) : p.SameNotes (unlikeOnBlock q id liker author).1 := by
  unfold unlikeOnBlock
  split
  · split
    · split
      · exact h
      · exact h
    · exact h
  · exact h

theorem cleanupLikesOnBlock_sameNotes (q : Posts × Likes) (a b : Address) :
    q.1.SameNotes (cleanupLikesOnBlock q a b).1 := by
  have hfold : ∀ (ids : List Nat) (r : Posts × Likes), q.1.SameNotes r.1 →
      q.1.SameNotes
        (ids.foldl (fun s id => unlikeOnBlock (unlikeOnBlock s id a b) id b a) r).1 := by
    intro ids
    induction ids with
    | nil => exact fun r hr => hr
    | cons id ids ih =>
      intro r hr
      exact ih _ (unlikeOnBlock_sameNotes (unlikeOnBlock_sameNotes hr id a b) id b a)
  exact hfold _ q ⟨rfl, rfl, rfl⟩

theorem unlikeOnBlock_of_clean {q : Posts × Likes} {id : Nat} {liker author : Address}
    (h : ∀ post, q.1.post.get id = some post → post.author = author →
      q.2.like.has (id, liker) = false) : unlikeOnBlock q id liker author = q := by
  unfold unlikeOnBlock
  split
  · rename_i hliked
    split
    · rename_i post hpost
      split
      · rename_i hauthor
        rw [h post hpost hauthor] at hliked
        cases hliked
      · rfl
    · rfl
  · rfl

/-- Where neither has liked a post of the other, a block changes none of both. -/
theorem cleanupLikesOnBlock_of_clean {q : Posts × Likes} {a b : Address}
    (h : ∀ id, Clean q a b id) : cleanupLikesOnBlock q a b = q := by
  have hfold : ∀ ids : List Nat,
      ids.foldl (fun s id => unlikeOnBlock (unlikeOnBlock s id a b) id b a) q = q := by
    intro ids
    induction ids with
    | nil => rfl
    | cons id ids ih =>
      rw [List.foldl_cons, unlikeOnBlock_of_clean fun post hpost => (h id post hpost).1,
        unlikeOnBlock_of_clean fun post hpost => (h id post hpost).2]
      exact ih
  exact hfold _

/-- A vote on an appeal leaves the notes on the posts, and everything of them if it
brings none back. -/
theorem reviewAppeal_posts {env : Env} {s s' : State} {reviewer : Address} {postId : Nat}
    {approve : Bool} (h : reviewAppeal env s reviewer postId approve = .ok s') :
    s'.posts.committedPost = s.posts.committedPost ∧
      s'.posts.contentHash = s.posts.contentHash ∧
      (restored s (.reviewAppeal reviewer postId approve) = none → s'.posts = s.posts) := by
  obtain ⟨-, pool, appeal, hpool, -, happeal, -, rfl⟩ := reviewAppeal_eq h
  have hrestored : restored s (.reviewAppeal reviewer postId approve) =
      if pool.threshold ≤ (recordReview appeal reviewer approve).approvers.length then
        (s.appeals.removedPost.get postId).map fun post => (postId, post)
      else none := by
    rw [restored, hpool, happeal]
    rfl
  rw [hrestored]
  unfold settleAppeal
  split
  · show (restoreModeratedPost s postId).posts.committedPost = _ ∧
      (restoreModeratedPost s postId).posts.contentHash = _ ∧
      (_ → (restoreModeratedPost s postId).posts = s.posts)
    rw [restoreModeratedPost]
    cases s.appeals.removedPost.get postId with
    | none => exact ⟨rfl, rfl, fun _ => rfl⟩
    | some post => exact ⟨rfl, rfl, by simp⟩
  · split
    · exact ⟨rfl, rfl, fun _ => rfl⟩
    · exact ⟨rfl, rfl, fun _ => rfl⟩

/-- A review leaves the notes on the posts, and everything of them unless it upholds a
report on a stored post. -/
theorem reviewReport_posts {σ : Type} {host : Host σ} {env : Env} {w w' : World σ}
    {moderator reporter : Address} {signers : List Address} {postId : Nat}
    {verdict : ReportStatus}
    (h : reviewReport host env w moderator signers postId reporter verdict = .ok w') :
    w'.store.posts.committedPost = w.store.posts.committedPost ∧
      w'.store.posts.contentHash = w.store.posts.contentHash ∧
      (¬(verdict = .upheld ∧ w.store.posts.post.has postId = true) →
        w'.store.posts = w.store.posts) := by
  obtain ⟨-, pool, report, v, -, -, -, -, hv, rfl⟩ := reviewReport_ok h
  obtain ⟨posts, appeals, events, hs, hcase⟩ := resolveReport_store hv
  show v.store.posts.committedPost = _ ∧ v.store.posts.contentHash = _ ∧
    (_ → v.store.posts = w.store.posts)
  rw [hs]
  rcases hcase with ⟨-, rfl, -⟩ | ⟨post, hupheld, hpost, rfl, -⟩
  · exact ⟨rfl, rfl, fun _ => rfl⟩
  · exact ⟨rfl, rfl, fun hnot => absurd ⟨hupheld, Store.has_of_get hpost⟩ hnot⟩

/-- The cleanup of a post without an index of likers leaves the likes. -/
theorem batchCleanupPost_likes {s s' : State} {postId maxEntries : Nat}
    (h : batchCleanupPost s postId maxEntries = .ok s')
    (hnone : s.likes.likersCount.get postId = none) : s'.likes = s.likes := by
  obtain ⟨-, likes, reports, tips, deletedPost, hlikes, -, -, -, rfl⟩ := batchCleanupPost_ok h
  rw [hnone, Option.getD_none, Checked.drain, Except.ok.injEq] at hlikes
  rw [← hlikes]
  show { s.likes with likersCount := setOrRemove s.likes.likersCount postId 0 } = s.likes
  rw [setOrRemove, if_pos rfl, Store.remove_eq_self_iff.mpr hnone]

/-! ## The cooldowns -/

/-- The cooldowns are those of before, apart from some that are gone at the posts of `S`. -/
def Tips.Cleared (t t' : Tips) (S : Nat → Prop) : Prop :=
  ∀ key, t'.tipCooldown.get key = t.tipCooldown.get key ∨
    (S key.1 ∧ t'.tipCooldown.get key = none)

namespace Tips.Cleared

variable {t t' t'' : Tips} {S : Nat → Prop}

theorem refl (t : Tips) (S : Nat → Prop) : t.Cleared t S := fun _ => Or.inl rfl

theorem trans (h : t.Cleared t' S) (h' : t'.Cleared t'' S) : t.Cleared t'' S := by
  intro key
  rcases h' key with hsame | hgone
  · rw [hsame]
    exact h key
  · exact Or.inr hgone

theorem of_remove {postId : Nat} (who : Address × Address) (hS : S postId)
    (h : t'.tipCooldown = t.tipCooldown.remove (postId, who)) : t.Cleared t' S := by
  intro key
  rw [h, Store.get_remove]
  by_cases hkey : key = (postId, who)
  · rw [if_pos hkey, hkey]
    exact Or.inr ⟨hS, rfl⟩
  · rw [if_neg hkey]
    exact Or.inl rfl

/-- Dropping a slot of the post, and with it the cooldown of whoever the slot names. -/
theorem of_slot (t : Tips) {postId : Nat} (i : Nat) (hS : S postId) :
    t.Cleared { t with
      tipCooldown := match t.cooldownsIdx.get (postId, i) with
        | some (tipper, token) => t.tipCooldown.remove (postId, tipper, token)
        | none => t.tipCooldown
      cooldownsIdx := t.cooldownsIdx.remove (postId, i) } S := by
  cases hslot : t.cooldownsIdx.get (postId, i) with
  | none => exact fun _ => Or.inl rfl
  | some who => exact of_remove who hS rfl

/-- What is gone had run out before, so nothing reads differently. -/
theorem liveCooldown_eq {env : Env} (h : t.Cleared t' S)
    (hdead : ∀ postId tipper token, S postId →
      liveCooldown env t (postId, tipper, token) = none) (key : Nat × Address × Address) :
    liveCooldown env t' key = liveCooldown env t key := by
  rcases h key with hsame | ⟨hS, hgone⟩
  · rw [liveCooldown, hsame]
    rfl
  · have hnone : liveCooldown env t' key = none := by
      rw [liveCooldown, hgone]
    rw [hnone]
    exact (hdead key.1 key.2.1 key.2.2 hS).symm

end Tips.Cleared

theorem drainCooldown_cleared {postId left : Nat} {t : Tips} {r : Nat × Nat × Tips}
    (h : Checked.drain (drainCooldown postId) ((t.cooldownsCount.get postId).getD 0) left t =
      .ok r) : t.Cleared r.2.2 fun id => id = postId := by
  refine Checked.drain_invariant (P := fun _ b => t.Cleared b fun id => id = postId) ?_
    (.refl t _) h
  intro count b b' hb hb'
  rw [drainCooldown] at hb'
  split at hb'
  · rename_i tipper token hslot
    obtain rfl := Except.ok.inj hb'
    exact hb.trans (.of_remove (tipper, token) rfl rfl)
  · obtain rfl := Except.ok.inj hb'
    exact hb

theorem sweepCooldowns_cleared (t : Tips) {postId : Nat} {S : Nat → Prop} (hS : S postId) :
    t.Cleared (sweepCooldowns t postId) S := by
  have hfold : ∀ (slots : List Nat) (b : Tips), t.Cleared b S →
      t.Cleared (slots.foldl (fun (t : Tips) i =>
        { t with
          tipCooldown := match t.cooldownsIdx.get (postId, i) with
            | some (tipper, token) => t.tipCooldown.remove (postId, tipper, token)
            | none => t.tipCooldown
          cooldownsIdx := t.cooldownsIdx.remove (postId, i) }) b) S := by
    intro slots
    induction slots with
    | nil => exact fun b hb => hb
    | cons i slots ih =>
      intro b hb
      exact ih _ (hb.trans (.of_slot b i hS))
  exact hfold _ t (.refl t S)

/-! ## The cleanup of an account -/

/-- The loop over the posts of an account leaves the notes on them, and the cooldowns of
all others. -/
theorem drain_cleanupAuthorPost_kept {s : State} {ids : List Nat} {count left : Nat}
    {r : Nat × Nat × List Nat × State}
    (h : Checked.drain cleanupAuthorPost count left (ids, s) = .ok r) :
    r.2.2.2.posts.committedPost = s.posts.committedPost ∧
      r.2.2.2.posts.contentHash = s.posts.contentHash ∧
      s.tips.Cleared r.2.2.2.tips fun id => id ∈ ids := by
  have hall : (∀ id ∈ r.2.2.1, id ∈ ids) ∧
      r.2.2.2.posts.committedPost = s.posts.committedPost ∧
      r.2.2.2.posts.contentHash = s.posts.contentHash ∧
      s.tips.Cleared r.2.2.2.tips fun id => id ∈ ids := by
    refine Checked.drain_invariant (P := fun _ (b : List Nat × State) => (∀ id ∈ b.1, id ∈ ids) ∧
      b.2.posts.committedPost = s.posts.committedPost ∧
      b.2.posts.contentHash = s.posts.contentHash ∧
      s.tips.Cleared b.2.tips fun id => id ∈ ids) ?_ ⟨fun _ hid => hid, rfl, rfl, .refl _ _⟩ h
    intro count b b' hb hb'
    obtain ⟨hids, hcommitted, hhash, htips⟩ := hb
    obtain ⟨postId, hget, hids', hs⟩ := cleanupAuthorPost_ok hb'
    have hmem : postId ∈ ids := hids postId (List.mem_of_getElem? hget)
    rw [hs]
    refine ⟨?_, hcommitted, hhash, htips.trans (sweepCooldowns_cleared b.2.tips hmem)⟩
    intro id hid
    rw [hids'] at hid
    exact hids id (List.mem_of_mem_eraseIdx hid)
  exact hall.2

theorem batchCleanupProfile_leaves {s s' : State} {user : Address} {maxEntries : Nat}
    (h : batchCleanupProfile s user maxEntries = .ok s') :
    s'.posts.committedPost = s.posts.committedPost ∧
      s'.posts.contentHash = s.posts.contentHash ∧
      (s.tips.Cleared s'.tips fun id => id ∈ s.posts.byAuthor user) ∧
      (s.posts.authorPosts.get user = none → s'.posts = s.posts ∧ s'.likes = s.likes) ∧
      ∃ fCount followingCount left,
        s.graph.cleanupUser user maxEntries = .ok (fCount, followingCount, left, s'.graph) := by
  obtain ⟨fCount, followingCount, left, graph, r, hgraph, hr, hposts, hlikes, htips, hgraph', -⟩ :=
    batchCleanupProfile_posts h
  obtain ⟨hcommitted, hhash, hcleared⟩ := drain_cleanupAuthorPost_kept hr
  obtain ⟨posts, likes, reports, tips, hframe⟩ := drain_cleanupAuthorPost_frame hr
  refine ⟨?_, ?_, ?_, ?_, fCount, followingCount, left, ?_⟩
  · rw [hposts]
    exact hcommitted
  · rw [hposts]
    exact hhash
  · rw [htips]
    exact hcleared
  · intro hnone
    have hempty : s.posts.byAuthor user = [] := by
      rw [Posts.byAuthor, hnone]
      rfl
    rw [hempty, List.length_nil, Checked.drain, Except.ok.injEq] at hr
    rw [hposts, hlikes, ← hr]
    refine ⟨?_, rfl⟩
    show { s.posts with authorPosts := relist s.posts.authorPosts user [] } = s.posts
    rw [relist, if_pos rfl, Store.remove_eq_self_iff.mpr hnone]
  · rw [hgraph', hframe]
    exact hgraph

/-- Without an edge to remove, the cleanup writes the two counts back. -/
theorem Graph.cleanupUser_of_empty {g g' : Graph} {user : Address}
    {maxEntries fCount followingCount left : Nat} (hfollowers : g.followers.size user = 0)
    (hfollowing : g.following.size user = 0)
    (h : g.cleanupUser user maxEntries = .ok (fCount, followingCount, left, g')) :
    g' = (g.setFollowersCount user 0).setFollowingCount user 0 := by
  simp only [Graph.cleanupUser, Checked.bind_eq_ok, Checked.pure_eq_ok] at h
  obtain ⟨r, hr, r', hr', heq⟩ := h
  rw [hfollowers, Checked.drain, Except.ok.injEq] at hr
  subst hr
  have hsize : (g.setFollowersCount user 0).following.size user = 0 := hfollowing
  rw [hsize, Checked.drain, Except.ok.injEq] at hr'
  subst hr'
  simp only [Prod.mk.injEq] at heq
  exact heq.2.2.2.symm

theorem Graph.migrate_eq {g g' : Graph} (h : g.Loopless) {users : List Address}
    (hok : users.foldlM Graph.migrateUser g = .ok g') :
    ∃ graphMigrated, g' = { g with graphMigrated } := by
  refine Checked.foldlM_invariant (P := fun g' => ∃ graphMigrated, g' = { g with graphMigrated })
    ?_ ⟨g.graphMigrated, rfl⟩ hok
  intro user _ b b' hb hb'
  obtain ⟨graphMigrated, rfl⟩ := hb
  have hloop : ({ g with graphMigrated } : Graph).Loopless :=
    ⟨h.followers, h.legacyFollowing, h.legacyFollowers⟩
  obtain ⟨graphMigrated', rfl⟩ := hloop.migrateUser_eq hb'
  exact ⟨graphMigrated', rfl⟩

/-! ## Every call against every family -/

/-- The module that a group of the storage belongs to, if it is one that can be paused. -/
def Part.owner : Part → Option PauseModule
  | .posts | .likes => some .posts
  | .tips => some .tips
  | .pools => some .pools
  | .gov => some .governance
  | .credentials => some .credentials
  | .graph | .blocks => some .social
  | .access | .params | .profiles | .oracle | .reports | .appeals => none

/-- The groups that a call writes without asking for the module they belong to. -/
def Call.reachesOut (c : Call) : List Part :=
  c.parts.filter fun p => p.owner.isSome && c.asksFor != p.owner

theorem Family.owner_part {f : Family} (hf : f ≠ .tipTotal) : f.part.owner = some f.owner := by
  cases f with
  | tipTotal => exact absurd rfl hf
  | _ => rfl

/-- While a family's module is stopped, what is left to look at are the calls that write
its group without asking for the module. -/
theorem Family.same_or_reached {σ : Type} {host : Host σ} {env : Env} {w w' : World σ} {c : Call}
    {f : Family} (hne : f ≠ .tipTotal) (hstop : Stopped w.store f.owner)
    (he : exec host env w c = .ok w') :
    f.Same env w.store w'.store ∨ f.part ∈ c.reachesOut := by
  by_cases hpart : f.part ∈ c.parts
  · refine Or.inr (List.mem_filter.mpr ⟨hpart, ?_⟩)
    have hask : c.asksFor ≠ some f.owner := fun hm => hstop.not_running (exec_running he hm)
    rw [owner_part hne, Option.isSome_some, Bool.true_and, bne_iff_ne]
    exact hask
  · exact Or.inl (same_of_sameOn (exec_frame he hpart))

section Families

variable {σ : Type} {host : Host σ} {env : Env} {w w' : World σ} {f : Family}

theorem blockUser_kept {blocker blocked : Address} (hf : f.part = .posts ∨ f.part = .likes)
    (hne : f ≠ .tipTotal) (he : exec host env w (.blockUser blocker blocked) = .ok w')
    (hr : ¬Reaches host env w.store (.blockUser blocker blocked) f) :
    f.Same env w.store w'.store := by
  obtain ⟨-, graph, -, hs⟩ := blockUser_ok (World.onStore_eq_ok.mp he).1
  obtain ⟨hauthor, hcommitted, hhash⟩ :=
    cleanupLikesOnBlock_sameNotes (w.store.posts, w.store.likes) blocker blocked
  have hclean : (¬¬∀ id, Clean (w.store.posts, w.store.likes) blocker blocked id) →
      cleanupLikesOnBlock (w.store.posts, w.store.likes) blocker blocked =
        (w.store.posts, w.store.likes) :=
    fun hnot => cleanupLikesOnBlock_of_clean (not_not.mp hnot)
  rw [hs]
  cases f with
  | post => exact congrArg (fun q => q.1.post) (hclean hr)
  | like => exact congrArg (fun q => q.2.like) (hclean hr)
  | likers =>
    exact ⟨congrArg (fun q => q.2.likersCount) (hclean hr),
      congrArg (fun q => q.2.likersIdx) (hclean hr)⟩
  | authorPosts => exact hauthor
  | committedPost => exact hcommitted
  | contentHash => exact hhash
  | tipTotal => exact absurd rfl hne
  | _ => simp [Family.part] at hf

theorem tip_kept {tipper token : Address} {postId : Nat} {amount : Int} (hf : f.part = .posts)
    (hne : f ≠ .tipTotal) (he : exec host env w (.tip tipper postId token amount) = .ok w')
    (hr : ¬Reaches host env w.store (.tip tipper postId token amount) f) :
    f.Same env w.store w'.store := by
  obtain ⟨-, -, post, tips, feeAmount, tipTotal, paid, tokens, hpost, hfee, htotal, -, -, rfl⟩ :=
    tip_ok he
  cases f with
  | post =>
    -- The fee is the whole amount, and the author's share is nothing.
    have hall : tipFee amount (getFeeBps w.store) = .ok amount := not_not.mp hr
    have hsame : tipTotal = post.tipTotal := by
      rw [hfee, Except.ok.injEq] at hall
      omega
    show w.store.posts.post.set postId { post with tipTotal } = w.store.posts.post
    rw [Store.set_eq_self_iff, hpost, hsame]
  | authorPosts | committedPost | contentHash => rfl
  | tipTotal => exact absurd rfl hne
  | _ => cases hf

theorem reviewReport_kept {moderator reporter : Address} {signers : List Address} {postId : Nat}
    {verdict : ReportStatus} (hf : f.part = .posts) (hne : f ≠ .tipTotal)
    (he : exec host env w (.reviewReport moderator signers postId reporter verdict) = .ok w')
    (hr : ¬Reaches host env w.store (.reviewReport moderator signers postId reporter verdict) f) :
    f.Same env w.store w'.store := by
  obtain ⟨hcommitted, hhash, hsame⟩ := reviewReport_posts he
  cases f with
  | post => exact congrArg Posts.post (hsame hr)
  | authorPosts => exact congrArg Posts.authorPosts (hsame hr)
  | committedPost => exact hcommitted
  | contentHash => exact hhash
  | tipTotal => exact absurd rfl hne
  | _ => cases hf

theorem reviewAppeal_kept {reviewer : Address} {postId : Nat} {approve : Bool}
    (hf : f.part = .posts) (hne : f ≠ .tipTotal)
    (he : exec host env w (.reviewAppeal reviewer postId approve) = .ok w')
    (hr : ¬Reaches host env w.store (.reviewAppeal reviewer postId approve) f) :
    f.Same env w.store w'.store := by
  obtain ⟨hcommitted, hhash, hsame⟩ := reviewAppeal_posts (World.onStore_eq_ok.mp he).1
  cases f with
  | post => exact congrArg Posts.post (hsame (not_not.mp hr))
  | authorPosts => exact congrArg Posts.authorPosts (hsame (not_not.mp hr))
  | committedPost => exact hcommitted
  | contentHash => exact hhash
  | tipTotal => exact absurd rfl hne
  | _ => cases hf

theorem batchCleanupPost_kept {postId maxEntries : Nat}
    (hf : f.part = .posts ∨ f.part = .likes ∨ f.part = .tips) (hne : f ≠ .tipTotal)
    (he : exec host env w (.batchCleanupPost postId maxEntries) = .ok w')
    (hr : ¬Reaches host env w.store (.batchCleanupPost postId maxEntries) f) :
    f.Same env w.store w'.store := by
  have hs := (World.onStore_eq_ok.mp he).1
  have hlikes : ¬w.store.likes.likersCount.has postId = true →
      w'.store.likes = w.store.likes := by
    intro hnot
    rw [Bool.not_eq_true, Store.has_eq_false_iff] at hnot
    exact batchCleanupPost_likes hs hnot
  obtain ⟨-, likes, reports, tips, deletedPost, -, -, htips, -, hs⟩ := batchCleanupPost_ok hs
  cases f with
  | like => exact congrArg Likes.like (hlikes hr)
  | likers =>
    exact ⟨congrArg Likes.likersCount (hlikes hr), congrArg Likes.likersIdx (hlikes hr)⟩
  | tipCooldown =>
    have hcleared : w.store.tips.Cleared w'.store.tips fun id => id = postId := by
      rw [hs]
      exact drainCooldown_cleared htips
    refine hcleared.liveCooldown_eq ?_
    rintro id tipper token rfl
    rw [← Option.not_isSome_iff_eq_none]
    exact fun hlive => hr ⟨tipper, token, hlive⟩
  | post | authorPosts | committedPost | contentHash =>
    rw [hs]
    rfl
  | tipTotal => exact absurd rfl hne
  | _ => simp [Family.part] at hf

theorem batchCleanupProfile_kept {user : Address} {maxEntries : Nat} (hne : f ≠ .tipTotal)
    (hf : f.part ∈ (Call.batchCleanupProfile user maxEntries).parts)
    (he : exec host env w (.batchCleanupProfile user maxEntries) = .ok w')
    (hr : ¬Reaches host env w.store (.batchCleanupProfile user maxEntries) f) :
    f.Same env w.store w'.store := by
  obtain ⟨hcommitted, hhash, hcleared, hsame, fCount, followingCount, left, hgraph⟩ :=
    batchCleanupProfile_leaves (World.onStore_eq_ok.mp he).1
  have hposts : ¬w.store.posts.authorPosts.has user = true →
      w'.store.posts = w.store.posts ∧ w'.store.likes = w.store.likes := by
    intro hnot
    rw [Bool.not_eq_true, Store.has_eq_false_iff] at hnot
    exact hsame hnot
  have hempty : w.store.graph.followers.size user = 0 → w.store.graph.following.size user = 0 →
      w'.store.graph = (w.store.graph.setFollowersCount user 0).setFollowingCount user 0 :=
    fun hfollowers hfollowing => Graph.cleanupUser_of_empty hfollowers hfollowing hgraph
  cases f with
  | post => exact congrArg Posts.post (hposts hr).1
  | authorPosts => exact congrArg Posts.authorPosts (hposts hr).1
  | like => exact congrArg Likes.like (hposts hr).2
  | likers =>
    exact ⟨congrArg Likes.likersCount (hposts hr).2, congrArg Likes.likersIdx (hposts hr).2⟩
  | committedPost => exact hcommitted
  | contentHash => exact hhash
  | tipCooldown =>
    refine hcleared.liveCooldown_eq ?_
    intro id tipper token hid
    rw [← Option.not_isSome_iff_eq_none]
    exact fun hlive => hr ⟨id, hid, tipper, token, hlive⟩
  | edge =>
    have hsizes : ¬(0 < w.store.graph.followers.size user ∨
        0 < w.store.graph.following.size user) := hr
    rw [Family.Same, hempty (by omega) (by omega)]
    rfl
  | following =>
    have hcounts : ¬(0 < w.store.graph.followers.size user ∨
        w.store.graph.following.count.get user ≠ some 0) := hr
    rw [not_or, not_not] at hcounts
    rw [Family.Same, hempty (by omega) (Index.size_of_count hcounts.2)]
    exact ⟨Index.reset_eq hcounts.2, rfl⟩
  | followers =>
    have hcounts : ¬(0 < w.store.graph.following.size user ∨
        w.store.graph.followers.count.get user ≠ some 0) := hr
    rw [not_or, not_not] at hcounts
    rw [Family.Same, hempty (Index.size_of_count hcounts.2) (by omega)]
    exact ⟨Index.reset_eq hcounts.2, rfl⟩
  | tipTotal => exact absurd rfl hne
  | _ => simp [Family.part, Call.parts] at hf

theorem setProfile_kept {user creatorToken : Address} {username : Bytes} (hf : f.part = .graph)
    (he : exec host env w (.setProfile user username creatorToken) = .ok w')
    (hr : ¬Reaches host env w.store (.setProfile user username creatorToken) f) :
    f.Same env w.store w'.store := by
  obtain ⟨-, -, profiles, hs, -⟩ := setProfile_ok (World.onStore_eq_ok.mp he).1
  by_cases hnew : w.store.profiles.profile.has user = true
  · have hgraph : w'.store.graph = w.store.graph := by
      rw [hs]
      exact if_pos hnew
    exact Family.same_of_sameOn (hf ▸ hgraph)
  · have hgraph : w'.store.graph = w.store.graph.initCounts user := by
      rw [hs]
      exact if_neg hnew
    rw [Bool.not_eq_true] at hnew
    cases f with
    | edge =>
      rw [Family.Same, hgraph]
      rfl
    | following =>
      have hcount : w.store.graph.following.count.get user = some 0 :=
        not_not.mp fun hne => hr ⟨hnew, hne⟩
      rw [Family.Same, hgraph]
      exact ⟨Index.reset_eq hcount, rfl⟩
    | followers =>
      have hcount : w.store.graph.followers.count.get user = some 0 :=
        not_not.mp fun hne => hr ⟨hnew, hne⟩
      rw [Family.Same, hgraph]
      exact ⟨Index.reset_eq hcount, rfl⟩
    | _ => cases hf

theorem migrateFollowGraph_kept {admin : Address} {users : List Address} (hf : f.part = .graph)
    (hloop : w.store.graph.Loopless)
    (he : exec host env w (.migrateFollowGraph admin users) = .ok w') :
    f.Same env w.store w'.store := by
  obtain ⟨graph, hgraph, hs⟩ := migrateFollowGraph_ok (World.onStore_eq_ok.mp he).1
  obtain ⟨graphMigrated, rfl⟩ := Graph.migrate_eq hloop hgraph
  rw [hs]
  cases f with
  | edge => rfl
  | following | followers => exact ⟨rfl, rfl⟩
  | _ => cases hf

theorem deleteProfile_kept {user : Address} (hf : f.part = .credentials ∨ f.part = .blocks)
    (he : exec host env w (.deleteProfile user) = .ok w')
    (hr : ¬Reaches host env w.store (.deleteProfile user) f) : f.Same env w.store w'.store := by
  obtain ⟨-, profiles, events, hs, -⟩ := deleteProfile_ok (World.onStore_eq_ok.mp he).1
  rw [hs]
  cases f with
  | credentialRoot =>
    rw [Reaches, Bool.not_eq_true, Store.has_eq_false_iff] at hr
    exact Store.remove_eq_self_iff.mpr hr
  | blocks =>
    rw [Reaches, Bool.not_eq_true, Store.has_eq_false_iff] at hr
    exact Store.remove_eq_self_iff.mpr hr
  | credentialEpoch | nullifierSet | credentialAuthority => rfl
  | _ => simp [Family.part] at hf

theorem verifyCredential_kept {user : Address} {proof : List Bytes32} {leaf nullifier : Bytes32}
    (hf : f.part = .credentials)
    (he : exec host env w (.verifyCredential user proof leaf nullifier) = .ok w')
    (hr : ¬Reaches host env w.store (.verifyCredential user proof leaf nullifier) f) :
    f.Same env w.store w'.store := by
  obtain ⟨r, hv, hs⟩ := Checked.map_eq_ok.mp (World.onStore_eq_ok.mp he).1
  rw [← hs]
  rcases verifyCredential_result hv with ⟨hp, rfl⟩ | ⟨-, rfl⟩
  · cases f with
    | nullifierSet => exact absurd hp hr
    | credentialRoot | credentialEpoch | credentialAuthority => rfl
    | _ => cases hf
  · exact Family.same_of_sameOn (hf ▸ rfl)

theorem pruneNullifiers_kept {user : Address} {epoch : Nat} {nullifiers : List Bytes32}
    (hf : f.part = .credentials)
    (he : exec host env w (.pruneNullifiers user epoch nullifiers) = .ok w')
    (hr : ¬Reaches host env w.store (.pruneNullifiers user epoch nullifiers) f) :
    f.Same env w.store w'.store := by
  obtain ⟨-, hs⟩ := pruneNullifiers_result (World.onStore_eq_ok.mp he).1
  rw [hs]
  cases f with
  | nullifierSet =>
    apply Store.foldl_remove_of_absent
    intro nullifier hmem
    rw [← Store.has_eq_false_iff, ← Bool.not_eq_true]
    exact fun hhas => hr ⟨nullifier, hmem, hhas⟩
  | credentialRoot | credentialEpoch | credentialAuthority => rfl
  | _ => cases hf

theorem govInitConfig_kept {admin : Address}
    {quorum timeLockLedgers voteWindowLedgers quorumDecayRateBps quorumFloor : Nat}
    (hf : f.part = .gov)
    (he : exec host env w (.govInitConfig admin quorum timeLockLedgers voteWindowLedgers
      quorumDecayRateBps quorumFloor) = .ok w')
    (hr : ¬Reaches host env w.store (.govInitConfig admin quorum timeLockLedgers voteWindowLedgers
      quorumDecayRateBps quorumFloor) f) : f.Same env w.store w'.store := by
  rw [(govInitConfig_ok (World.onStore_eq_ok.mp he).1).2]
  cases f with
  | govConfig => exact (not_not.mp hr).symm
  | govProposal | govVote | govDelegation => rfl
  | _ => cases hf

theorem govRevokeDelegation_kept {delegator : Address} (hf : f.part = .gov)
    (he : exec host env w (.govRevokeDelegation delegator) = .ok w')
    (hr : ¬Reaches host env w.store (.govRevokeDelegation delegator) f) :
    f.Same env w.store w'.store := by
  rw [govRevokeDelegation_ok (World.onStore_eq_ok.mp he).1]
  cases f with
  | govDelegation =>
    rw [Reaches, Bool.not_eq_true, Store.has_eq_false_iff] at hr
    exact Store.remove_eq_self_iff.mpr hr
  | govConfig | govProposal | govVote => rfl
  | _ => cases hf

/-- Only `tip` changes the tips of a post that stays. -/
theorem tipTotal_kept {c : Call} (hix : PostsIndexed w.store.postView) (hc : c.tips = false)
    (he : exec host env w c = .ok w') : Family.tipTotal.Same env w.store w'.store := by
  intro id post post' hp hp'
  obtain ⟨-, hle, -⟩ := hix.known id post (Or.inl hp)
  obtain ⟨old, hold, -, -, htips⟩ :=
    (PostView.Later.of_exec he).holds id post' hle (Or.inl hp')
  rw [htips hc, hix.eq_of_stored hp hold]

/-- In every reachable state, while the module of a family is stopped, a successful call
leaves the family as it is unless it reaches for it without asking for the module. -/
theorem stopped_family_kept {c : Call} (h : Reachable host w) (hstop : Stopped w.store f.owner)
    (he : exec host env w c = .ok w') (hr : ¬Reaches host env w.store c f) :
    f.Same env w.store w'.store := by
  by_cases hne : f = .tipTotal
  · subst hne
    refine tipTotal_kept (.of_reachable h) ?_ he
    cases c with
    | tip => exact absurd (exec_running he rfl) hstop.not_running
    | _ => rfl
  rcases Family.same_or_reached hne hstop he with hsame | hout
  · exact hsame
  cases c with
  | setProfile =>
    have hout : f.part ∈ [.graph] := hout
    exact setProfile_kept (List.mem_singleton.mp hout) he hr
  | deleteProfile =>
    have hout : f.part ∈ [.credentials, .blocks] := hout
    exact deleteProfile_kept (by simpa using hout) he hr
  | batchCleanupProfile => exact batchCleanupProfile_kept hne (List.mem_of_mem_filter hout) he hr
  | verifyCredential =>
    have hout : f.part ∈ [.credentials] := hout
    exact verifyCredential_kept (List.mem_singleton.mp hout) he hr
  | pruneNullifiers =>
    have hout : f.part ∈ [.credentials] := hout
    exact pruneNullifiers_kept (List.mem_singleton.mp hout) he hr
  | migrateFollowGraph =>
    have hout : f.part ∈ [.graph] := hout
    exact migrateFollowGraph_kept (List.mem_singleton.mp hout) (.of_reachable h) he
  | blockUser =>
    have hout : f.part ∈ [.posts, .likes] := hout
    exact blockUser_kept (by simpa using hout) hne he hr
  | batchCleanupPost =>
    have hout : f.part ∈ [.posts, .likes, .tips] := hout
    exact batchCleanupPost_kept (by simpa using hout) hne he hr
  | tip =>
    have hout : f.part ∈ [.posts] := hout
    exact tip_kept (List.mem_singleton.mp hout) hne he hr
  | govInitConfig =>
    have hout : f.part ∈ [.gov] := hout
    exact govInitConfig_kept (List.mem_singleton.mp hout) he hr
  | govRevokeDelegation =>
    have hout : f.part ∈ [.gov] := hout
    exact govRevokeDelegation_kept (List.mem_singleton.mp hout) he hr
  | reviewReport =>
    have hout : f.part ∈ [.posts] := hout
    exact reviewReport_kept (List.mem_singleton.mp hout) hne he hr
  | reviewAppeal =>
    have hout : f.part ∈ [.posts] := hout
    exact reviewAppeal_kept (List.mem_singleton.mp hout) hne he hr
  | _ => exact absurd hout List.not_mem_nil

end Families

/-- `bob` delegates his vote, governance is paused, and `carol`, who never delegated, takes
nothing back. -/
theorem stopped_family_kept_of_delegations :
    ∃ w w' : World Book, Reachable (bookHost linkora) w ∧ Stopped w.store .governance ∧
      w.store.gov.delegation.has bob = true ∧
      exec (bookHost linkora) (signedAt 4) w (.govRevokeDelegation carol) = .ok w' ∧
      w'.store.gov.delegation = w.store.gov.delegation := by
  have hdemo : demoAround (fun _ _ _ => True) (fun _ _ => 0)
      [(signedAt 2, .govDelegate bob alice), (signedAt 3, .pauseModule alice .governance)]
      (signedAt 4, .govRevokeDelegation carol) []
      (fun w _ _ => (isModulePaused w.store .governance, w.store.gov.delegation.has bob,
        w.store.gov.delegation.has carol)) = some (true, true, false) := by rfl
  obtain ⟨w, w', -, hw, he, -, hsee⟩ := run_demoAround hdemo
  simp only [Prod.mk.injEq] at hsee
  obtain ⟨hpaused, hbob, hcarol⟩ := hsee
  have hstop : Stopped w.store Family.govDelegation.owner := Or.inr hpaused
  have hr : ¬Reaches (bookHost linkora) (signedAt 4) w.store (.govRevokeDelegation carol)
      .govDelegation := by
    rw [Reaches, hcarol]
    exact Bool.false_ne_true
  exact ⟨w, w', hw, hstop, hbob, he, stopped_family_kept hw hstop he hr⟩

/-- The entry points that set and clear the flags. -/
def Call.pauses : Call → Bool
  | .pause | .unpause | .pauseModule .. | .unpauseModule .. => true
  | _ => false

/-- While only posts are paused, `carol` blocks `bob`, and his like on her post is gone. -/
theorem block_edits_paused_likes :
    ¬∀ (w w' : World Book) (env : Env) (c : Call) (f : Family), Reachable (bookHost linkora) w →
      Stopped w.store f.owner → c.pauses = false → exec (bookHost linkora) env w c = .ok w' →
      f.Same env w.store w'.store := by
  intro hclaim
  have hdemo : demoAround (fun _ _ _ => True) (fun _ _ => 0)
      [(signedAt 2, .createPost carol (asciiBytes "hello")), (signedAt 3, .likePost bob 1),
        (signedAt 4, .pauseModule alice .posts)]
      (signedAt 5, .blockUser carol bob) []
      (fun w w' _ => (isModulePaused w.store .posts, w.store.likes.like.has (1, bob),
        w'.store.likes.like.has (1, bob))) = some (true, true, false) := by rfl
  obtain ⟨w, w', -, hw, he, -, hsee⟩ := run_demoAround hdemo
  simp only [Prod.mk.injEq] at hsee
  obtain ⟨hpaused, hbefore, hafter⟩ := hsee
  have hsame : w'.store.likes.like = w.store.likes.like :=
    hclaim w w' _ _ .like hw (Or.inr hpaused) rfl he
  rw [hsame, hbefore] at hafter
  cases hafter

end Contract
end Linkora
