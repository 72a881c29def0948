import Linkora.Contract.Migration
import Linkora.Contract.Pausing
import Linkora.Contract.Published

/-!
# Changes that are not published

A block takes edges and likes away and the cleanup of a deleted profile takes edges away, and
neither says which.  Where there is nothing to take, what remains of edges, posts and likes
changes only with an event.
-/

namespace Linkora
namespace Contract

/-- No edge joins the two, and neither likes a post of the other. -/
structure Strangers (s : State) (a b : Address) : Prop where
  edge : ¬s.graph.Edges a b
  back : ¬s.graph.Edges b a
  likes : ∀ id, id ≤ s.posts.lastId → Clean (s.posts, s.likes) a b id

/-- The call finds no edge and no like that it would take away without an event. -/
def TakesNothing (s : State) : Call → Prop
  | .blockUser blocker blocked => Strangers s blocker blocked
  | .batchCleanupProfile user maxEntries =>
    maxEntries = 0 ∨ (s.graph.followers.size user = 0 ∧ s.graph.following.size user = 0)
  | _ => True

instance (q : Posts × Likes) (a b : Address) (id : Nat) : Decidable (Clean q a b id) :=
  inferInstanceAs (Decidable (∀ post ∈ q.1.post.get id,
    (post.author = b → q.2.like.has (id, a) = false) ∧
      (post.author = a → q.2.like.has (id, b) = false)))

instance (s : State) (a b : Address) : Decidable (Strangers s a b) :=
  decidable_of_iff (¬s.graph.Edges a b ∧ ¬s.graph.Edges b a ∧
      ∀ id, id ≤ s.posts.lastId → Clean (s.posts, s.likes) a b id)
    ⟨fun h => ⟨h.1, h.2.1, h.2.2⟩, fun h => ⟨h.edge, h.back, h.likes⟩⟩

instance (s : State) (c : Call) : Decidable (TakesNothing s c) := by
  cases c with
  | blockUser blocker blocked => exact inferInstanceAs (Decidable (Strangers s blocker blocked))
  | batchCleanupProfile user maxEntries => exact inferInstanceAs (Decidable (_ ∨ _))
  | _ => exact isTrue trivial

/-- There are no posts beyond the last id. -/
theorem Strangers.clean {s : State} {a b : Address} (h : Strangers s a b)
    (hix : PostsIndexed s.postView) (id : Nat) : Clean (s.posts, s.likes) a b id := by
  by_cases hid : id ≤ s.posts.lastId
  · exact h.likes id hid
  · intro post hpost
    exact absurd (hix.known id post (Or.inl hpost)).2.1 hid

/-! ## Edges -/

namespace Graph

variable {g g' : Graph} {a b user : Address}

theorem cleanupFollowOnBlock_of_apart (hab : ¬g.Edges a b) (hba : ¬g.Edges b a) :
    g.cleanupFollowOnBlock a b = .ok g := by
  have h₁ : g.unlink a b = .ok g := if_neg hab
  have h₂ : g.unlink b a = .ok g := if_neg hba
  rw [cleanupFollowOnBlock, h₁]
  exact h₂

theorem cleanupUser_of_idle {maxEntries : Nat} {r : Nat × Nat × Nat × Graph}
    (h : maxEntries = 0 ∨ (g.followers.size user = 0 ∧ g.following.size user = 0))
    (hok : g.cleanupUser user maxEntries = .ok r) : r.2.2.2.edge = g.edge := by
  have hfollowers : maxEntries = 0 ∨ g.followers.size user = 0 := h.imp_right And.left
  have hfollowing : maxEntries = 0 ∨ g.following.size user = 0 := h.imp_right And.right
  simp only [cleanupUser, Checked.bind_eq_ok, Checked.pure_eq_ok] at hok
  obtain ⟨⟨fCount, left, g₁⟩, hr₁, ⟨followingCount, left', g₂⟩, hr₂, rfl⟩ := hok
  have h₁ := (Checked.drain_idle hfollowers).symm.trans hr₁
  cases h₁
  have h₂ := (Checked.drain_idle hfollowing).symm.trans hr₂
  cases h₂
  rfl

end Graph

/-- Edges come with `follow` and go with `unfollow`, if nothing is taken away. -/
theorem exec_edges {σ : Type} {host : Host σ} {env : Env} {w w' : World σ} {c : Call}
    (he : exec host env w c = .ok w') (hloop : w.store.graph.Loopless)
    (hc : TakesNothing w.store c) (hfollow : ∀ a b, c ≠ .follow a b)
    (hunfollow : ∀ a b, c ≠ .unfollow a b) : w'.store.graph.edge = w.store.graph.edge := by
  cases c with
  | follow a b => exact absurd rfl (hfollow a b)
  | unfollow a b => exact absurd rfl (hunfollow a b)
  | setProfile user username creatorToken =>
    obtain ⟨-, -, profiles, hs, -⟩ := setProfile_ok (World.onStore_eq_ok.mp he).1
    rw [hs]
    show (if _ then w.store.graph else w.store.graph.initCounts user).edge = w.store.graph.edge
    split
    · rfl
    · rfl
  | migrateFollowGraph admin users =>
    obtain ⟨graph, hgraph, hs⟩ := migrateFollowGraph_ok (World.onStore_eq_ok.mp he).1
    rw [hs]
    -- Without legacy lists each user only gets a flag.
    refine (Checked.foldlM_invariant (P := fun g : Graph =>
      g.Loopless ∧ g.edge = w.store.graph.edge) ?_ ⟨hloop, rfl⟩ hgraph).2
    intro user _ g g' hg hok
    obtain ⟨graphMigrated, hg'⟩ := hg.1.migrateUser_eq hok
    refine ⟨hg.1.migrateUser hok, ?_⟩
    rw [hg']
    exact hg.2
  | blockUser blocker blocked =>
    obtain ⟨-, graph, hgraph, hs⟩ := blockUser_ok (World.onStore_eq_ok.mp he).1
    rw [Graph.cleanupFollowOnBlock_of_apart hc.edge hc.back] at hgraph
    rw [hs]
    show graph.edge = w.store.graph.edge
    rw [Except.ok.inj hgraph]
  | batchCleanupProfile user maxEntries =>
    obtain ⟨fCount, followingCount, left, hgraph⟩ :=
      batchCleanupProfile_graph (World.onStore_eq_ok.mp he).1
    exact Graph.cleanupUser_of_idle hc hgraph
  | _ =>
    have hgraph : w'.store.graph = w.store.graph :=
      exec_frame (p := .graph) he (by simp [Call.parts])
    rw [hgraph]

/-! ## Posts and likes -/

/-- Every post that is still held is the post that it was, with the likes that it had. -/
structure PostView.Kept (v v' : PostView) : Prop where
  lastId : v.posts.lastId ≤ v'.posts.lastId
  holds : ∀ id post, v'.Holds id post → v.Holds id post
  like : ∀ id post u, v'.Holds id post → v.likes.like.has (id, u) = true →
    v'.likes.like.has (id, u) = true

namespace PostView.Kept

variable {v v' : PostView}

theorem refl (v : PostView) : v.Kept v := ⟨le_rfl, fun _ _ h => h, fun _ _ _ _ h => h⟩

/-- No like has changed. -/
theorem of_holds (hlast : v'.posts.lastId = v.posts.lastId) (hlikes : v'.likes = v.likes)
    (h : ∀ id post, v'.Holds id post → v.Holds id post) : v.Kept v' := by
  refine ⟨hlast.ge, h, fun id post u _ hu => ?_⟩
  rw [hlikes]
  exact hu

/-- Only the likes of posts that are gone have changed. -/
theorem of_pruned {id : Nat} (hposts : v'.posts.post = v.posts.post)
    (hlast : v'.posts.lastId = v.posts.lastId) (hremoved : v'.removed = v.removed)
    (hgone : ∀ post, ¬v.Holds id post) (hpruned : v.likes.PrunedAt v'.likes id) : v.Kept v' := by
  have hholds : ∀ i post, v'.Holds i post → v.Holds i post := by
    intro i post hp
    rw [Holds, hposts, hremoved] at hp
    exact hp
  refine ⟨hlast.ge, hholds, fun i post u hp hu => ?_⟩
  by_cases hi : i = id
  · rw [hi] at hp
    exact absurd (hholds id post hp) (hgone post)
  · rw [Store.has_eq, hpruned.likeOff (i, u) hi]
    exact hu

end PostView.Kept

/-- The loop over an account's posts changes no other post, and the likes of no other. -/
theorem drain_cleanupAuthorPost_off {ids : List Nat} {left : Nat} {s : State}
    {r : Nat × Nat × List Nat × State}
    (h : Checked.drain cleanupAuthorPost ids.length left (ids, s) = .ok r) :
    r.2.2.2.posts.postCt = s.posts.postCt ∧
    ∀ i, (r.2.2.2.posts.post.get i = s.posts.post.get i ∧
        ∀ u, r.2.2.2.likes.like.get (i, u) = s.likes.like.get (i, u)) ∨
      (r.2.2.2.posts.post.get i = none ∧ i ∈ ids) := by
  have hq : (∀ x ∈ r.2.2.1, x ∈ ids) ∧ r.2.2.2.posts.postCt = s.posts.postCt ∧
      ∀ i, (r.2.2.2.posts.post.get i = s.posts.post.get i ∧
          ∀ u, r.2.2.2.likes.like.get (i, u) = s.likes.like.get (i, u)) ∨
        (r.2.2.2.posts.post.get i = none ∧ i ∈ ids) := by
    refine Checked.drain_invariant (P := fun _ (b : List Nat × State) =>
      (∀ x ∈ b.1, x ∈ ids) ∧ b.2.posts.postCt = s.posts.postCt ∧
      ∀ i, (b.2.posts.post.get i = s.posts.post.get i ∧
          ∀ u, b.2.likes.like.get (i, u) = s.likes.like.get (i, u)) ∨
        (b.2.posts.post.get i = none ∧ i ∈ ids)) ?_
      ⟨fun _ hx => hx, rfl, fun _ => Or.inl ⟨rfl, fun _ => rfl⟩⟩ h
    intro count b b' hb hb'
    obtain ⟨hids, hct, hcell⟩ := hb
    obtain ⟨postId, hid, hids', hs'⟩ := cleanupAuthorPost_ok hb'
    refine ⟨fun x hx => hids x ?_, by rw [hs']; exact hct, fun i => ?_⟩
    · rw [hids'] at hx
      exact List.mem_of_mem_eraseIdx hx
    · rw [hs']
      by_cases hi : i = postId
      · refine Or.inr ⟨?_, ?_⟩
        · rw [hi]
          exact Store.get_remove_self _ _
        · rw [hi]
          exact hids postId (List.mem_of_getElem? hid)
      · rcases hcell i with ⟨hpost, hlikes⟩ | ⟨hnone, hmem⟩
        · refine Or.inl ⟨(Store.get_remove_of_ne hi).trans hpost, fun u => ?_⟩
          exact ((sweepLikes_prunedAt b.2.likes postId).likeOff (i, u) hi).trans (hlikes u)
        · exact Or.inr ⟨(Store.get_remove_of_ne hi).trans hnone, hmem⟩
  exact ⟨hq.2.1, hq.2.2⟩

theorem PostView.Kept.of_batchCleanupProfile {s s' : State} {user : Address} {maxEntries : Nat}
    (hix : PostsIndexed s.postView) (h : batchCleanupProfile s user maxEntries = .ok s') :
    s.postView.Kept s'.postView := by
  obtain ⟨_, _, left, graph, r, -, hr, hposts, hlikes, -, -, happeals⟩ :=
    batchCleanupProfile_posts h
  obtain ⟨hct, hcell⟩ := drain_cleanupAuthorPost_off hr
  have hloop : Checked.drain cleanupAuthorPost
      (({ s with graph } : State).posts.byAuthor user).length left
      (({ s with graph } : State).posts.byAuthor user, { s with graph }) = .ok r := hr
  have hsame : s'.appeals = s.appeals :=
    happeals.trans (@drain_cleanupAuthorPost_edits false _ _ _ _ hloop).1
  have hpost : s'.posts.post = r.2.2.2.posts.post := by rw [hposts]
  have hholds : ∀ i p, s'.postView.Holds i p →
      s.postView.Holds i p ∧ ∀ u, s'.likes.like.get (i, u) = s.likes.like.get (i, u) := by
    intro i p hp
    rw [hlikes]
    rcases hp with hp | hp
    · have hp : s'.posts.post.get i = some p := hp
      rw [hpost] at hp
      rcases hcell i with ⟨hget, hlike⟩ | ⟨hnone, -⟩
      · exact ⟨Or.inl (hget.symm.trans hp), hlike⟩
      · rw [hnone] at hp
        cases hp
    · have hp : s'.appeals.removedPost.get i = some p := hp
      rw [hsame] at hp
      refine ⟨Or.inr hp, ?_⟩
      rcases hcell i with ⟨-, hlike⟩ | ⟨-, hmem⟩
      · exact hlike
      · -- A post that the account's list names is stored, so it has no snapshot.
        obtain ⟨q, hq, -⟩ := (hix.listed user i).mp hmem
        exact absurd rfl (hix.ne_of_removed hq hp)
  refine ⟨?_, fun i p hp => (hholds i p hp).1, fun i p u hp hu => ?_⟩
  · show s.posts.postCt.getD 0 ≤ s'.posts.postCt.getD 0
    rw [hposts]
    show s.posts.postCt.getD 0 ≤ r.2.2.2.posts.postCt.getD 0
    rw [hct]
  · show s'.likes.like.has (i, u) = true
    rw [Store.has_eq, (hholds i p hp).2 u]
    exact hu

theorem PostView.Kept.of_reviewAppeal {env : Env} {s s' : State} {reviewer : Address} {postId : Nat}
    {approve : Bool} (h : reviewAppeal env s reviewer postId approve = .ok s') :
    s.postView.Kept s'.postView := by
  obtain ⟨appeal, events, hs | hs⟩ := reviewAppeal_ok h
  · rw [hs]
    exact .refl _
  · rw [hs]
    show s.postView.Kept ⟨(restoreModeratedPost s postId).posts,
      s.appeals.removedPost.remove postId, s.likes⟩
    cases hget : s.appeals.removedPost.get postId with
    | none =>
      rw [restoreModeratedPost, hget]
      exact .of_holds rfl rfl fun i p hp => hp.imp_right Store.get_of_get_remove
    | some post =>
      rw [restoreModeratedPost, hget]
      exact .of_holds rfl rfl fun i p hp => holds_of_restore hp hget rfl rfl

theorem PostView.Kept.of_reviewReport {σ : Type} {host : Host σ} {env : Env} {w w' : World σ}
    {moderator : Address} {signers : List Address} {postId : Nat} {reporter : Address}
    {verdict : ReportStatus}
    (h : reviewReport host env w moderator signers postId reporter verdict = .ok w') :
    w.store.postView.Kept w'.store.postView := by
  obtain ⟨-, pool, report, v, -, -, -, -, hv, rfl⟩ := reviewReport_ok h
  obtain ⟨posts, appeals, events, hs, hcase⟩ := resolveReport_store hv
  show w.store.postView.Kept ⟨v.store.posts, v.store.appeals.removedPost, v.store.likes⟩
  rw [hs]
  rcases hcase with ⟨-, rfl, rfl⟩ | ⟨post, -, hpost, rfl, rfl⟩
  · exact .refl _
  · exact .of_holds rfl rfl fun i p hp => holds_of_takeAway hp hpost rfl rfl

/-- The calls that create a post or add to a counter. -/
def Call.counts : Call → Bool
  | .createPost .. | .batchCreatePost .. | .commitPost .. | .likePost .. | .tip .. => true
  | _ => false

/-- No other call changes a post that is held after it, if nothing is taken away. -/
theorem PostView.Kept.of_exec {σ : Type} {host : Host σ} {env : Env} {w w' : World σ} {c : Call}
    (he : exec host env w c = .ok w') (hix : PostsIndexed w.store.postView)
    (hc : TakesNothing w.store c) (hcounts : c.counts = false) :
    w.store.postView.Kept w'.store.postView := by
  cases c with
  | createPost | batchCreatePost | commitPost | likePost | tip => cases hcounts
  | setPostContentHash author id contentHash =>
    rw [setPostContentHash_ok (World.onStore_eq_ok.mp he).1]
    exact .of_holds rfl rfl fun _ _ hp => hp
  | revealPost => exact absurd (World.onStore_eq_ok.mp he).1 revealPost_ne_ok
  | deletePost author id =>
    obtain ⟨post, hpost, rfl, hs⟩ := deletePost_ok (World.onStore_eq_ok.mp he).1
    rw [hs]
    exact .of_holds rfl rfl fun _ _ hp => hp.imp_left Store.get_of_get_remove
  | batchCleanupPost id maxEntries =>
    obtain ⟨hdead, likes, reports, tips, deletedPost, hlikes, -, -, -, hs⟩ :=
      batchCleanupPost_ok (World.onStore_eq_ok.mp he).1
    rw [hs]
    refine .of_pruned rfl rfl rfl (fun post hp => ?_) (drain_likes_prunedAt hlikes)
    obtain ⟨-, hfree, hsnap⟩ := hix.deleted id hdead
    rcases hp with hp | hp
    · rw [hfree] at hp
      cases hp
    · rw [hsnap] at hp
      cases hp
  | blockUser blocker blocked =>
    obtain ⟨-, graph, -, hs⟩ := blockUser_ok (World.onStore_eq_ok.mp he).1
    rw [hs, cleanupLikesOnBlock_of_clean (Strangers.clean hc hix)]
    exact .refl _
  | batchCleanupProfile user maxEntries =>
    exact .of_batchCleanupProfile hix (World.onStore_eq_ok.mp he).1
  | reviewReport => exact .of_reviewReport he
  | appealModeration appellant id reasonHash =>
    obtain ⟨appeal, events, hs⟩ := appealModeration_ok (World.onStore_eq_ok.mp he).1
    rw [hs]
    exact .refl _
  | reviewAppeal => exact .of_reviewAppeal (World.onStore_eq_ok.mp he).1
  | _ =>
    rw [exec_postView he (by simp [Call.parts])]
    exact .refl _

end Contract
end Linkora
