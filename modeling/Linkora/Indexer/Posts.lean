import Linkora.Indexer.Projection

/-!
# Projecting events of posts again

A tip and a like add to a counter of their post, guarded by the row that they leave behind, and a
post is created and deleted once.  A second pass over events in chain order has nothing to
write.  After a failed attempt, which has left creations and deletions behind, a pass ends where
it would have ended without the attempt unless a deletion has overtaken a tip or a like.
-/

namespace Linkora
namespace Indexer

open Linkora.Replay

namespace Db

/-- The post is not there to be counted: no row, or a deleted one. -/
def Gone (s : PostTables) (postId : Nat) : Prop :=
  ∀ post, s.posts.lookup postId = some post → post.deletedAt ≠ none

/-- The event has nothing left to write. -/
def Settled (s : PostTables) (e : IngestEvent) : Prop :=
  match e.body with
  | .postCreated id _ _ => id ∈ s.posts
  | .postDeleted postId => Gone s postId
  | .postRemovedByModeration postId => Gone s postId
  | .tip _ _ _ _ => e.txHash ∈ s.tips
  | .like user postId => (postId, user) ∈ s.likes
  | _ => True

theorem markPostDeleted_of_gone {s : PostTables} {postId : Nat} (h : Gone s postId)
    (ledger : Nat) : s.markPostDeleted postId ledger = s := by
  have hposts : Table.update s.posts postId (fun post =>
      if post.deletedAt = none then { post with deletedAt := some ledger } else post) =
      s.posts := by
    apply Finmap.ext_lookup
    intro k
    rw [Table.lookup_update]
    by_cases hk : k = postId
    · rw [if_pos hk, hk]
      cases hpost : s.posts.lookup postId with
      | none => rfl
      | some post => rw [Option.map_some, if_neg (h post hpost)]
    · rw [if_neg hk]
  rw [PostTables.markPostDeleted, hposts]

theorem writePosts_of_settled {s : PostTables} {e : IngestEvent} (h : Settled s e) :
    writePosts s e = s := by
  obtain ⟨ledger, tx, body⟩ := e
  cases body with
  | postCreated id author content =>
    have hid : id ∈ s.posts := h
    show { s with posts := Table.insertNew s.posts id _ } = s
    rw [Table.insertNew, if_pos hid]
  | postDeleted postId => exact markPostDeleted_of_gone h ledger
  | postRemovedByModeration postId => exact markPostDeleted_of_gone h ledger
  | tip tipper postId amount fee => exact if_pos h
  | like user postId => exact if_pos h
  | _ => rfl

theorem gone_markPostDeleted (s : PostTables) (postId ledger : Nat) :
    Gone (s.markPostDeleted postId ledger) postId := by
  intro post hpost
  rw [PostTables.markPostDeleted] at hpost
  rw [Table.lookup_update, if_pos rfl] at hpost
  obtain ⟨post', _, rfl⟩ := Option.map_eq_some_iff.mp hpost
  by_cases hdeleted : post'.deletedAt = none
  · rw [if_pos hdeleted]
    exact Option.some_ne_none ledger
  · rw [if_neg hdeleted]
    exact hdeleted

theorem settled_self (s : PostTables) (e : IngestEvent) : Settled (writePosts s e) e := by
  obtain ⟨ledger, tx, body⟩ := e
  cases body with
  | postCreated id author content => exact Table.mem_insertNew.mpr (Or.inl rfl)
  | postDeleted postId => exact gone_markPostDeleted s postId ledger
  | postRemovedByModeration postId => exact gone_markPostDeleted s postId ledger
  | tip tipper postId amount fee =>
    show tx ∈ (s.handleTip tx tipper postId amount fee).tips
    rw [PostTables.handleTip]
    by_cases h : tx ∈ s.tips
    · rw [if_pos h]
      exact h
    · rw [if_neg h]
      exact Finmap.mem_insert.mpr (Or.inl rfl)
  | like user postId =>
    show (postId, user) ∈ (s.handleLike tx user postId).likes
    rw [PostTables.handleLike]
    by_cases h : (postId, user) ∈ s.likes
    · rw [if_pos h]
      exact h
    · rw [if_neg h]
      exact Finmap.mem_insert.mpr (Or.inl rfl)
  | _ => trivial

/-- What an event does to the rows of posts. -/
theorem posts_writePosts (s : PostTables) (e : IngestEvent) :
    (writePosts s e).posts = s.posts ∨
    (∃ id row, e.body.isCreation = true ∧ e.body.subject = some (.post id) ∧
      (writePosts s e).posts = Table.insertNew s.posts id row) ∨
    ∃ postId, ∃ f : PostRow → PostRow,
      (writePosts s e).posts = Table.update s.posts postId fun post =>
        if post.deletedAt = none then f post else post := by
  obtain ⟨ledger, tx, body⟩ := e
  cases body with
  | postCreated id author content => exact Or.inr (Or.inl ⟨id, _, rfl, rfl, rfl⟩)
  | postDeleted postId => exact Or.inr (Or.inr ⟨postId, _, rfl⟩)
  | postRemovedByModeration postId => exact Or.inr (Or.inr ⟨postId, _, rfl⟩)
  | tip tipper postId amount fee =>
    by_cases h : tx ∈ s.tips
    · exact Or.inl (congrArg PostTables.posts (if_pos h))
    · exact Or.inr (Or.inr ⟨postId, _, congrArg PostTables.posts (if_neg h)⟩)
  | like user postId =>
    by_cases h : (postId, user) ∈ s.likes
    · exact Or.inl (congrArg PostTables.posts (if_pos h))
    · exact Or.inr (Or.inr ⟨postId, _, congrArg PostTables.posts (if_neg h)⟩)
  | _ => exact Or.inl rfl

theorem mem_posts_writePosts {s : PostTables} {id : Nat} (h : id ∈ s.posts) (e : IngestEvent) :
    id ∈ (writePosts s e).posts := by
  rcases posts_writePosts s e with hsame | ⟨id', row, _, _, hnew⟩ | ⟨postId, f, hupdate⟩
  · rwa [hsame]
  · rw [hnew]
    exact Table.mem_insertNew.mpr (Or.inr h)
  · rw [hupdate]
    exact Table.mem_update.mpr h

theorem gone_writePosts {s : PostTables} {postId : Nat} (h : Gone s postId) {e : IngestEvent}
    (hnew : ¬ (e.body.isCreation = true ∧ e.body.subject = some (.post postId))) :
    Gone (writePosts s e) postId := by
  intro post hpost
  rcases posts_writePosts s e with hsame | ⟨id, row, hc, hs, hinsert⟩ | ⟨k, f, hupdate⟩
  · rw [hsame] at hpost
    exact h post hpost
  · have hid : postId ≠ id := by
      intro hid
      rw [← hid] at hs
      exact hnew ⟨hc, hs⟩
    rw [hinsert, Table.lookup_insertNew, if_neg hid] at hpost
    exact h post hpost
  · rw [hupdate, Table.lookup_update] at hpost
    by_cases hk : postId = k
    · rw [if_pos hk, ← hk] at hpost
      obtain ⟨post', hpost', rfl⟩ := Option.map_eq_some_iff.mp hpost
      rw [if_neg (h post' hpost')]
      exact h post' hpost'
    · rw [if_neg hk] at hpost
      exact h post hpost

theorem mem_tips_writePosts {s : PostTables} {tx : String} (h : tx ∈ s.tips) (e : IngestEvent) :
    tx ∈ (writePosts s e).tips := by
  obtain ⟨ledger, tx', body⟩ := e
  cases body with
  | tip tipper postId amount fee =>
    show tx ∈ (s.handleTip tx' tipper postId amount fee).tips
    rw [PostTables.handleTip]
    by_cases htx : tx' ∈ s.tips
    · rw [if_pos htx]
      exact h
    · rw [if_neg htx]
      exact Finmap.mem_insert.mpr (Or.inr h)
  | like user postId =>
    show tx ∈ (s.handleLike tx' user postId).tips
    rw [PostTables.handleLike]
    by_cases hlike : (postId, user) ∈ s.likes
    · rw [if_pos hlike]
      exact h
    · rw [if_neg hlike]
      exact h
  | _ => exact h

theorem mem_likes_writePosts {s : PostTables} {k : Nat × String} (h : k ∈ s.likes)
    (e : IngestEvent) : k ∈ (writePosts s e).likes := by
  obtain ⟨ledger, tx, body⟩ := e
  cases body with
  | tip tipper postId amount fee =>
    show k ∈ (s.handleTip tx tipper postId amount fee).likes
    rw [PostTables.handleTip]
    by_cases htx : tx ∈ s.tips
    · rw [if_pos htx]
      exact h
    · rw [if_neg htx]
      exact h
  | like user postId =>
    show k ∈ (s.handleLike tx user postId).likes
    rw [PostTables.handleLike]
    by_cases hlike : (postId, user) ∈ s.likes
    · rw [if_pos hlike]
      exact h
    · rw [if_neg hlike]
      exact Finmap.mem_insert.mpr (Or.inr h)
  | _ => exact h

/-- A settled event stays so, unless it deletes a post that is created afterwards. -/
theorem settled_writePosts {s : PostTables} {e : IngestEvent} (h : Settled s e) {e' : IngestEvent}
    (hnew : e.body.isDeletion = true →
      ¬ (e'.body.isCreation = true ∧ e'.body.subject = e.body.subject)) :
    Settled (writePosts s e') e := by
  obtain ⟨ledger, tx, body⟩ := e
  cases body with
  | postCreated id author content => exact mem_posts_writePosts h e'
  | postDeleted postId => exact gone_writePosts h (hnew rfl)
  | postRemovedByModeration postId => exact gone_writePosts h (hnew rfl)
  | tip tipper postId amount fee => exact mem_tips_writePosts h e'
  | like user postId => exact mem_likes_writePosts h e'
  | _ => trivial

theorem settled_foldl {before after : List IngestEvent} {e : IngestEvent}
    (h : ChainOrder (before ++ e :: after)) (s : PostTables) :
    Settled (after.foldl writePosts (writePosts s e)) e :=
  foldl_invariant (P := (Settled · e))
    (fun _ x hx hs => settled_writePosts hs fun _ => h.not_created_after x hx) (settled_self s e)

theorem social_idem {t : List IngestEvent} (h : ChainOrder t) (s : PostTables) :
    t.foldl writePosts (t.foldl writePosts s) = t.foldl writePosts s := by
  apply foldl_of_fixed
  intro e he
  obtain ⟨before, after, rfl⟩ := List.append_of_mem he
  apply writePosts_of_settled
  rw [List.foldl_append, List.foldl_cons]
  exact settled_foldl h _

/-! ## Posts after a failed attempt -/

/-- An event that is written through the pool of connections only edits the rows of posts, and
only those of its own post. -/
theorem writePosts_viaPool {x : IngestEvent} (hx : x.body.viaPool = true) :
    ∃ edit : Table Nat PostRow → Table Nat PostRow,
      (∀ s, writePosts s x = { s with posts := edit s.posts }) ∧
      ∀ postId, x.body.subject ≠ some (.post postId) → ∀ t f,
        edit (Table.update t postId f) = Table.update (edit t) postId f := by
  obtain ⟨ledger, tx, body⟩ := x
  have hne : ∀ id postId, some (Subject.post id) ≠ some (Subject.post postId) → postId ≠ id := by
    intro id postId hs hk
    exact hs (by rw [hk])
  cases body with
  | postCreated id author content =>
    exact ⟨fun t => Table.insertNew t id _, fun s => rfl,
      fun postId hs t f => Table.insertNew_update t (hne id postId hs) f _⟩
  | postDeleted id =>
    exact ⟨fun t => Table.update t id _, fun s => rfl,
      fun postId hs t f => Table.update_update t (hne id postId hs) f _⟩
  | postRemovedByModeration id =>
    exact ⟨fun t => Table.update t id _, fun s => rfl,
      fun postId hs t f => Table.update_update t (hne id postId hs) f _⟩
  | tip tipper postId amount fee => exact Bool.noConfusion hx
  | like user postId => exact Bool.noConfusion hx
  | _ => exact ⟨id, fun s => rfl, fun _ _ _ _ => rfl⟩

theorem writePosts_comm {x e : IngestEvent} (hx : x.body.viaPool = true)
    (he : e.body.viaPool = false) (hs : e.body.isReaction = true → x.body.subject ≠ e.body.subject)
    (s : PostTables) :
    writePosts (writePosts s x) e = writePosts (writePosts s e) x := by
  obtain ⟨edit, hedit, hcomm⟩ := writePosts_viaPool hx
  obtain ⟨ledger, tx, body⟩ := e
  cases body with
  | tip tipper postId amount fee =>
    show (writePosts s x).handleTip tx tipper postId amount fee =
      writePosts (s.handleTip tx tipper postId amount fee) x
    rw [hedit, hedit]
    simp only [PostTables.handleTip]
    by_cases htx : tx ∈ s.tips
    · rw [if_pos htx, if_pos htx]
    · rw [if_neg htx, if_neg htx]
      simp only [hcomm postId (hs rfl)]
  | like user postId =>
    show (writePosts s x).handleLike tx user postId = writePosts (s.handleLike tx user postId) x
    rw [hedit, hedit]
    simp only [PostTables.handleLike]
    by_cases hlike : (postId, user) ∈ s.likes
    · rw [if_pos hlike, if_pos hlike]
    · rw [if_neg hlike, if_neg hlike]
      simp only [hcomm postId (hs rfl)]
  | follow follower followee => rfl
  | unfollow follower followee => rfl
  | block blocker blocked => rfl
  | unblock blocker blocked => rfl
  | dmKeyPublished user publicKey => rfl
  | other => rfl
  | _ => exact Bool.noConfusion he

theorem writePosts_foldl_comm {u : List IngestEvent} {e : IngestEvent}
    (he : e.body.viaPool = false)
    (hu : ∀ x ∈ u, x.body.viaPool = true ∧
      (e.body.isReaction = true → x.body.subject ≠ e.body.subject)) (s : PostTables) :
    writePosts (u.foldl writePosts s) e = u.foldl writePosts (writePosts s e) := by
  induction u generalizing s with
  | nil => rfl
  | cons x rest ih =>
    obtain ⟨hx, hs⟩ := hu x List.mem_cons_self
    rw [List.foldl_cons, List.foldl_cons,
      ih (fun x' hx' => hu x' (List.mem_cons_of_mem x hx')) _, writePosts_comm hx he hs]

end Db

/-- An event that is written through the pool and names a post or a pool creates it, deletes the
post or changes the pool. -/
theorem EventBody.viaPool_subject {b : EventBody} {postId : Nat} (h : b.viaPool = true)
    (hs : b.subject = some (.post postId)) : b.isCreation = true ∨ b.isDeletion = true := by
  cases b with
  | postCreated id author content => exact Or.inl rfl
  | postDeleted postId => exact Or.inr rfl
  | postRemovedByModeration postId => exact Or.inr rfl
  | tip tipper postId amount fee => exact Bool.noConfusion h
  | like user postId => exact Bool.noConfusion h
  | poolCreated poolId token admins threshold => exact Or.inl rfl
  | poolDeposit poolId amount => exact Subject.noConfusion (Option.some.inj hs)
  | poolWithdraw poolId amount => exact Subject.noConfusion (Option.some.inj hs)
  | poolAdminAdded poolId newAdmin => exact Subject.noConfusion (Option.some.inj hs)
  | poolAdminRemoved poolId removedAdmin => exact Subject.noConfusion (Option.some.inj hs)
  | _ => exact absurd hs.symm (Option.some_ne_none _)

theorem EventBody.subject_of_isReaction {b : EventBody} (h : b.isReaction = true) :
    ∃ postId, b.subject = some (.post postId) := by
  cases b with
  | tip tipper postId amount fee => exact ⟨postId, rfl⟩
  | like user postId => exact ⟨postId, rfl⟩
  | _ => exact Bool.noConfusion h

/-- A pass over the events finds what a failed attempt has written through the pool, and ends
with the rows it would have ended with. -/
theorem Db.social_resume {u : List IngestEvent} (hchain : ChainOrder u) (hlate : NoLateDeletion u)
    (s : PostTables) :
    u.foldl writePosts ((u.filter (·.body.viaPool)).foldl writePosts s) = u.foldl writePosts s := by
  induction u generalizing s with
  | nil => rfl
  | cons e rest ih =>
    have hafter := (show ChainOrder ([] ++ e :: rest) from hchain).not_created_after
    have hmove : writePosts (((e :: rest).filter (·.body.viaPool)).foldl writePosts s) e =
        (rest.filter (·.body.viaPool)).foldl writePosts (writePosts s e) := by
      by_cases hpool : e.body.viaPool = true
      · rw [List.filter_cons, if_pos hpool, List.foldl_cons]
        apply writePosts_of_settled
        apply foldl_invariant (P := (Settled · e)) _ (settled_self s e)
        intro s' x hx hs
        exact settled_writePosts hs fun _ => hafter x (List.mem_filter.mp hx).1
      · rw [List.filter_cons, if_neg hpool]
        apply writePosts_foldl_comm (Bool.eq_false_iff.mpr hpool)
        intro x hx
        obtain ⟨hx, hxpool⟩ := List.mem_filter.mp hx
        refine ⟨hxpool, fun hreaction hs => ?_⟩
        obtain ⟨postId, he⟩ := EventBody.subject_of_isReaction hreaction
        rcases EventBody.viaPool_subject hxpool (hs.trans he) with hc | hd
        · exact hafter x hx ⟨hc, hs⟩
        · exact (List.pairwise_cons.mp hlate).1 x hx hreaction hd hs
    rw [List.foldl_cons, hmove, List.foldl_cons]
    exact ih (ChainOrder.right (t := [e]) hchain) (List.pairwise_cons.mp hlate).2 _

end Indexer
end Linkora
