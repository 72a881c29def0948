import Linkora.Contract.Silent
import Linkora.Indexer.Delivery

/-!
# Tables that follow the storage

What the tables of follows, posts and likes have to record of the contract's storage for the
next event to bring them up to date, and what each kind of event does to that record.
-/

namespace Linkora
namespace Indexer

open Contract (Address Event Graph Post PostView PostsIndexed)

variable {t : Texts}

/-! ## Follows -/

/-- The rows of `follows` are the edges. -/
def FollowsTracked (t : Texts) (g : Graph) (follows : Table (String × String) Nat) : Prop :=
  ∀ x y, (x, y) ∈ follows ↔ ∃ a b, x = t.address a ∧ y = t.address b ∧ g.Edges a b

namespace FollowsTracked

variable {g g' : Graph} {follows : Table (String × String) Nat} {a b : Address}

theorem congr (h : FollowsTracked t g follows) (hedge : g'.edge = g.edge) :
    FollowsTracked t g' follows := by
  intro x y
  rw [h x y]
  unfold Graph.Edges
  rw [hedge]

theorem follow (h : FollowsTracked t g follows) (hg : g.link a b = .ok g') (ledger : Nat) :
    FollowsTracked t g' (Table.insertNew follows (t.address a, t.address b) ledger) := by
  intro x y
  rw [Table.mem_insertNew, h x y, Prod.mk.injEq]
  constructor
  · rintro (⟨hx, hy⟩ | ⟨u, v, hx, hy, huv⟩)
    · exact ⟨a, b, hx, hy, (Graph.link_edges hg a b).mpr (Or.inr ⟨rfl, rfl⟩)⟩
    · exact ⟨u, v, hx, hy, (Graph.link_edges hg u v).mpr (Or.inl huv)⟩
  · rintro ⟨u, v, hx, hy, huv⟩
    rcases (Graph.link_edges hg u v).mp huv with huv | ⟨hu, hv⟩
    · exact Or.inr ⟨u, v, hx, hy, huv⟩
    · rw [hu] at hx
      rw [hv] at hy
      exact Or.inl ⟨hx, hy⟩

theorem unfollow (h : FollowsTracked t g follows) (hg : g.unlink a b = .ok g') :
    FollowsTracked t g' (follows.erase (t.address a, t.address b)) := by
  have hedges := (Graph.unlink_ok hg).1
  intro x y
  rw [Finmap.mem_erase, h x y, ne_eq, Prod.mk.injEq]
  constructor
  · rintro ⟨hne, u, v, hx, hy, huv⟩
    refine ⟨u, v, hx, hy, (hedges u v).mpr ⟨huv, fun hsame => hne ?_⟩⟩
    rw [hx, hy, hsame.1, hsame.2]
    exact ⟨rfl, rfl⟩
  · rintro ⟨u, v, hx, hy, huv⟩
    obtain ⟨huv, hne⟩ := (hedges u v).mp huv
    refine ⟨fun hsame => hne ?_, u, v, hx, hy, huv⟩
    rw [hx, hy] at hsame
    exact ⟨t.address_injective hsame.1, t.address_injective hsame.2⟩

end FollowsTracked

/-! ## Posts and likes -/

/-- A removal of the post by moderation stands in the log. -/
def removedIn (events : List Event) (id : Nat) : Bool :=
  events.any fun e => match e with
    | .postRemovedByModeration postId _ => postId == id
    | _ => false

theorem removedIn_append {events : List Event} {id : Nat} (h : removedIn events id = true)
    (es : List Event) : removedIn (events ++ es) id = true := by
  rw [removedIn, List.any_append, Bool.or_eq_true]
  exact Or.inl h

/-- Each post that is held has a row with its counters, which is marked deleted only after a
removal; rows have ids that were given out; a recorded like of such a post is a like; and a like
is recorded for a post that has a row. -/
structure PostsTracked (t : Texts) (v : PostView) (events : List Event) (s : PostTables) :
    Prop where
  row : ∀ id post, v.Holds id post → ∃ row, s.posts.lookup id = some row ∧
    row.tipTotal = post.tipTotal ∧ row.likeCount = post.likeCount ∧
    (row.deletedAt = none ∨ removedIn events id = true)
  known : ∀ id, id ∈ s.posts → id ≤ v.posts.lastId
  liked : ∀ id post u, v.Holds id post → (id, t.address u) ∈ s.likes →
    v.likes.like.has (id, u) = true
  referenced : ∀ id x, (id, x) ∈ s.likes → id ∈ s.posts

namespace PostsTracked

variable {v v' : PostView} {events events' : List Event} {s : PostTables} {id : Nat} {post : Post}

/-- The log has grown, and the posts that are held are held as before. -/
theorem kept (h : PostsTracked t v events s) (hv : v.Kept v') (es : List Event) :
    PostsTracked t v' (events ++ es) s where
  row id post hp := by
    obtain ⟨row, hrow, htips, hlikes, hdeleted⟩ := h.row id post (hv.holds id post hp)
    exact ⟨row, hrow, htips, hlikes, hdeleted.imp_right fun hr => removedIn_append hr es⟩
  known id hid := (h.known id hid).trans hv.lastId
  liked id post u hp hu := hv.like id post u hp (h.liked id post u (hv.holds id post hp) hu)
  referenced := h.referenced

/-- The row of a post that is gone, or was removed once, is marked deleted. -/
theorem markPostDeleted (h : PostsTracked t v events s)
    (hid : ∀ post, v.Holds id post → removedIn events id = true) (ledger : Nat) :
    PostsTracked t v events (s.markPostDeleted id ledger) where
  row i p hp := by
    obtain ⟨row, hrow, htips, hlikes, hdeleted⟩ := h.row i p hp
    show ∃ row, (Table.update s.posts id _).lookup i = some row ∧ _
    rw [Table.lookup_update]
    by_cases hi : i = id
    · rw [hi] at hrow hp
      rw [if_pos hi, hrow, Option.map_some]
      refine ⟨_, rfl, ?_, ?_, Or.inr (by rw [hi]; exact hid p hp)⟩
      · split
        · exact htips
        · exact htips
      · split
        · exact hlikes
        · exact hlikes
    · rw [if_neg hi]
      exact ⟨row, hrow, htips, hlikes, hdeleted⟩
  known i hi := h.known i (Table.mem_update.mp hi)
  liked := h.liked
  referenced i x hx := Table.mem_update.mpr (h.referenced i x hx)

/-- An edit of a stored post that was never removed, made in its row as well. -/
theorem row_of_edit (h : PostsTracked t v events s) (hix : PostsIndexed v)
    (stored : v.posts.post.get id = some post) (hremoved : removedIn events id = false)
    {post' : Post} {f : PostRow → PostRow} {i : Nat} {p : Post} (hp : v'.Holds i p)
    (hposts : v'.posts.post = v.posts.post.set id post') (hsnap : v'.removed = v.removed)
    (hedit : ∀ row : PostRow, row.deletedAt = none → row.tipTotal = post.tipTotal →
      row.likeCount = post.likeCount → (f row).tipTotal = post'.tipTotal ∧
        (f row).likeCount = post'.likeCount ∧ (f row).deletedAt = none)
    (es : List Event) :
    ∃ row, (Table.update s.posts id f).lookup i = some row ∧ row.tipTotal = p.tipTotal ∧
      row.likeCount = p.likeCount ∧
      (row.deletedAt = none ∨ removedIn (events ++ es) i = true) := by
  rw [Table.lookup_update]
  rcases hix.holds_of_rewrite stored hp hposts hsnap with ⟨hi, rfl⟩ | ⟨hi, hold⟩
  · obtain ⟨row, hrow, htips, hlikes, hdeleted⟩ := h.row id post (Or.inl stored)
    rw [hremoved] at hdeleted
    obtain ⟨htips', hlikes', hdeleted'⟩ :=
      hedit row (hdeleted.resolve_right Bool.false_ne_true) htips hlikes
    rw [if_pos hi, hrow, Option.map_some]
    exact ⟨f row, rfl, htips', hlikes', Or.inl hdeleted'⟩
  · obtain ⟨row, hrow, htips, hlikes, hdeleted⟩ := h.row i p hold
    rw [if_neg hi]
    exact ⟨row, hrow, htips, hlikes, hdeleted.imp_right fun hr => removedIn_append hr es⟩

/-- A post under the next id gets a row of its own. -/
theorem insertPost (h : PostsTracked t v events s) (hix : PostsIndexed v)
    (fresh : post.id = v.posts.lastId + 1) (htips : post.tipTotal = 0) (hlikes : post.likeCount = 0)
    (author content : String) (es : List Event) :
    PostsTracked t { v with posts := v.posts.insert post } (events ++ es)
      (s.insertPost post.id author content) := by
  have hnew : post.id ∉ s.posts := by
    intro hmem
    have hle := h.known post.id hmem
    omega
  have hholds : ∀ i p, PostView.Holds { v with posts := v.posts.insert post } i p →
      (i = post.id ∧ p = post) ∨ (i ≠ post.id ∧ v.Holds i p) := by
    intro i p hp
    refine PostView.holds_of_set hp rfl fun j q hq => ⟨?_, hq⟩
    have hle := (hix.known j q (Or.inr hq)).2.1
    omega
  refine ⟨fun i p hp => ?_, fun i hi => ?_, fun i p u hp hu => ?_, fun i x hx => ?_⟩
  · show ∃ row, (Table.insertNew s.posts post.id _).lookup i = some row ∧ _
    rw [Table.lookup_insertNew]
    rcases hholds i p hp with ⟨hi, rfl⟩ | ⟨hi, hp⟩
    · rw [if_pos hi, Finmap.lookup_eq_none.mpr hnew]
      exact ⟨_, rfl, htips.symm, hlikes.symm, Or.inl rfl⟩
    · rw [if_neg hi]
      obtain ⟨row, hrow, ht, hl, hdeleted⟩ := h.row i p hp
      exact ⟨row, hrow, ht, hl, hdeleted.imp_right fun hr => removedIn_append hr es⟩
  · show i ≤ post.id
    rcases Table.mem_insertNew.mp hi with hi | hi
    · exact hi.le
    · have hle := h.known i hi
      omega
  · rcases hholds i p hp with ⟨hi, -⟩ | ⟨-, hp⟩
    · rw [hi] at hu
      exact absurd (h.referenced post.id _ hu) hnew
    · exact h.liked i p u hp hu
  · exact Table.mem_insertNew.mpr (Or.inr (h.referenced i x hx))

/-- A tip without a fee, for a transaction that has not tipped, of a post never removed. -/
theorem handleTip (h : PostsTracked t v events s) (hix : PostsIndexed v)
    (stored : v.posts.post.get id = some post) (hremoved : removedIn events id = false)
    {txHash : String} (htx : txHash ∉ s.tips) (tipper : String) (amount : Int) (es : List Event) :
    PostsTracked t
      { v with posts := { v.posts with
          post := v.posts.post.set id { post with tipTotal := post.tipTotal + amount } } }
      (events ++ es) (s.handleTip txHash tipper id amount 0) := by
  have htables : s.handleTip txHash tipper id amount 0 =
      { s with
        tips := s.tips.insert txHash ⟨id, tipper, amount, 0⟩
        posts := Table.update s.posts id fun post =>
          if post.deletedAt = none then { post with tipTotal := post.tipTotal + amount }
          else post } := if_neg htx
  rw [htables]
  refine ⟨fun i p hp => h.row_of_edit hix stored hremoved hp rfl rfl ?_ es, fun i hi => ?_,
    fun i p u hp hu => ?_, fun i x hx => ?_⟩
  · intro row hdeleted htips hlikes
    rw [if_pos hdeleted]
    exact ⟨congrArg (· + amount) htips, hlikes, hdeleted⟩
  · exact h.known i (Table.mem_update.mp hi)
  · rcases hix.holds_of_rewrite stored hp rfl rfl with ⟨hi, -⟩ | ⟨-, hold⟩
    · rw [hi] at hu ⊢
      exact h.liked id post u (Or.inl stored) hu
    · exact h.liked i p u hold hu
  · exact Table.mem_update.mpr (h.referenced i x hx)

/-- A new like of a post never removed. -/
theorem handleLike (h : PostsTracked t v events s) (hix : PostsIndexed v)
    (stored : v.posts.post.get id = some post) (hremoved : removedIn events id = false)
    {user : Address} (hnew : v.likes.like.has (id, user) = false) (txHash : String)
    (es : List Event) :
    PostsTracked t
      { v with
        posts := { v.posts with
          post := v.posts.post.set id { post with likeCount := post.likeCount + 1 } }
        likes := v.likes.add id post.likeCount user }
      (events ++ es) (s.handleLike txHash (t.address user) id) := by
  have hunrecorded : (id, t.address user) ∉ s.likes := by
    intro hmem
    rw [h.liked id post user (Or.inl stored) hmem] at hnew
    cases hnew
  have htables : s.handleLike txHash (t.address user) id =
      { s with
        likes := s.likes.insert (id, t.address user) ⟨txHash⟩
        posts := Table.update s.posts id fun post =>
          if post.deletedAt = none then { post with likeCount := post.likeCount + 1 }
          else post } := if_neg hunrecorded
  rw [htables]
  refine ⟨fun i p hp => h.row_of_edit hix stored hremoved hp rfl rfl ?_ es, fun i hi => ?_,
    fun i p u hp hu => ?_, fun i x hx => ?_⟩
  · intro row hdeleted htips hlikes
    rw [if_pos hdeleted]
    exact ⟨htips, congrArg (· + 1) hlikes, hdeleted⟩
  · exact h.known i (Table.mem_update.mp hi)
  · show (v.likes.like.set (id, user) true).has (i, u) = true
    rw [Store.has_set]
    by_cases hiu : (i, u) = (id, user)
    · rw [if_pos hiu]
    · rw [if_neg hiu]
      have hmem : (i, t.address u) ∈ s.likes := by
        rcases Finmap.mem_insert.mp hu with heq | hmem
        · obtain ⟨hi, hu⟩ := Prod.mk.inj heq
          exact absurd (Prod.ext hi (t.address_injective hu)) hiu
        · exact hmem
      rcases hix.holds_of_rewrite stored hp rfl rfl with ⟨hi, -⟩ | ⟨-, hold⟩
      · rw [hi] at hmem ⊢
        exact h.liked id post u (Or.inl stored) hmem
      · exact h.liked i p u hold hmem
  · refine Table.mem_update.mpr ?_
    rcases Finmap.mem_insert.mp hx with heq | hx
    · obtain ⟨row, hrow, -⟩ := h.row id post (Or.inl stored)
      rw [(Prod.mk.inj heq).1]
      exact Finmap.mem_of_lookup_eq_some hrow
    · exact h.referenced i x hx

end PostsTracked

end Indexer
end Linkora
