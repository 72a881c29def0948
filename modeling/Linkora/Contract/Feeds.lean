import Linkora.Lib.Pages
import Linkora.Contract.Adjacency

/-!
# Feeds

Two views that walk the storage and hand out a page of what they find: the recent posts,
newest first, and the accounts that the followees of a user follow.  Either walk stops
when it has seen enough for the page, so two pages come from walks of different lengths.
-/

namespace Linkora
namespace Contract

/-- The loop over `offset..end` reads the elements of that stretch of the list. -/
def paginate {α : Type} (list : List α) (offset limit : Nat) : Except Panic (List α) :=
  if list.length ≤ offset then .ok []
  else do
    let stop ← u32 (offset + limit)
    return (list.take (min stop list.length)).drop offset

/-! ## Recent posts -/

def getPostCount (s : State) : Nat := s.posts.postCt.getD 0

def isLive (s : State) (id : Nat) : Bool := s.posts.post.has id && !s.posts.deletedPost.has id

/-- The loop of `get_recent_posts` from `id` downwards. -/
def scanRecent (s : State) (offset limit : Nat) : (id skipped scanned : Nat) → List Nat → List Nat
  | 0, _, _, page => page
  | id + 1, skipped, scanned, page =>
    if page.length < limit ∧ scanned < MAX_RECENT_SCAN then
      if isLive s (id + 1) then
        if skipped < offset then scanRecent s offset limit id (skipped + 1) (scanned + 1) page
        else scanRecent s offset limit id skipped (scanned + 1) (page ++ [id + 1])
      else scanRecent s offset limit id skipped (scanned + 1) page
    else page

def getRecentPosts (s : State) (offset limit : Nat) : Except Panic (List Nat) := do
  requireWithError (0 < limit ∧ limit ≤ MAX_PAGE_LIMIT) "limit must be between 1 and 50"
  return scanRecent s offset limit (getPostCount s) 0 0 []

/-- The numbers from `id` downwards, `n` of them at most, and none below one. -/
def downFrom : (id n : Nat) → List Nat
  | 0, _ => []
  | _ + 1, 0 => []
  | id + 1, n + 1 => (id + 1) :: downFrom id n

theorem mem_downFrom {id n k : Nat} : k ∈ downFrom id n ↔ 0 < k ∧ k ≤ id ∧ id < k + n := by
  fun_induction downFrom id n with
  | case1 =>
    rw [List.mem_nil_iff, false_iff]
    omega
  | case2 =>
    rw [List.mem_nil_iff, false_iff]
    omega
  | case3 id n ih =>
    rw [List.mem_cons, ih]
    omega

theorem downFrom_descends (id n : Nat) : (downFrom id n).Pairwise (· > ·) := by
  fun_induction downFrom id n with
  | case1 => exact .nil
  | case2 => exact .nil
  | case3 id n ih =>
    refine .cons (fun k hk => ?_) ih
    exact Nat.lt_succ_of_le (mem_downFrom.mp hk).2.1

/-- The posts among the last `MAX_RECENT_SCAN` ids, newest first. -/
def recentFeed (s : State) : List Nat :=
  (downFrom (getPostCount s) MAX_RECENT_SCAN).filter fun id => isLive s id

/-- The walk adds to the page what is still missing of it among the ids to come. -/
theorem scanRecent_eq (s : State) (offset limit id skipped scanned : Nat) (page : List Nat) :
    scanRecent s offset limit id skipped scanned page =
      page ++ Linkora.page ((downFrom id (MAX_RECENT_SCAN - scanned)).filter fun id => isLive s id)
        (offset - skipped) (limit - page.length) := by
  induction id generalizing skipped scanned page with
  | zero => simp [scanRecent, downFrom, Linkora.page]
  | succ id ih =>
    rw [scanRecent]
    split
    · rename_i hgo
      obtain ⟨n, hn⟩ : ∃ n, MAX_RECENT_SCAN - scanned = n + 1 :=
        ⟨MAX_RECENT_SCAN - scanned - 1, by omega⟩
      have hn' : MAX_RECENT_SCAN - (scanned + 1) = n := by omega
      rw [hn, downFrom]
      split
      · rename_i hlive
        rw [List.filter_cons_of_pos hlive]
        split
        · rename_i hskip
          obtain ⟨k, hk⟩ : ∃ k, offset - skipped = k + 1 := ⟨offset - skipped - 1, by omega⟩
          have hk' : offset - (skipped + 1) = k := by omega
          rw [ih, hn', hk, hk', Linkora.page, Linkora.page, List.drop_succ_cons]
        · rename_i hskip
          obtain ⟨k, hk⟩ : ∃ k, limit - page.length = k + 1 :=
            ⟨limit - page.length - 1, by omega⟩
          have hk' : limit - (page ++ [id + 1]).length = k := by
            rw [List.length_append, List.length_singleton]
            omega
          have hzero : offset - skipped = 0 := by omega
          rw [ih, hn', hk, hk', hzero, Linkora.page, Linkora.page, List.drop_zero, List.drop_zero,
            List.take_succ_cons, List.append_assoc, List.singleton_append]
      · rename_i hdead
        rw [List.filter_cons_of_neg hdead, ih, hn']
    · rename_i hstop
      have hnone : limit - page.length = 0 ∨ MAX_RECENT_SCAN - scanned = 0 := by omega
      rcases hnone with hnone | hnone
      · rw [hnone, Linkora.page, List.take_zero, List.append_nil]
      · rw [hnone, downFrom]
        simp [Linkora.page]

theorem getRecentPosts_eq (s : State) (offset : Nat) {limit : Nat} (hpos : 0 < limit)
    (hle : limit ≤ MAX_PAGE_LIMIT) :
    getRecentPosts s offset limit = .ok (page (recentFeed s) offset limit) := by
  have hlimit : requireWithError (0 < limit ∧ limit ≤ MAX_PAGE_LIMIT)
      "limit must be between 1 and 50" = .ok () := requireWithError_eq_ok.mpr ⟨hpos, hle⟩
  rw [getRecentPosts, Checked.bind_of_ok hlimit, scanRecent_eq]
  rfl

/-- Every page of recent posts is a stretch of one list, which has the ids of the live
posts among the last `MAX_RECENT_SCAN` ones in descending order; so the pages at the
multiples of the limit put this list together, no id lost and none repeated. -/
theorem recent_posts_paged (s : State) {limit : Nat} (hpos : 0 < limit)
    (hle : limit ≤ MAX_PAGE_LIMIT) :
    (∀ offset, getRecentPosts s offset limit =
      .ok (((recentFeed s).drop offset).take limit)) ∧
    (∀ id, id ∈ recentFeed s ↔ 0 < id ∧ id ≤ getPostCount s ∧
      getPostCount s < id + MAX_RECENT_SCAN ∧ s.posts.post.has id = true ∧
      s.posts.deletedPost.has id = false) ∧
    (recentFeed s).Pairwise (· > ·) ∧
    ∀ k pages, (∀ i < k, getRecentPosts s (i * limit) limit = .ok (pages i)) →
      (recentFeed s).length ≤ k * limit →
      ((List.range k).map pages).flatten = recentFeed s := by
  refine ⟨fun offset => getRecentPosts_eq s offset hpos hle, fun id => ?_,
    (downFrom_descends _ _).filter _, fun k pages hpages hall => ?_⟩
  · rw [recentFeed, List.mem_filter, mem_downFrom]
    simp only [isLive, Bool.and_eq_true, Bool.not_eq_true']
    tauto
  · rw [← page.flatten_all (recentFeed s) hall]
    refine congrArg List.flatten (List.map_congr_left fun i hi => ?_)
    have hpage := hpages i (List.mem_range.mp hi)
    rw [getRecentPosts_eq s _ hpos hle] at hpage
    exact (Except.ok.inj hpage).symm

/-- Three posts, the second of which is deleted. -/
theorem recent_posts_of_alice :
    ∃ w : World Book, Reachable (bookHost linkora) w ∧
      getRecentPosts w.store 0 1 = .ok [3] ∧ getRecentPosts w.store 1 1 = .ok [1] := by
  have hdemo : (demo (fun _ _ _ => True) (fun _ _ => 0)
      [(signedAt 2, .createPost alice [1]), (signedAt 3, .createPost alice [2]),
        (signedAt 4, .createPost alice [3]), (signedAt 5, .deletePost alice 2)]).map
        (fun w => (recentFeed w.store)) = some [3, 1] := by decide
  obtain ⟨w, hw, hfeed⟩ := reachable_demo hdemo
  have hpaged := (recent_posts_paged w.store Nat.one_pos (by decide)).1
  refine ⟨w, hw.reachable, ?_, ?_⟩
  · rw [hpaged 0, hfeed]
    rfl
  · rw [hpaged 1, hfeed]
    rfl

end Contract
end Linkora
