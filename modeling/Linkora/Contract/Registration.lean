import Linkora.Contract.Adjacency

/-!
# Registration and the follow graph

The first `set_profile` of a user writes zero into both of its counts.  That is
harmless for a user without edges.  A user may have edges by then, since `follow`
asks for no profile and `delete_profile` leaves the graph in place; the counts then
no longer cover the slots, and the pages read from them come out empty.
-/

namespace Linkora
namespace Contract
namespace Graph

/-- What holds of the indexes of every reachable graph, whatever registrations
have done to the counts. -/
structure Compact (g : Graph) : Prop where
  following : g.following.Compact U32_MAX
  followers : g.followers.Compact U32_MAX

variable {g g' : Graph} {a b user : Address}

theorem swapRemoveFromIndex_following_ok (h : g.swapRemoveFromIndex a b true = .ok g') :
    ∃ ix, g.following.swapRemove a b = .ok ix ∧ g' = { g with following := ix } := by
  rw [swapRemoveFromIndex, if_pos rfl] at h
  cases hr : g.following.swapRemove a b with
  | error e => rw [hr] at h; cases h
  | ok ix => rw [hr] at h; exact ⟨ix, rfl, (Except.ok.inj h).symm⟩

theorem swapRemoveFromIndex_followers_ok (h : g.swapRemoveFromIndex a b false = .ok g') :
    ∃ ix, g.followers.swapRemove a b = .ok ix ∧ g' = { g with followers := ix } := by
  rw [swapRemoveFromIndex, if_neg Bool.false_ne_true] at h
  cases hr : g.followers.swapRemove a b with
  | error e => rw [hr] at h; cases h
  | ok ix => rw [hr] at h; exact ⟨ix, rfl, (Except.ok.inj h).symm⟩

theorem unlink_cases (h : g.unlink a b = .ok g') :
    ¬g.Edges a b ∧ g' = g ∨ g.Edges a b ∧ ∃ following followers,
      g.following.swapRemove a b = .ok following ∧ g.followers.swapRemove b a = .ok followers ∧
      g' = { g with edge := g.edge.remove (a, b), following, followers } := by
  rw [unlink] at h
  split at h
  · rename_i hab
    simp only [removeEdge, Checked.bind_eq_ok] at h
    obtain ⟨g₁, hg₁, h⟩ := h
    obtain ⟨following, hfollowing, rfl⟩ := swapRemoveFromIndex_following_ok hg₁
    obtain ⟨followers, hfollowers, rfl⟩ := swapRemoveFromIndex_followers_ok h
    exact Or.inr ⟨hab, following, followers, hfollowing, hfollowers, rfl⟩
  · rename_i hab
    exact Or.inl ⟨hab, (Except.ok.inj h).symm⟩

theorem detachFollower_ok {slot : Option Address} (h : g.detachFollower user slot = .ok g') :
    (slot = none ∧ g' = g) ∨
    ∃ follower ix, slot = some follower ∧ g.following.swapRemove follower user = .ok ix ∧
      g' = { g with
        edge := g.edge.remove (follower, user)
        followers := { g.followers with pos := g.followers.pos.remove (user, follower) }
        following := ix } := by
  cases slot with
  | none =>
    rw [detachFollower, Except.ok.injEq] at h
    exact Or.inl ⟨rfl, h.symm⟩
  | some follower =>
    rw [detachFollower] at h
    obtain ⟨ix, hix, rfl⟩ := swapRemoveFromIndex_following_ok h
    exact Or.inr ⟨follower, ix, rfl, hix, rfl⟩

theorem detachFollowee_ok {slot : Option Address} (h : g.detachFollowee user slot = .ok g') :
    (slot = none ∧ g' = g) ∨
    ∃ followee ix, slot = some followee ∧ g.followers.swapRemove followee user = .ok ix ∧
      g' = { g with
        edge := g.edge.remove (user, followee)
        following := { g.following with pos := g.following.pos.remove (user, followee) }
        followers := ix } := by
  cases slot with
  | none =>
    rw [detachFollowee, Except.ok.injEq] at h
    exact Or.inl ⟨rfl, h.symm⟩
  | some followee =>
    rw [detachFollowee] at h
    obtain ⟨ix, hix, rfl⟩ := swapRemoveFromIndex_followers_ok h
    exact Or.inr ⟨followee, ix, rfl, hix, rfl⟩

namespace Compact

theorem addEdge (h : g.Compact) (hok : g.addEdge a b = .ok g') : g'.Compact := by
  simp only [Graph.addEdge, Checked.bind_eq_ok, Checked.pure_eq_ok, u32_eq_ok] at hok
  obtain ⟨-, ⟨hroom, -⟩, -, ⟨hroom', -⟩, rfl⟩ := hok
  exact ⟨h.following.append b hroom, h.followers.append a hroom'⟩

theorem link (h : g.Compact) (hok : g.link a b = .ok g') : g'.Compact := by
  rcases link_cases hok with ⟨-, rfl⟩ | ⟨-, hok⟩
  · exact h
  · exact h.addEdge hok

theorem unlink (h : g.Compact) (hok : g.unlink a b = .ok g') : g'.Compact := by
  rcases unlink_cases hok with ⟨-, rfl⟩ | ⟨-, ix, ix', hix, hix', rfl⟩
  · exact h
  · exact ⟨h.following.swapRemove hix, h.followers.swapRemove hix'⟩

theorem cleanupFollowOnBlock (h : g.Compact) (hok : g.cleanupFollowOnBlock a b = .ok g') :
    g'.Compact := by
  simp only [Graph.cleanupFollowOnBlock, Checked.bind_eq_ok] at hok
  obtain ⟨g₁, hg₁, hok⟩ := hok
  exact (h.unlink hg₁).unlink hok

theorem migrate {users : List Address} (h : g.Compact)
    (hok : users.foldlM Graph.migrateUser g = .ok g') : g'.Compact :=
  migrateUsers_invariant (fun _ _ _ _ hg hg' => hg.link hg')
    (fun _ _ _ _ hg => ⟨hg.following, hg.followers⟩) h hok

/-! The cleanup loops, against the count that they hold themselves. -/

theorem cleanupFollower {count : Nat} (h : (g.setFollowersCount user (count + 1)).Compact)
    (hok : Graph.cleanupFollower user count g = .ok g') :
    (g'.setFollowersCount user count).Compact := by
  simp only [Graph.cleanupFollower, Checked.bind_eq_ok, Checked.pure_eq_ok] at hok
  obtain ⟨g₁, hg₁, rfl⟩ := hok
  have hsides : g₁.following.Compact U32_MAX ∧ g₁.followers.idx = g.followers.idx ∧
      g₁.followers.count = g.followers.count := by
    rcases detachFollower_ok hg₁ with ⟨-, rfl⟩ | ⟨follower, ix, -, hix, rfl⟩
    · exact ⟨h.following, rfl, rfl⟩
    · exact ⟨h.following.swapRemove hix, rfl, rfl⟩
  obtain ⟨hfollowing, hidx, hcount⟩ := hsides
  refine ⟨hfollowing, h.followers.drop_last (size_setFollowersCount g user (count + 1))
    (size_setFollowersCount _ user count) ?_ (fun x hx => ?_)⟩
  · show g₁.followers.idx.remove (user, count) = g.followers.idx.remove (user, count)
    rw [hidx]
  · show (g₁.followers.count.set user count).get x =
      (g.followers.count.set user (count + 1)).get x
    rw [Store.get_set_of_ne hx, Store.get_set_of_ne hx, hcount]

theorem cleanupFollowing {count : Nat} (h : (g.setFollowingCount user (count + 1)).Compact)
    (hok : Graph.cleanupFollowing user count g = .ok g') :
    (g'.setFollowingCount user count).Compact := by
  simp only [Graph.cleanupFollowing, Checked.bind_eq_ok, Checked.pure_eq_ok] at hok
  obtain ⟨g₁, hg₁, rfl⟩ := hok
  have hsides : g₁.followers.Compact U32_MAX ∧ g₁.following.idx = g.following.idx ∧
      g₁.following.count = g.following.count := by
    rcases detachFollowee_ok hg₁ with ⟨-, rfl⟩ | ⟨followee, ix, -, hix, rfl⟩
    · exact ⟨h.followers, rfl, rfl⟩
    · exact ⟨h.followers.swapRemove hix, rfl, rfl⟩
  obtain ⟨hfollowers, hidx, hcount⟩ := hsides
  refine ⟨h.following.drop_last (size_setFollowingCount g user (count + 1))
    (size_setFollowingCount _ user count) ?_ (fun x hx => ?_), hfollowers⟩
  · show g₁.following.idx.remove (user, count) = g.following.idx.remove (user, count)
    rw [hidx]
  · show (g₁.following.count.set user count).get x =
      (g.following.count.set user (count + 1)).get x
    rw [Store.get_set_of_ne hx, Store.get_set_of_ne hx, hcount]

/-- A count may be written down as it is read, or lowered. -/
theorem setFollowersCount (h : g.Compact) {count : Nat} (hle : count ≤ g.followers.size user) :
    (g.setFollowersCount user count).Compact := by
  exact ⟨h.following,
    h.followers.of_le fun x => ⟨size_setFollowersCount_le hle x, fun _ _ => rfl⟩⟩

theorem setFollowingCount (h : g.Compact) {count : Nat} (hle : count ≤ g.following.size user) :
    (g.setFollowingCount user count).Compact := by
  exact ⟨h.following.of_le fun x => ⟨size_setFollowingCount_le hle x, fun _ _ => rfl⟩,
    h.followers⟩

theorem cleanupUser (h : g.Compact) {maxEntries : Nat} {r : Nat × Nat × Nat × Graph}
    (hok : g.cleanupUser user maxEntries = .ok r) : r.2.2.2.Compact := by
  simp only [Graph.cleanupUser, Checked.bind_eq_ok, Checked.pure_eq_ok] at hok
  obtain ⟨⟨fCount, left, g₁⟩, hr₁, ⟨followingCount, left', g₂⟩, hr₂, rfl⟩ := hok
  have h₁ := Checked.drain_invariant
    (P := fun count (g : Graph) => (g.setFollowersCount user count).Compact)
    (fun count b b' hb hb' => cleanupFollower hb hb') (h.setFollowersCount le_rfl) hr₁
  exact Checked.drain_invariant
    (P := fun count (g : Graph) => (g.setFollowingCount user count).Compact)
    (fun count b b' hb hb' => cleanupFollowing hb hb') (h₁.setFollowingCount le_rfl) hr₂

theorem initCounts (h : g.Compact) (user : Address) : (g.initCounts user).Compact :=
  (h.setFollowingCount (Nat.zero_le _)).setFollowersCount (Nat.zero_le _)

end Compact
end Graph

/-- In every reachable state the slots below a count are in use. -/
theorem Graph.Compact.of_reachable {σ : Type} {host : Host σ} {w : World σ}
    (h : Reachable host w) : w.store.graph.Compact := by
  refine h.store_invariant (I := fun s => s.graph.Compact) ?_ ?_
  · intro s env admin treasury feeBps hs
    obtain ⟨-, -, access, events, rfl⟩ := initializeContract_ok hs
    exact ⟨.empty _, .empty _⟩
  · intro w env c w' hw he
    cases exec_graphStep he with
    | same hg => exact hg ▸ hw
    | link a b hne hg => exact hw.link hg
    | unlink a b hg => exact hw.unlink hg
    | block a b hg => exact hw.cleanupFollowOnBlock hg
    | migrate users hg => exact hw.migrate hg
    | cleanup user maxEntries r hloop hg => exact hg ▸ hw.cleanupUser hloop
    | register user username creatorToken hcall hfresh hg => exact hg ▸ hw.initCounts user

/-! ## What a registration disturbs -/

/-- The user who registers by a call, for the first time or again. -/
def Call.registers : Call → Option Address
  | .setProfile user _ _ => some user
  | _ => none

/-- The user is registered already, or has no edges by the counts. -/
def RegistersQuietly (s : State) (user : Address) : Prop :=
  s.profiles.profile.has user = true ∨
    (s.graph.following.size user = 0 ∧ s.graph.followers.size user = 0)

theorem initCounts_following_size (g : Graph) (user x : Address) :
    (g.initCounts user).following.size x = if x = user then 0 else g.following.size x := by
  by_cases hx : x = user
  · simp [Graph.initCounts, Graph.setFollowingCount, Graph.setFollowersCount, Index.size, hx]
  · simp [Graph.initCounts, Graph.setFollowingCount, Graph.setFollowersCount, Index.size,
      Store.get_set_of_ne hx, hx]

theorem initCounts_followers_size (g : Graph) (user x : Address) :
    (g.initCounts user).followers.size x = if x = user then 0 else g.followers.size x := by
  by_cases hx : x = user
  · simp [Graph.initCounts, Graph.setFollowingCount, Graph.setFollowersCount, Index.size, hx]
  · simp [Graph.initCounts, Graph.setFollowingCount, Graph.setFollowersCount, Index.size,
      Store.get_set_of_ne hx, hx]

/-- Two graphs with the same edges, slots, positions and sizes. -/
structure Graph.SameView (g g' : Graph) : Prop where
  edge : g'.edge = g.edge
  followingSize : ∀ x, g'.following.size x = g.following.size x
  followingIdx : g'.following.idx = g.following.idx
  followingPos : g'.following.pos = g.following.pos
  followersSize : ∀ x, g'.followers.size x = g.followers.size x
  followersIdx : g'.followers.idx = g.followers.idx
  followersPos : g'.followers.pos = g.followers.pos

namespace Graph.SameView

variable {g g' : Graph}

theorem refl (g : Graph) : g.SameView g :=
  ⟨rfl, fun _ => rfl, rfl, rfl, fun _ => rfl, rfl, rfl⟩

theorem symm (h : g.SameView g') : g'.SameView g :=
  ⟨h.edge.symm, fun x => (h.followingSize x).symm, h.followingIdx.symm, h.followingPos.symm,
    fun x => (h.followersSize x).symm, h.followersIdx.symm, h.followersPos.symm⟩

theorem edges_iff (h : g.SameView g') (x y : Address) : g'.Edges x y ↔ g.Edges x y := by
  rw [Graph.Edges, Graph.Edges, h.edge]

theorem wellFormed (h : g.SameView g') (hwf : g.WellFormed) : g'.WellFormed :=
  ⟨(hwf.following.of_sizes h.followingSize h.followingIdx h.followingPos).congr
      (fun x y => h.edges_iff x y),
    (hwf.followers.of_sizes h.followersSize h.followersIdx h.followersPos).congr
      (fun x y => h.edges_iff y x)⟩

theorem paginateIndex_eq (h : g.SameView g') (x : Address) (offset limit : Nat)
    (isFollowing : Bool) :
    g'.paginateIndex x offset limit isFollowing = g.paginateIndex x offset limit isFollowing := by
  cases isFollowing with
  | true =>
    simp only [Graph.paginateIndex, Graph.side, if_true, Index.slice, h.followingSize,
      h.followingIdx]
  | false =>
    simp only [Graph.paginateIndex, Graph.side, Bool.false_eq_true, if_false, Index.slice,
      h.followersSize, h.followersIdx]

theorem initCounts {user : Address} (hfollowing : g.following.size user = 0)
    (hfollowers : g.followers.size user = 0) : g.SameView (g.initCounts user) := by
  refine ⟨rfl, fun x => ?_, rfl, rfl, fun x => ?_, rfl, rfl⟩
  · rw [initCounts_following_size]
    split
    · rename_i hx
      rw [hx, hfollowing]
    · rfl
  · rw [initCounts_followers_size]
    split
    · rename_i hx
      rw [hx, hfollowers]
    · rfl

end Graph.SameView

/-- The first page of a user with a nonempty list is not empty. -/
theorem Graph.paginateIndex_first {g : Graph} {user : Address} (isFollowing : Bool)
    (h : (g.side isFollowing).Compact U32_MAX) (hpos : 0 < (g.side isFollowing).size user) :
    ∃ v, g.paginateIndex user 0 1 isFollowing = .ok [v] := by
  obtain ⟨v, hv⟩ := Store.has_iff_exists.mp ((h user).2 0 hpos)
  have hne : ¬(g.side isFollowing).size user ≤ 0 := by omega
  have hmin : min 1 ((g.side isFollowing).size user) - 0 = 1 := by omega
  have hu32 : u32 (0 + 1) = .ok 1 := u32_eq_ok.mpr ⟨by decide, rfl⟩
  refine ⟨v, ?_⟩
  rw [Graph.paginateIndex, if_neg hne, hu32]
  show Except.ok ((g.side isFollowing).slice user 0 (min 1 ((g.side isFollowing).size user) - 0)) =
    .ok [v]
  rw [hmin]
  simp [Index.slice, List.range', hv]

theorem Graph.paginateIndex_of_size_zero {g : Graph} {user : Address} {isFollowing : Bool}
    (h : (g.side isFollowing).size user = 0) (offset limit : Nat) :
    g.paginateIndex user offset limit isFollowing = .ok [] := by
  rw [Graph.paginateIndex, if_pos (by omega)]

theorem getFollowing_eq {s : State} {user : Address} (hzero : isZeroAddress user = false)
    {offset limit : Nat} (hlimit : 0 < limit ∧ limit ≤ 50) :
    getFollowing s user offset limit = s.graph.paginateIndex user offset limit true := by
  have hv : validateNonDefaultAddress "user" user = .ok () :=
    validateNonDefaultAddress_eq_ok.mpr hzero
  have hr : requireWithError (0 < limit ∧ limit ≤ MAX_PAGINATION_LIMIT)
      "limit must be between 1 and 50" = .ok () := requireWithError_eq_ok.mpr hlimit
  rw [getFollowing, hv, hr]
  rfl

theorem getFollowers_eq {s : State} {user : Address} (hzero : isZeroAddress user = false)
    {offset limit : Nat} (hlimit : 0 < limit ∧ limit ≤ 50) :
    getFollowers s user offset limit = s.graph.paginateIndex user offset limit false := by
  have hv : validateNonDefaultAddress "user" user = .ok () :=
    validateNonDefaultAddress_eq_ok.mpr hzero
  have hr : requireWithError (0 < limit ∧ limit ≤ MAX_PAGE_LIMIT)
      "limit must be between 1 and 50" = .ok () := requireWithError_eq_ok.mpr hlimit
  rw [getFollowers, hv, hr]
  rfl

/-- In every reachable state, a successful `set_profile` leaves the edges, every
page of every list, and the well-formedness of the graph as they are, if and only
if the user has a profile already or no edges by its counts. -/
theorem setProfile_keeps_graph_iff {σ : Type} {host : Host σ} {w : World σ}
    (hw : Reachable host w) {env : Env} {user : Address} {username : Bytes}
    {creatorToken : Address} {s' : State}
    (h : setProfile env w.store user username creatorToken = .ok s') :
    ((∀ x y, s'.graph.Edges x y ↔ w.store.graph.Edges x y) ∧
      (∀ x offset limit,
        getFollowing s' x offset limit = getFollowing w.store x offset limit ∧
        getFollowers s' x offset limit = getFollowers w.store x offset limit) ∧
      (s'.graph.WellFormed ↔ w.store.graph.WellFormed)) ↔ RegistersQuietly w.store user := by
  obtain ⟨-, hzero, profiles, hs, -⟩ := setProfile_ok h
  have hgraph : s'.graph = if w.store.profiles.profile.has user then w.store.graph
      else w.store.graph.initCounts user := by rw [hs]; rfl
  constructor
  · rintro ⟨-, hpages, -⟩
    by_cases hhas : w.store.profiles.profile.has user = true
    · exact Or.inl hhas
    · rw [if_neg hhas] at hgraph
      have hcompact := Graph.Compact.of_reachable hw
      -- A list that is not empty shows on its first page, and the page is empty afterwards.
      refine Or.inr ⟨?_, ?_⟩
      · by_contra hne
        obtain ⟨v, hv⟩ := Graph.paginateIndex_first true hcompact.following
          (Nat.pos_of_ne_zero hne)
        have hpage := (hpages user 0 1).1
        rw [getFollowing_eq hzero (by decide), getFollowing_eq hzero (by decide), hv, hgraph,
          Graph.paginateIndex_of_size_zero (by
            show (w.store.graph.initCounts user).following.size user = 0
            rw [initCounts_following_size, if_pos rfl])] at hpage
        cases hpage
      · by_contra hne
        obtain ⟨v, hv⟩ := Graph.paginateIndex_first false hcompact.followers
          (Nat.pos_of_ne_zero hne)
        have hpage := (hpages user 0 1).2
        rw [getFollowers_eq hzero (by decide), getFollowers_eq hzero (by decide), hv, hgraph,
          Graph.paginateIndex_of_size_zero (by
            show (w.store.graph.initCounts user).followers.size user = 0
            rw [initCounts_followers_size, if_pos rfl])] at hpage
        cases hpage
  · intro hquiet
    have hview : w.store.graph.SameView s'.graph := by
      rw [hgraph]
      split
      · exact .refl _
      · rename_i hhas
        obtain ⟨hfollowing, hfollowers⟩ := hquiet.resolve_left hhas
        exact .initCounts hfollowing hfollowers
    refine ⟨hview.edges_iff, fun x offset limit => ⟨?_, ?_⟩,
      ⟨hview.symm.wellFormed, hview.wellFormed⟩⟩
    · rw [getFollowing, getFollowing, hview.paginateIndex_eq]
    · rw [getFollowers, getFollowers, hview.paginateIndex_eq]

theorem setProfile_keeps_graph_of_renaming :
    ∃ (w : World Book) (s' : State), Reachable (bookHost linkora) w ∧
      setProfile (signedAt 4) w.store alice (asciiBytes "alicia") coin = .ok s' ∧
      RegistersQuietly w.store alice ∧ w.store.graph.Edges alice carol ∧
      s'.graph.Edges alice carol := by
  have hdemo : (demo (fun _ _ _ => True) (fun _ _ => 0)
      [(signedAt 2, .setProfile alice (asciiBytes "alice") coin),
        (signedAt 3, .follow alice carol)]).map
        (fun w => (w.store.profiles.profile.has alice, w.store.graph.edge.has (alice, carol),
          (setProfile (signedAt 4) w.store alice (asciiBytes "alicia") coin).toOption.isSome)) =
      some (true, true, true) := by decide
  obtain ⟨w, hw, hsee⟩ := reachable_demo hdemo
  simp only [Prod.mk.injEq] at hsee
  obtain ⟨hprofile, hedge, hset⟩ := hsee
  obtain ⟨s', hs'⟩ := Option.isSome_iff_exists.mp hset
  have hs' := toOption_eq_some.mp hs'
  have hquiet : RegistersQuietly w.store alice := Or.inl hprofile
  obtain ⟨hedges, -⟩ := (setProfile_keeps_graph_iff hw.reachable hs').mpr hquiet
  exact ⟨w, s', hw.reachable, hs', hquiet, hedge, (hedges alice carol).mpr hedge⟩

/-- A user who follows somebody before the first `set_profile` reads an empty list
after it. -/
theorem setProfile_empties_following :
    ¬∀ (w : World Book) (s' : State), Reachable (bookHost linkora) w →
      setProfile (signedAt 3) w.store alice (asciiBytes "alice") coin = .ok s' →
      getFollowing s' alice 0 10 = getFollowing w.store alice 0 10 := by
  intro hclaim
  have hdemo : (demo (fun _ _ _ => True) (fun _ _ => 0) [(signedAt 2, .follow alice carol)]).map
        (fun w => ((getFollowing w.store alice 0 10).toOption,
          (setProfile (signedAt 3) w.store alice (asciiBytes "alice") coin).toOption.map
            fun s' => (getFollowing s' alice 0 10).toOption)) =
      some (some [carol], some (some [])) := by decide
  obtain ⟨w, hw, hsee⟩ := reachable_demo hdemo
  simp only [Prod.mk.injEq] at hsee
  obtain ⟨hbefore, hset⟩ := hsee
  obtain ⟨s', hs', hafter⟩ := Option.map_eq_some_iff.mp hset
  rw [hclaim w s' hw.reachable (toOption_eq_some.mp hs'), hbefore] at hafter
  cases hafter

end Contract
end Linkora
