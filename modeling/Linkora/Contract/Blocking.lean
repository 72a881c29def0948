import Linkora.Contract.Migration
import Linkora.Contract.Sweeps

/-!
# Blocked pairs share no follow edge

A block removes the edges between two users and `follow` refuses to make new ones.
The pages that the contract returns are read from the indexes, and a registration
can reset the count of an index, so a page need not show every edge; but what it
shows is an edge in every reachable state.
-/

namespace Linkora
namespace Contract
namespace Graph

/-- What the indexes list below their counts are edges, whatever registrations have
done to the counts. -/
structure Honest (g : Graph) : Prop where
  following : g.following.Sound g.Edges
  followers : g.followers.Sound fun v u => g.Edges u v

variable {g g' : Graph} {a b user : Address}

namespace Honest

theorem congr (h : g.Honest) (hedge : g'.edge = g.edge) (hfollowing : g'.following = g.following)
    (hfollowers : g'.followers = g.followers) : g'.Honest := by
  have hE : ∀ u v, g'.Edges u v ↔ g.Edges u v := by
    intro u v
    rw [Edges, Edges, hedge]
  constructor
  · rw [hfollowing]
    exact h.following.congr hE
  · rw [hfollowers]
    exact h.followers.congr fun v u => hE u v

theorem link (h : g.Honest) (hok : g.link a b = .ok g') : g'.Honest := by
  rcases link_cases hok with ⟨-, rfl⟩ | ⟨hnew, hok⟩
  · exact h
  · obtain rfl := addEdge_ok hok
    have hE : ∀ u v, Edges { g with
        edge := g.edge.set (a, b) true
        following := g.following.append a b
        followers := g.followers.append b a } u v ↔ g.Edges u v ∨ (u = a ∧ v = b) :=
      edges_set rfl
    refine ⟨(h.following.append hnew).congr (fun u v => hE u v), ?_⟩
    exact (h.followers.append hnew).congr (fun v u => (hE u v).trans (or_congr_right and_comm))

theorem unlink (h : g.Honest) (hok : g.unlink a b = .ok g') : g'.Honest := by
  rcases unlink_cases hok with ⟨-, rfl⟩ | ⟨-, ix, ix', hix, hix', rfl⟩
  · exact h
  · have hE : ∀ u v, Edges { g with
        edge := g.edge.remove (a, b), following := ix, followers := ix' } u v ↔
        g.Edges u v ∧ ¬(u = a ∧ v = b) := edges_remove rfl
    refine ⟨(h.following.swapRemove hix).congr (fun u v => hE u v), ?_⟩
    exact (h.followers.swapRemove hix').congr
      (fun v u => (hE u v).trans (and_congr_right fun _ => not_congr and_comm))

theorem cleanupFollowOnBlock (h : g.Honest) (hok : g.cleanupFollowOnBlock a b = .ok g') :
    g'.Honest := by
  simp only [Graph.cleanupFollowOnBlock, Checked.bind_eq_ok] at hok
  obtain ⟨g₁, hg₁, hok⟩ := hok
  exact (h.unlink hg₁).unlink hok

theorem migrate {users : List Address} (h : g.Honest)
    (hok : users.foldlM Graph.migrateUser g = .ok g') : g'.Honest :=
  migrateUsers_invariant (fun _ _ _ _ hg hg' => hg.link hg')
    (fun _ _ _ _ hg => hg.congr rfl rfl rfl) h hok

/-- A count may be written down as it is read, or lowered. -/
theorem setFollowersCount (h : g.Honest) {count : Nat} (hle : count ≤ g.followers.size user) :
    (g.setFollowersCount user count).Honest := by
  exact ⟨h.following, h.followers.of_le (size_setFollowersCount_le hle) rfl rfl⟩

theorem setFollowingCount (h : g.Honest) {count : Nat} (hle : count ≤ g.following.size user) :
    (g.setFollowingCount user count).Honest := by
  exact ⟨h.following.of_le (size_setFollowingCount_le hle) rfl rfl, h.followers⟩

/-! The cleanup loops, against the count that they hold themselves. -/

theorem cleanupFollower {count : Nat} (h : (g.setFollowersCount user (count + 1)).Honest)
    (hok : Graph.cleanupFollower user count g = .ok g') :
    (g'.setFollowersCount user count).Honest := by
  have hsize := size_setFollowersCount g user (count + 1)
  simp only [Graph.cleanupFollower, Checked.bind_eq_ok, Checked.pure_eq_ok] at hok
  obtain ⟨g₁, hg₁, rfl⟩ := hok
  have hcount : ∀ x, x ≠ user → (g.followers.count.set user count).get x =
      (g.followers.count.set user (count + 1)).get x := by
    intro x hx
    rw [Store.get_set_of_ne hx, Store.get_set_of_ne hx]
  rcases detachFollower_ok hg₁ with ⟨hslot, rfl⟩ | ⟨follower, ix, hslot, hix, rfl⟩
  · -- The slot was empty already, so only the count goes down.
    have hidx : g₁.followers.idx.remove (user, count) = g₁.followers.idx :=
      Store.remove_eq_self_iff.mpr hslot
    rw [hidx]
    refine ⟨h.following, h.followers.of_le (fun x => ?_) rfl rfl⟩
    by_cases hx : x = user
    · rw [hx, hsize]
      exact (size_setFollowersCount _ user count).le.trans (Nat.le_succ count)
    · exact (congrArg (·.getD 0) (hcount x hx)).le
  · have hE : ∀ u v, Edges { g with edge := g.edge.remove (follower, user) } u v ↔
        g.Edges u v ∧ ¬(u = follower ∧ v = user) := edges_remove rfl
    refine ⟨(h.following.swapRemove hix).congr (fun u v => hE u v), ?_⟩
    refine (h.followers.drop_last hsize hslot ?_ rfl rfl ?_).congr
      (fun v u => (hE u v).trans (and_congr_right fun _ => not_congr and_comm))
    · exact size_setFollowersCount _ user count
    · exact hcount

theorem cleanupFollowing {count : Nat} (h : (g.setFollowingCount user (count + 1)).Honest)
    (hok : Graph.cleanupFollowing user count g = .ok g') :
    (g'.setFollowingCount user count).Honest := by
  have hsize := size_setFollowingCount g user (count + 1)
  simp only [Graph.cleanupFollowing, Checked.bind_eq_ok, Checked.pure_eq_ok] at hok
  obtain ⟨g₁, hg₁, rfl⟩ := hok
  have hcount : ∀ x, x ≠ user → (g.following.count.set user count).get x =
      (g.following.count.set user (count + 1)).get x := by
    intro x hx
    rw [Store.get_set_of_ne hx, Store.get_set_of_ne hx]
  rcases detachFollowee_ok hg₁ with ⟨hslot, rfl⟩ | ⟨followee, ix, hslot, hix, rfl⟩
  · have hidx : g₁.following.idx.remove (user, count) = g₁.following.idx :=
      Store.remove_eq_self_iff.mpr hslot
    rw [hidx]
    refine ⟨h.following.of_le (fun x => ?_) rfl rfl, h.followers⟩
    by_cases hx : x = user
    · rw [hx, hsize]
      exact (size_setFollowingCount _ user count).le.trans (Nat.le_succ count)
    · exact (congrArg (·.getD 0) (hcount x hx)).le
  · have hE : ∀ u v, Edges { g with edge := g.edge.remove (user, followee) } u v ↔
        g.Edges u v ∧ ¬(u = user ∧ v = followee) := edges_remove rfl
    refine ⟨?_, (h.followers.swapRemove hix).congr (fun v u => (hE u v).trans
      (and_congr_right fun _ => not_congr and_comm))⟩
    refine (h.following.drop_last hsize hslot ?_ rfl rfl ?_).congr (fun u v => hE u v)
    · exact size_setFollowingCount _ user count
    · exact hcount

theorem cleanupUser (h : g.Honest) {maxEntries : Nat} {r : Nat × Nat × Nat × Graph}
    (hok : g.cleanupUser user maxEntries = .ok r) : r.2.2.2.Honest := by
  simp only [Graph.cleanupUser, Checked.bind_eq_ok, Checked.pure_eq_ok] at hok
  obtain ⟨⟨fCount, left, g₁⟩, hr₁, ⟨followingCount, left', g₂⟩, hr₂, rfl⟩ := hok
  have h₁ := Checked.drain_invariant
    (P := fun count (g : Graph) => (g.setFollowersCount user count).Honest)
    (fun count b b' hb hb' => cleanupFollower hb hb') (h.setFollowersCount le_rfl) hr₁
  exact Checked.drain_invariant
    (P := fun count (g : Graph) => (g.setFollowingCount user count).Honest)
    (fun count b b' hb hb' => cleanupFollowing hb hb') (h₁.setFollowingCount le_rfl) hr₂

theorem initCounts (h : g.Honest) (user : Address) : (g.initCounts user).Honest :=
  (h.setFollowingCount (Nat.zero_le _)).setFollowersCount (Nat.zero_le _)

theorem of_reachable {σ : Type} {host : Host σ} {w : World σ} (h : Reachable host w) :
    w.store.graph.Honest := by
  refine h.store_invariant (I := fun s => s.graph.Honest) ?_ ?_
  · intro s env admin treasury feeBps hs
    obtain ⟨-, -, access, events, rfl⟩ := initializeContract_ok hs
    exact ⟨.empty, .empty⟩
  · intro w env c w' hw he
    cases exec_graphStep he with
    | same hg => exact hg ▸ hw
    | link a b hne hg => exact hw.link hg
    | unlink a b hg => exact hw.unlink hg
    | block a b hg => exact hw.cleanupFollowOnBlock hg
    | migrate users hg => exact hw.migrate hg
    | cleanup user maxEntries r hloop hg => exact hg ▸ hw.cleanupUser hloop
    | register user username creatorToken hcall hfresh hg => exact hg ▸ hw.initCounts user

end Honest

/-- A page reads slots below the count only. -/
theorem mem_page {isFollowing : Bool} {R : Address → Address → Prop}
    (h : (g.side isFollowing).Sound R) {offset limit : Nat} {page : List Address} {v : Address}
    (hpage : g.paginateIndex user offset limit isFollowing = .ok page) (hv : v ∈ page) :
    R user v := by
  rw [paginateIndex] at hpage
  split at hpage
  · rw [Except.ok.injEq] at hpage
    subst hpage
    cases hv
  · simp only [Checked.bind_eq_ok, Checked.pure_eq_ok] at hpage
    obtain ⟨stop, -, rfl⟩ := hpage
    rw [Index.slice, List.mem_filterMap] at hv
    obtain ⟨i, hi, hslot⟩ := hv
    rw [List.mem_range'_1] at hi
    have hlt : i < (g.side isFollowing).size user := by omega
    exact (h user i v hlt hslot).1

end Graph

theorem edges_of_mem_followingOf {s : State} (h : s.graph.Honest) {user v : Address}
    (hv : v ∈ followingOf s user) : s.graph.Edges user v := by
  obtain ⟨offset, limit, page, hpage, hv⟩ := hv
  have hsound : (s.graph.side true).Sound s.graph.Edges := h.following
  exact Graph.mem_page hsound (getFollowing_ok hpage) hv

theorem edges_of_mem_followersOf {s : State} (h : s.graph.Honest) {user v : Address}
    (hv : v ∈ followersOf s user) : s.graph.Edges v user := by
  obtain ⟨offset, limit, page, hpage, hv⟩ := hv
  have hsound : (s.graph.side false).Sound fun v u => s.graph.Edges u v := h.followers
  exact Graph.mem_page hsound (getFollowers_ok hpage) hv

/-! ## Blocks -/

/-- No edge joins two users of whom one has blocked the other. -/
def BlocksSever (s : State) : Prop :=
  ∀ a b, blocks s a b = true → ¬s.graph.Edges a b ∧ ¬s.graph.Edges b a

/-- The blocks a storage has after one more has been stored. -/
theorem blocks_set {s s' : State} {a b : Address}
    (h : s'.blocks = s.blocks.set a (((s.blocks.get a).getD ∅).set b ())) (x y : Address) :
    blocks s' x y = true ↔ blocks s x y = true ∨ (x = a ∧ y = b) := by
  unfold blocks
  rw [h, Store.get_set]
  by_cases hx : x = a
  · subst hx
    rw [if_pos rfl, Option.getD_some, Store.has_set]
    by_cases hy : y = b
    · simp [hy]
    · simp [hy]
  · simp [hx]

theorem blocks_remove {s s' : State} {a b : Address}
    (h : s'.blocks = s.blocks.set a (((s.blocks.get a).getD ∅).remove b)) (x y : Address)
    (hxy : blocks s' x y = true) : blocks s x y = true := by
  unfold blocks at hxy ⊢
  rw [h, Store.get_set] at hxy
  split at hxy
  · rename_i hx
    subst hx
    rw [Option.getD_some, Store.has_remove] at hxy
    split at hxy
    · cases hxy
    · exact hxy
  · exact hxy

theorem blocks_drop {s s' : State} {a : Address} (h : s'.blocks = s.blocks.remove a)
    (x y : Address) (hxy : blocks s' x y = true) : blocks s x y = true := by
  unfold blocks at hxy ⊢
  rw [h, Store.get_remove] at hxy
  split at hxy
  · cases hxy
  · exact hxy

/-- Only `block_user` makes a block. -/
theorem exec_blocks {σ : Type} {host : Host σ} {env : Env} {w w' : World σ} {c : Call}
    (he : exec host env w c = .ok w') (hc : ∀ a b, c ≠ .blockUser a b) (x y : Address)
    (hxy : blocks w'.store x y = true) : blocks w.store x y = true := by
  cases c with
  | blockUser a b => exact absurd rfl (hc a b)
  | unblockUser a b =>
    have hs := unblockUser_ok (World.onStore_eq_ok.mp he).1
    exact blocks_remove (by rw [hs]; rfl) x y hxy
  | deleteProfile user =>
    obtain ⟨-, _, _, hs, -⟩ := deleteProfile_ok (World.onStore_eq_ok.mp he).1
    exact blocks_drop (by rw [hs]) x y hxy
  | _ =>
    have hblocks : w'.store.blocks = w.store.blocks :=
      exec_frame (p := .blocks) he (by simp [Call.parts])
    rw [blocks, hblocks] at hxy
    exact hxy

/-- Without legacy lists nothing waits to be migrated. -/
theorem Graph.Loopless.not_pending {g : Graph} (h : g.Loopless) (u v : Address) :
    ¬g.Pending u v := by
  rintro (⟨-, hv⟩ | ⟨-, hu⟩)
  · rw [Graph.followingList, h.legacyFollowing u] at hv
    cases hv
  · rw [Graph.followersList, h.legacyFollowers v] at hu
    cases hu

theorem BlocksSever.call {σ : Type} {host : Host σ} {env : Env} {w w' : World σ} {c : Call}
    (h : BlocksSever w.store) (hloop : w.store.graph.Loopless) (he : exec host env w c = .ok w') :
    BlocksSever w'.store := by
  intro x y hxy
  cases c with
  | follow a b =>
    have hold := h x y (exec_blocks he (fun _ _ => nofun) x y hxy)
    obtain ⟨-, -, -, -, -, hba, hab, -, -, graph, hgraph, hs⟩ :=
      follow_eq_ok.mp (World.onStore_eq_ok.mp he).1
    have hpair : ∀ u v, blocks w.store u v = false → blocks w.store v u = false →
        ¬(x = u ∧ y = v) ∧ ¬(y = u ∧ x = v) := by
      intro u v huv hvu
      have hblocked : blocks w.store x y = true := exec_blocks he (fun _ _ => nofun) x y hxy
      constructor
      · rintro ⟨rfl, rfl⟩
        rw [huv] at hblocked
        cases hblocked
      · rintro ⟨rfl, rfl⟩
        rw [hvu] at hblocked
        cases hblocked
    obtain ⟨hne, hne'⟩ := hpair a b hab hba
    rw [← hs]
    constructor
    · intro hedge
      exact ((Graph.link_edges hgraph x y).mp hedge).elim hold.1 hne
    · intro hedge
      exact ((Graph.link_edges hgraph y x).mp hedge).elim hold.2 hne'
  | migrateFollowGraph admin users =>
    have hold := h x y (exec_blocks he (fun _ _ => nofun) x y hxy)
    obtain ⟨graph, hgraph, hs⟩ := migrateFollowGraph_ok (World.onStore_eq_ok.mp he).1
    rw [hs]
    have hpending : ∀ u v, ¬w.store.graph.Pending u v := hloop.not_pending
    exact ⟨(Graph.Parted.migrate ⟨hold.1, hpending x y⟩ hgraph).1,
      (Graph.Parted.migrate ⟨hold.2, hpending y x⟩ hgraph).1⟩
  | blockUser a b =>
    obtain ⟨-, graph, hgraph, hs⟩ := blockUser_ok (World.onStore_eq_ok.mp he).1
    obtain ⟨hshrinks, hab, hba⟩ := Graph.cleanupFollowOnBlock_ok hgraph
    rcases (blocks_set (s := w.store) (by rw [hs]; rfl) x y).mp hxy with hxy | ⟨rfl, rfl⟩
    · rw [hs]
      exact ⟨fun hedge => (h x y hxy).1 (hshrinks.edges x y hedge),
        fun hedge => (h x y hxy).2 (hshrinks.edges y x hedge)⟩
    · rw [hs]
      exact ⟨hab, hba⟩
  | _ =>
    have hold := h x y (exec_blocks he (fun _ _ => nofun) x y hxy)
    have hshrinks := exec_shrinks he (fun _ _ => nofun) (fun _ _ => nofun)
    exact ⟨fun hedge => hold.1 (hshrinks.edges x y hedge),
      fun hedge => hold.2 (hshrinks.edges y x hedge)⟩

theorem BlocksSever.of_reachable {σ : Type} {host : Host σ} {w : World σ}
    (h : Reachable host w) : BlocksSever w.store := by
  refine h.store_induction (I := BlocksSever) ?_ ?_
  · intro s env admin treasury feeBps hs a b _
    obtain ⟨-, -, access, events, rfl⟩ := initializeContract_ok hs
    exact ⟨nofun, nofun⟩
  · intro w env c w' hr hw he
    exact hw.call (.of_reachable hr) he

/-- In every reachable state two users of whom one has blocked the other share no
edge, neither is on any page of the other's lists, and an `unblock_user` leaves the
graph as it is. -/
theorem blocked_share_no_edge {σ : Type} {host : Host σ} {w : World σ}
    (h : Reachable host w) :
    (∀ a b, isBlocked w.store a b = .ok true ∨ isBlocked w.store b a = .ok true →
      (¬w.store.graph.Edges a b ∧ ¬w.store.graph.Edges b a) ∧
      (b ∉ followingOf w.store a ∧ b ∉ followersOf w.store a) ∧
      (a ∉ followingOf w.store b ∧ a ∉ followersOf w.store b)) ∧
    ∀ env blocker blocked w', exec host env w (.unblockUser blocker blocked) = .ok w' →
      w'.store.graph = w.store.graph := by
  have hhonest := Graph.Honest.of_reachable h
  have hsever := BlocksSever.of_reachable h
  refine ⟨fun a b hblocked => ?_, fun env blocker blocked w' he => ?_⟩
  · have hedges : ¬w.store.graph.Edges a b ∧ ¬w.store.graph.Edges b a := by
      rcases hblocked with hab | hba
      · exact hsever a b (isBlocked_eq_ok.mp hab).2.2
      · exact (hsever b a (isBlocked_eq_ok.mp hba).2.2).symm
    refine ⟨hedges, ⟨fun hb => ?_, fun hb => ?_⟩, fun ha => ?_, fun ha => ?_⟩
    · exact hedges.1 (edges_of_mem_followingOf hhonest hb)
    · exact hedges.2 (edges_of_mem_followersOf hhonest hb)
    · exact hedges.2 (edges_of_mem_followingOf hhonest ha)
    · exact hedges.1 (edges_of_mem_followersOf hhonest ha)
  · have hsame : w.store.SameOn w'.store .graph := exec_frame he (by simp [Call.parts])
    exact hsame

/-- `alice` and `bob` follow each other when `alice` blocks `bob`, and `bob` has
registered in between. -/
theorem blocked_share_no_edge_of_friends :
    ∃ w, Reachable (bookHost linkora) w ∧ isBlocked w.store alice bob = .ok true ∧
      ¬w.store.graph.Edges bob alice ∧ alice ∉ followersOf w.store bob := by
  have hrun : (demo (fun _ _ _ => True) (fun _ _ => 0)
      [(signedAt 2, .follow alice bob), (signedAt 3, .follow bob alice),
        (signedAt 4, .setProfile bob (asciiBytes "bobby") carol),
        (signedAt 5, .blockUser alice bob)]).map
      (fun w => decide (isBlocked w.store alice bob = .ok true)) = some true := by decide
  obtain ⟨w, hw, hblocked⟩ := reachable_demo hrun
  have hblocked : isBlocked w.store alice bob = .ok true := of_decide_eq_true hblocked
  have h := (blocked_share_no_edge hw.reachable).1 alice bob (Or.inl hblocked)
  exact ⟨w, hw.reachable, hblocked, h.1.2, h.2.2.2⟩

end Contract
end Linkora
