import Linkora.Contract.Entry

/-!
# The follow graph stays well formed

The two index families list the edges, from either end.  Every edit of the graph
keeps it so, and in a well-formed graph swap-remove always finds what it looks
for.
-/

namespace Linkora
namespace Contract
namespace Graph

/-- `u` follows `v`. -/
def Edges (g : Graph) (u v : Address) : Prop := g.edge.has (u, v) = true

/-- The indexes list the edges: for every user the slots below the count hold,
once each, the users at the other end of its edges, and the position entries are
the inverse of the slots. -/
structure WellFormed (g : Graph) : Prop where
  following : g.following.Lists g.Edges
  followers : g.followers.Lists fun v u => g.Edges u v

variable {g g' : Graph} {a b user : Address}

theorem edges_set {edge : Store (Address × Address) Bool} (h : g'.edge = edge.set (a, b) true)
    (u v : Address) : g'.Edges u v ↔ edge.has (u, v) = true ∨ (u = a ∧ v = b) := by
  rw [Edges, h, Store.has_set, ← Prod.mk.injEq]
  split
  · rename_i heq
    exact ⟨fun _ => Or.inr heq, fun _ => rfl⟩
  · rename_i hne
    exact ⟨Or.inl, fun h => h.resolve_right hne⟩

theorem edges_remove {edge : Store (Address × Address) Bool} (h : g'.edge = edge.remove (a, b))
    (u v : Address) : g'.Edges u v ↔ edge.has (u, v) = true ∧ ¬(u = a ∧ v = b) := by
  rw [Edges, h, Store.has_remove, ← Prod.mk.injEq]
  split
  · rename_i heq
    exact ⟨nofun, fun h => absurd heq h.2⟩
  · rename_i hne
    exact ⟨fun h => ⟨h, hne⟩, fun h => h.1⟩

theorem WellFormed.empty : WellFormed ⟨∅, Index.empty, Index.empty, ∅, ∅, ∅⟩ := by
  have hempty : ∀ R : Address → Address → Prop, (∀ u v, ¬R u v) →
      (Index.empty : Index Address Address).Lists R := by
    intro R hR o
    have hset : {v | R o v} = ∅ := Set.eq_empty_iff_forall_notMem.mpr (fun v => hR o v)
    rw [hset]
    exact .empty o
  exact ⟨hempty _ (fun u v h => nomatch h), hempty _ (fun u v h => nomatch h)⟩

/-- Only the edges and the two indexes matter. -/
theorem WellFormed.congr (h : g.WellFormed) (hedge : g'.edge = g.edge)
    (hfollowing : g'.following = g.following) (hfollowers : g'.followers = g.followers) :
    g'.WellFormed := by
  have hE : g'.Edges = g.Edges := by
    funext u v
    rw [Edges, Edges, hedge]
  refine ⟨?_, ?_⟩
  · rw [hfollowing, hE]
    exact h.following
  · rw [hfollowers, hE]
    exact h.followers

/-! ## Single edges -/

theorem addEdge_ok (h : g.addEdge a b = .ok g') :
    g' = { g with
      edge := g.edge.set (a, b) true
      following := g.following.append a b
      followers := g.followers.append b a } := by
  simp only [addEdge, Checked.bind_eq_ok, Checked.pure_eq_ok] at h
  obtain ⟨-, -, -, -, rfl⟩ := h
  rfl

theorem link_cases (h : g.link a b = .ok g') :
    g.Edges a b ∧ g' = g ∨ ¬g.Edges a b ∧ g.addEdge a b = .ok g' := by
  rw [Graph.link] at h
  split at h
  · rename_i hab
    exact Or.inl ⟨hab, (Except.ok.inj h).symm⟩
  · rename_i hnew
    exact Or.inr ⟨hnew, h⟩

theorem WellFormed.addEdge (h : g.WellFormed) (hnew : ¬g.Edges a b)
    (hok : g.addEdge a b = .ok g') : g'.WellFormed := by
  obtain rfl := addEdge_ok hok
  have hE : ∀ u v, Edges { g with
      edge := g.edge.set (a, b) true
      following := g.following.append a b
      followers := g.followers.append b a } u v ↔ g.Edges u v ∨ (u = a ∧ v = b) :=
    edges_set rfl
  refine ⟨(h.following.append hnew).congr (fun u v => hE u v), ?_⟩
  exact (h.followers.append hnew).congr (fun v u => (hE u v).trans (or_congr_right and_comm))

theorem swapRemoveFromIndex_following {ix : Index Address Address}
    (h : g.following.swapRemove a b = .ok ix) :
    g.swapRemoveFromIndex a b true = .ok { g with following := ix } := by
  rw [swapRemoveFromIndex, if_pos rfl, h]
  rfl

theorem swapRemoveFromIndex_followers {ix : Index Address Address}
    (h : g.followers.swapRemove a b = .ok ix) :
    g.swapRemoveFromIndex a b false = .ok { g with followers := ix } := by
  rw [swapRemoveFromIndex, if_neg Bool.false_ne_true, h]
  rfl

theorem WellFormed.removeEdge (h : g.WellFormed) (hab : g.Edges a b) :
    ∃ g', g.removeEdge a b = .ok g' ∧ g'.WellFormed ∧
      ∀ u v, g'.Edges u v ↔ g.Edges u v ∧ ¬(u = a ∧ v = b) := by
  obtain ⟨following, hfollowing, hlists⟩ := h.following.swapRemove hab
  obtain ⟨followers, hfollowers, hlists'⟩ := h.followers.swapRemove hab
  have hE : ∀ u v, Edges { g with edge := g.edge.remove (a, b), following, followers } u v ↔
      g.Edges u v ∧ ¬(u = a ∧ v = b) := edges_remove rfl
  refine ⟨_, ?_, ⟨hlists.congr (fun u v => hE u v), ?_⟩, hE⟩
  · exact Checked.bind_eq_ok.mpr ⟨_, swapRemoveFromIndex_following hfollowing,
      swapRemoveFromIndex_followers hfollowers⟩
  · exact hlists'.congr (fun v u => (hE u v).trans (and_congr_right fun _ => not_congr and_comm))

theorem WellFormed.unlink (h : g.WellFormed) (a b : Address) :
    ∃ g', g.unlink a b = .ok g' ∧ g'.WellFormed ∧
      ∀ u v, g'.Edges u v ↔ g.Edges u v ∧ ¬(u = a ∧ v = b) := by
  by_cases hab : g.Edges a b
  · obtain ⟨g', hg', hwf, hE⟩ := h.removeEdge hab
    exact ⟨g', (if_pos hab).trans hg', hwf, hE⟩
  · refine ⟨g, if_neg hab, h, fun u v => ⟨fun huv => ⟨huv, ?_⟩, And.left⟩⟩
    rintro ⟨rfl, rfl⟩
    exact hab huv

theorem WellFormed.link (h : g.WellFormed) (hok : g.link a b = .ok g') : g'.WellFormed := by
  rcases link_cases hok with ⟨-, rfl⟩ | ⟨hnew, hok⟩
  · exact h
  · exact h.addEdge hnew hok

theorem WellFormed.cleanupFollowOnBlock (h : g.WellFormed) (a b : Address) :
    ∃ g', g.cleanupFollowOnBlock a b = .ok g' ∧ g'.WellFormed := by
  obtain ⟨g₁, hg₁, hwf₁, -⟩ := h.unlink a b
  obtain ⟨g₂, hg₂, hwf₂, -⟩ := hwf₁.unlink b a
  refine ⟨g₂, ?_, hwf₂⟩
  rw [Graph.cleanupFollowOnBlock, hg₁]
  exact hg₂

/-! ## Migration -/

section Migration

/-! Migration only ever links, so it keeps what linking keeps, as long as the
legacy lists and the flags do not matter. -/

variable {P : Graph → Prop} (hlink : ∀ g g' a b, P g → g.link a b = .ok g' → P g')
  (hframe : ∀ g legacyFollowing legacyFollowers graphMigrated, P g →
    P { g with legacyFollowing, legacyFollowers, graphMigrated })

include hlink hframe

theorem migrateFollowingList_invariant (h : P g) (hok : g.migrateFollowingList user = .ok g') :
    P g' := by
  rw [Graph.migrateFollowingList] at hok
  split at hok
  · simp only [Checked.bind_eq_ok, Checked.pure_eq_ok] at hok
    obtain ⟨g₁, hg₁, rfl⟩ := hok
    refine hframe g₁ _ _ _ ?_
    exact Checked.foldlM_invariant (fun v _ b b' hb hb' => hlink b b' user v hb hb') h hg₁
  · rw [Except.ok.injEq] at hok
    exact hok ▸ h

theorem migrateFollowersList_invariant (h : P g) (hok : g.migrateFollowersList user = .ok g') :
    P g' := by
  rw [Graph.migrateFollowersList] at hok
  split at hok
  · simp only [Checked.bind_eq_ok, Checked.pure_eq_ok] at hok
    obtain ⟨g₁, hg₁, rfl⟩ := hok
    refine hframe g₁ _ _ _ ?_
    exact Checked.foldlM_invariant (fun v _ b b' hb hb' => hlink b b' v user hb hb') h hg₁
  · rw [Except.ok.injEq] at hok
    exact hok ▸ h

theorem migrateUser_invariant (h : P g) (hok : g.migrateUser user = .ok g') : P g' := by
  rw [Graph.migrateUser] at hok
  split at hok
  · rw [Except.ok.injEq] at hok
    exact hok ▸ h
  · simp only [Checked.bind_eq_ok, Checked.pure_eq_ok] at hok
    obtain ⟨g₁, hg₁, g₂, hg₂, rfl⟩ := hok
    refine hframe g₂ _ _ _ ?_
    exact migrateFollowersList_invariant hlink hframe
      (migrateFollowingList_invariant hlink hframe h hg₁) hg₂

theorem migrateUsers_invariant {users : List Address} (h : P g)
    (hok : users.foldlM Graph.migrateUser g = .ok g') : P g' :=
  Checked.foldlM_invariant (fun _ _ _ _ hb hb' => migrateUser_invariant hlink hframe hb hb') h hok

end Migration

theorem WellFormed.migrate {users : List Address} (h : g.WellFormed)
    (hok : users.foldlM Graph.migrateUser g = .ok g') : g'.WellFormed :=
  migrateUsers_invariant (fun _ _ _ _ hg hg' => hg.link hg')
    (fun _ _ _ _ hg => hg.congr rfl rfl rfl) h hok

/-! ## Cleanup

The invariant of either loop is that the graph would be well formed with the
loop's own count in place of the stored one. -/

theorem size_setFollowersCount (g : Graph) (user : Address) (count : Nat) :
    (g.setFollowersCount user count).followers.size user = count := by
  simp [setFollowersCount, Index.size]

theorem size_setFollowingCount (g : Graph) (user : Address) (count : Nat) :
    (g.setFollowingCount user count).following.size user = count := by
  simp [setFollowingCount, Index.size]

/-- Writing down a count that is no larger than the one in place makes no size larger. -/
theorem size_setFollowersCount_le {count : Nat} (hle : count ≤ g.followers.size user)
    (x : Address) : (g.setFollowersCount user count).followers.size x ≤ g.followers.size x := by
  by_cases hx : x = user
  · rw [hx, size_setFollowersCount]
    exact hle
  · simp [setFollowersCount, Index.size, Store.get_set_of_ne hx]

theorem size_setFollowingCount_le {count : Nat} (hle : count ≤ g.following.size user)
    (x : Address) : (g.setFollowingCount user count).following.size x ≤ g.following.size x := by
  by_cases hx : x = user
  · rw [hx, size_setFollowingCount]
    exact hle
  · simp [setFollowingCount, Index.size, Store.get_set_of_ne hx]

theorem WellFormed.cleanupFollower {count : Nat}
    (h : (g.setFollowersCount user (count + 1)).WellFormed) :
    ∃ g', Graph.cleanupFollower user count g = .ok g' ∧
      (g'.setFollowersCount user count).WellFormed := by
  have hsize := size_setFollowersCount g user (count + 1)
  obtain ⟨follower, hslot⟩ := ((h.followers user).present_iff count).mpr (by omega)
  have hab : g.Edges follower user := (h.followers user).mem_of_slot hslot
  obtain ⟨following, hfollowing, hlists⟩ := h.following.swapRemove hab
  have hget : g.followers.idx.get (user, count) = some follower := hslot
  have hE : ∀ u v, Edges { g with edge := g.edge.remove (follower, user) } u v ↔
      g.Edges u v ∧ ¬(u = follower ∧ v = user) := edges_remove rfl
  refine ⟨{ g with
    edge := g.edge.remove (follower, user)
    following
    followers := { g.followers with
      pos := g.followers.pos.remove (user, follower)
      idx := g.followers.idx.remove (user, count) } }, ?_, ?_⟩
  · refine Checked.bind_eq_ok.mpr ⟨{ g with
      edge := g.edge.remove (follower, user)
      following
      followers := { g.followers with pos := g.followers.pos.remove (user, follower) } }, ?_, rfl⟩
    rw [hget]
    exact swapRemoveFromIndex_following hfollowing
  · refine ⟨hlists.congr (fun u v => hE u v), ?_⟩
    refine (h.followers.drop_last hsize hslot ?_ rfl rfl (fun x hx => ?_)).congr
      (fun v u => (hE u v).trans (and_congr_right fun _ => not_congr and_comm))
    · exact size_setFollowersCount _ user count
    · show (g.followers.count.set user count).get x = (g.followers.count.set user (count + 1)).get x
      rw [Store.get_set_of_ne hx, Store.get_set_of_ne hx]

theorem WellFormed.cleanupFollowing {count : Nat}
    (h : (g.setFollowingCount user (count + 1)).WellFormed) :
    ∃ g', Graph.cleanupFollowing user count g = .ok g' ∧
      (g'.setFollowingCount user count).WellFormed := by
  have hsize := size_setFollowingCount g user (count + 1)
  obtain ⟨followee, hslot⟩ := ((h.following user).present_iff count).mpr (by omega)
  have hab : g.Edges user followee := (h.following user).mem_of_slot hslot
  obtain ⟨followers, hfollowers, hlists⟩ := h.followers.swapRemove hab
  have hget : g.following.idx.get (user, count) = some followee := hslot
  have hE : ∀ u v, Edges { g with edge := g.edge.remove (user, followee) } u v ↔
      g.Edges u v ∧ ¬(u = user ∧ v = followee) := edges_remove rfl
  refine ⟨{ g with
    edge := g.edge.remove (user, followee)
    followers
    following := { g.following with
      pos := g.following.pos.remove (user, followee)
      idx := g.following.idx.remove (user, count) } }, ?_, ?_⟩
  · refine Checked.bind_eq_ok.mpr ⟨{ g with
      edge := g.edge.remove (user, followee)
      followers
      following := { g.following with pos := g.following.pos.remove (user, followee) } }, ?_, rfl⟩
    rw [hget]
    exact swapRemoveFromIndex_followers hfollowers
  · refine ⟨?_, hlists.congr (fun v u => (hE u v).trans
      (and_congr_right fun _ => not_congr and_comm))⟩
    refine (h.following.drop_last hsize hslot ?_ rfl rfl (fun x hx => ?_)).congr
      (fun u v => hE u v)
    · exact size_setFollowingCount _ user count
    · show (g.following.count.set user count).get x = (g.following.count.set user (count + 1)).get x
      rw [Store.get_set_of_ne hx, Store.get_set_of_ne hx]

/-- Writing down the count that is read anyway changes no size. -/
theorem WellFormed.setFollowersCount (h : g.WellFormed) (user : Address) :
    (g.setFollowersCount user (g.followers.size user)).WellFormed := by
  refine ⟨h.following, h.followers.of_sizes (fun x => ?_) rfl rfl⟩
  by_cases hx : x = user
  · subst hx
    exact size_setFollowersCount g x _
  · simp [Graph.setFollowersCount, Index.size, Store.get_set_of_ne hx]

theorem WellFormed.setFollowingCount (h : g.WellFormed) (user : Address) :
    (g.setFollowingCount user (g.following.size user)).WellFormed := by
  refine ⟨h.following.of_sizes (fun x => ?_) rfl rfl, h.followers⟩
  by_cases hx : x = user
  · subst hx
    exact size_setFollowingCount g x _
  · simp [Graph.setFollowingCount, Index.size, Store.get_set_of_ne hx]

/-- The cleanup of a user's edges always returns, wherever it is stopped. -/
theorem WellFormed.cleanupUser (h : g.WellFormed) (user : Address) (maxEntries : Nat) :
    ∃ r, g.cleanupUser user maxEntries = .ok r ∧ r.2.2.2.WellFormed := by
  obtain ⟨⟨fCount, left, g₁⟩, hr₁, hwf₁⟩ := Checked.drain_total
    (P := fun count (g : Graph) => (g.setFollowersCount user count).WellFormed)
    (fun count b hb => WellFormed.cleanupFollower hb) maxEntries (h.setFollowersCount user)
  obtain ⟨⟨followingCount, left', g₂⟩, hr₂, hwf₂⟩ := Checked.drain_total
    (P := fun count (g : Graph) => (g.setFollowingCount user count).WellFormed)
    (fun count b hb => WellFormed.cleanupFollowing hb) left (hwf₁.setFollowingCount user)
  refine ⟨(fCount, followingCount, left', g₂.setFollowingCount user followingCount), ?_, hwf₂⟩
  exact Checked.bind_eq_ok.mpr ⟨_, hr₁, Checked.bind_eq_ok.mpr ⟨_, hr₂, rfl⟩⟩

/-! ## Swap-remove never finds the graph inconsistent -/

/-- One of the two panics of `swap_remove_from_index`. -/
def IsSwapPanic (p : Panic) : Prop :=
  p = swapPanic .positionMissing ∨ p = swapPanic .entryMissing

instance (p : Panic) : Decidable (IsSwapPanic p) := inferInstanceAs (Decidable (_ ∨ _))

theorem addEdge_avoids (g : Graph) (a b : Address) : Checked.Avoids IsSwapPanic (g.addEdge a b) :=
  .bind (u32_avoids (by decide)) fun _ _ =>
    .bind (u32_avoids (by decide)) fun _ _ => .pure _

theorem link_avoids (g : Graph) (a b : Address) : Checked.Avoids IsSwapPanic (g.link a b) := by
  rw [Graph.link]
  split
  · exact .ok g
  · exact addEdge_avoids g a b

theorem migrateFollowingList_avoids (g : Graph) (user : Address) :
    Checked.Avoids IsSwapPanic (g.migrateFollowingList user) := by
  rw [Graph.migrateFollowingList]
  split
  · refine .bind (.foldlM (P := fun _ => True) (fun _ _ _ _ _ _ => trivial) ?_ trivial)
      (fun _ _ => .pure _)
    exact fun followee _ g _ => link_avoids g user followee
  · exact .ok g

theorem migrateFollowersList_avoids (g : Graph) (user : Address) :
    Checked.Avoids IsSwapPanic (g.migrateFollowersList user) := by
  rw [Graph.migrateFollowersList]
  split
  · refine .bind (.foldlM (P := fun _ => True) (fun _ _ _ _ _ _ => trivial) ?_ trivial)
      (fun _ _ => .pure _)
    exact fun follower _ g _ => link_avoids g follower user
  · exact .ok g

theorem migrateUser_avoids (g : Graph) (user : Address) :
    Checked.Avoids IsSwapPanic (g.migrateUser user) := by
  rw [Graph.migrateUser]
  split
  · exact .ok g
  · exact .bind (migrateFollowingList_avoids g user) fun g₁ _ =>
      .bind (migrateFollowersList_avoids g₁ user) fun _ _ => .pure _

end Graph

/-! ## What a call can do to the graph -/

/-- Every way a call can change the follow graph. -/
inductive GraphStep (s : State) (c : Call) (g' : Graph) : Prop where
  | same (graph : g' = s.graph)
  | link (a b : Address) (ne : a ≠ b) (graph : s.graph.link a b = .ok g')
  | unlink (a b : Address) (graph : s.graph.unlink a b = .ok g')
  | block (a b : Address) (graph : s.graph.cleanupFollowOnBlock a b = .ok g')
  | migrate (users : List Address) (graph : users.foldlM Graph.migrateUser s.graph = .ok g')
  | cleanup (user : Address) (maxEntries : Nat) (r : Nat × Nat × Nat × Graph)
      (loop : s.graph.cleanupUser user maxEntries = .ok r) (graph : g' = r.2.2.2)
  | register (user : Address) (username : Bytes) (creatorToken : Address)
      (call : c = .setProfile user username creatorToken)
      (fresh : s.profiles.profile.has user = false) (graph : g' = s.graph.initCounts user)

theorem exec_graphStep {σ : Type} {host : Host σ} {env : Env} {w w' : World σ} {c : Call}
    (he : exec host env w c = .ok w') : GraphStep w.store c w'.store.graph := by
  cases c with
  | setProfile user username creatorToken =>
    obtain ⟨-, -, profiles, hs, -⟩ := setProfile_ok (World.onStore_eq_ok.mp he).1
    rw [hs]
    by_cases hhas : w.store.profiles.profile.has user = true
    · exact .same (if_pos hhas)
    · exact .register user username creatorToken rfl (Bool.not_eq_true _ ▸ hhas) (if_neg hhas)
  | follow a b =>
    obtain ⟨-, -, -, hne, -, -, -, -, -, graph, hgraph, hs⟩ :=
      follow_eq_ok.mp (World.onStore_eq_ok.mp he).1
    rw [← hs]
    exact .link a b hne hgraph
  | unfollow a b =>
    obtain ⟨-, -, -, -, -, graph, hgraph, hs⟩ := unfollow_eq_ok.mp (World.onStore_eq_ok.mp he).1
    rw [← hs]
    exact .unlink a b hgraph
  | blockUser a b =>
    obtain ⟨-, graph, hgraph, hs⟩ := blockUser_ok (World.onStore_eq_ok.mp he).1
    rw [hs]
    exact .block a b hgraph
  | migrateFollowGraph admin users =>
    obtain ⟨graph, hgraph, hs⟩ := migrateFollowGraph_ok (World.onStore_eq_ok.mp he).1
    rw [hs]
    exact .migrate users hgraph
  | batchCleanupProfile user maxEntries =>
    obtain ⟨fCount, followingCount, left, hgraph⟩ :=
      batchCleanupProfile_graph (World.onStore_eq_ok.mp he).1
    exact .cleanup user maxEntries _ hgraph rfl
  | _ =>
    have hgraph : w.store.SameOn w'.store .graph := exec_frame he (by simp [Call.parts])
    exact .same hgraph

/-- Every change but a registration keeps the graph well formed. -/
theorem GraphStep.wellFormed {s : State} {c : Call} {g' : Graph} (h : GraphStep s c g')
    (hwf : s.graph.WellFormed)
    (hc : ∀ user username creatorToken, c = .setProfile user username creatorToken →
      s.profiles.profile.has user = false → (s.graph.initCounts user).WellFormed) :
    g'.WellFormed := by
  cases h with
  | same hg => exact hg ▸ hwf
  | link a b hne hg => exact hwf.link hg
  | unlink a b hg =>
    obtain ⟨g, hok, hgwf, -⟩ := hwf.unlink a b
    exact Except.ok.inj (hok.symm.trans hg) ▸ hgwf
  | block a b hg =>
    obtain ⟨g, hok, hgwf⟩ := hwf.cleanupFollowOnBlock a b
    exact Except.ok.inj (hok.symm.trans hg) ▸ hgwf
  | migrate users hg => exact hwf.migrate hg
  | cleanup user maxEntries r hloop hg =>
    obtain ⟨q, hok, hqwf⟩ := hwf.cleanupUser user maxEntries
    rw [hg, ← Except.ok.inj (hok.symm.trans hloop)]
    exact hqwf
  | register user username creatorToken hcall hfresh hg =>
    exact hg ▸ hc user username creatorToken hcall hfresh

/-- The entry points that edit the follow graph of users already registered, and
two that could be thought to. -/
def Call.editsGraph : Call → Bool
  | .follow .. | .unfollow .. | .blockUser .. | .unblockUser .. | .deleteProfile ..
  | .migrateFollowGraph .. | .batchCleanupProfile .. => true
  | _ => false

open Checked (Avoids)
open Linkora.Contract.Graph (IsSwapPanic)

theorem requireAuth_noSwapPanic (env : Env) (a : Address) :
    Avoids IsSwapPanic (requireAuth env a) :=
  requireAuth_avoids (by simp [IsSwapPanic, Graph.swapPanic])

theorem requireNotPaused_noSwapPanic (s : State) (m : PauseModule) :
    Avoids IsSwapPanic (requireNotPaused s m) :=
  .bind (requireWithError_avoids (by decide)) fun _ _ => requireWithError_avoids (by decide)

theorem checkExpired_noSwapPanic (s : State) (user : Address) :
    Avoids IsSwapPanic (checkExpired s user) := by
  unfold checkExpired
  split
  · exact .bind (requireWithError_avoids (by decide)) fun _ _ =>
      requireWithError_avoids (by decide)
  · exact .ok ()

theorem isBlocked_noSwapPanic (s : State) (a b : Address) :
    Avoids IsSwapPanic (isBlocked s a b) :=
  .bind (requireWithError_avoids (by decide)) fun _ _ =>
    .bind (requireWithError_avoids (by decide)) fun _ _ => .pure _

theorem follow_noSwapPanic (env : Env) (s : State) (a b : Address) :
    Avoids IsSwapPanic (follow env s a b) := by
  refine .bind (requireAuth_noSwapPanic env a) fun _ _ => ?_
  refine .bind (requireWithError_avoids (by decide)) fun _ _ => ?_
  refine .bind (requireWithError_avoids (by decide)) fun _ _ => ?_
  refine .bind (requireWithError_avoids (by decide)) fun _ _ => ?_
  refine .bind (requireNotPaused_noSwapPanic s .social) fun _ _ => ?_
  refine .bind (isBlocked_noSwapPanic s b a) fun _ _ => ?_
  refine .bind (requireWithError_avoids (by decide)) fun _ _ => ?_
  refine .bind (isBlocked_noSwapPanic s a b) fun _ _ => ?_
  refine .bind (requireWithError_avoids (by decide)) fun _ _ => ?_
  refine .bind (isBlocked_noSwapPanic s a b) fun _ _ => ?_
  refine .bind (requireWithError_avoids (by decide)) fun _ _ => ?_
  refine .bind (checkExpired_noSwapPanic s a) fun _ _ => ?_
  refine .bind (checkExpired_noSwapPanic s b) fun _ _ => ?_
  exact .bind (Graph.link_avoids s.graph a b) fun _ _ => .pure _

theorem unfollow_noSwapPanic {s : State} (hwf : s.graph.WellFormed) (env : Env) (a b : Address) :
    Avoids IsSwapPanic (unfollow env s a b) := by
  refine .bind (requireAuth_noSwapPanic env a) fun _ _ => ?_
  refine .bind (requireWithError_avoids (by decide)) fun _ _ => ?_
  refine .bind (requireWithError_avoids (by decide)) fun _ _ => ?_
  refine .bind (requireWithError_avoids (by decide)) fun _ _ => ?_
  refine .bind (requireNotPaused_noSwapPanic s .social) fun _ _ => ?_
  obtain ⟨g, hg, -⟩ := hwf.unlink a b
  rw [hg]
  exact .bind (.ok g) fun _ _ => .pure _

theorem blockUser_noSwapPanic {s : State} (hwf : s.graph.WellFormed) (env : Env)
    (a b : Address) : Avoids IsSwapPanic (blockUser env s a b) := by
  refine .bind (requireAuth_noSwapPanic env a) fun _ _ => ?_
  refine .bind (requireWithError_avoids (by decide)) fun _ _ => ?_
  refine .bind (requireWithError_avoids (by decide)) fun _ _ => ?_
  refine .bind (requireWithError_avoids (by decide)) fun _ _ => ?_
  refine .bind (requireNotPaused_noSwapPanic s .social) fun _ _ => ?_
  obtain ⟨g, hg, -⟩ := hwf.cleanupFollowOnBlock a b
  rw [hg]
  exact .bind (.ok g) fun _ _ => .pure _

theorem unblockUser_noSwapPanic (env : Env) (s : State) (a b : Address) :
    Avoids IsSwapPanic (unblockUser env s a b) := by
  refine .bind (requireAuth_noSwapPanic env a) fun _ _ => ?_
  refine .bind (requireWithError_avoids (by decide)) fun _ _ => ?_
  refine .bind (requireWithError_avoids (by decide)) fun _ _ => ?_
  refine .bind (requireWithError_avoids (by decide)) fun _ _ => ?_
  exact .bind (requireNotPaused_noSwapPanic s .social) fun _ _ => .pure _

theorem deleteProfile_noSwapPanic (env : Env) (s : State) (user : Address) :
    Avoids IsSwapPanic (deleteProfile env s user) := by
  refine .bind (requireAuth_noSwapPanic env user) fun _ _ => ?_
  refine .bind (requireWithError_avoids (by decide)) fun _ _ => ?_
  exact .bind (expect_avoids (by decide)) fun _ _ => .pure _

/-- The text about an entry of `users` begins with another letter. -/
theorem users_text_ne {label : String} (hlabel : label = "users") (i : Nat) (e : SwapError) :
    Panic.message s!"{label}[{i}] must not be the zero address" ≠ Graph.swapPanic e := by
  intro h
  subst hlabel
  cases e <;>
  · have := congrArg (fun t => t.toList.head?) (Panic.message.inj h)
    simp [toString] at this

theorem migrateFollowGraph_noSwapPanic (env : Env) (s : State) (admin : Address)
    (users : List Address) : Avoids IsSwapPanic (migrateFollowGraph env s admin users) := by
  refine .bind (requireAuth_noSwapPanic env admin) fun _ _ => ?_
  refine .bind (requireWithError_avoids (by decide)) fun _ _ => ?_
  refine .bind (requireWithError_avoids (by decide)) fun _ _ => ?_
  refine .bind (.bind (requireWithError_avoids (by decide)) fun _ _ => .forM ?_) fun _ _ => ?_
  · rintro ⟨a, i⟩ -
    refine requireWithError_avoids ?_
    rintro (h | h)
    · exact users_text_ne rfl i _ h
    · exact users_text_ne rfl i _ h
  refine .bind (requireWithError_avoids (by decide)) fun _ _ => ?_
  refine .bind (.foldlM (P := fun _ => True) (fun _ _ _ _ _ _ => trivial) ?_ trivial)
    fun _ _ => .pure _
  exact fun user _ g _ => Graph.migrateUser_avoids g user

theorem batchCleanupProfile_noSwapPanic {s : State} (hwf : s.graph.WellFormed) (user : Address)
    (maxEntries : Nat) : Avoids IsSwapPanic (batchCleanupProfile s user maxEntries) := by
  refine .bind (requireWithError_avoids (by decide)) fun _ _ => ?_
  obtain ⟨r, hr, -⟩ := hwf.cleanupUser user maxEntries
  rw [hr]
  refine .bind (.ok r) fun _ _ => .bind ?_ fun _ _ => .pure _
  refine .drain (P := fun _ _ => True) (fun _ _ _ _ _ => trivial) (fun i p _ => ?_) trivial
  exact .bind (expect_avoids (by decide)) fun _ _ => .pure _

/-- Starting from any well-formed graph, with any legacy lists, every call that
edits it leaves it well formed when it succeeds, and never aborts because a
swap-remove has found a position or a slot missing. -/
theorem graph_calls_keep_wellFormed {σ : Type} {host : Host σ} {env : Env} {w : World σ}
    {c : Call} (hwf : w.store.graph.WellFormed) (hc : c.editsGraph = true) :
    (∀ w', exec host env w c = .ok w' → w'.store.graph.WellFormed) ∧
      ∀ e, exec host env w c ≠ .error (Graph.swapPanic e) := by
  refine ⟨fun w' he => (exec_graphStep he).wellFormed hwf ?_, fun e h => ?_⟩
  · rintro user username creatorToken rfl
    cases hc
  have havoids : Avoids IsSwapPanic (exec host env w c) := by
    cases c with
    | follow a b => exact (follow_noSwapPanic env w.store a b).map
    | unfollow a b => exact (unfollow_noSwapPanic hwf env a b).map
    | blockUser a b => exact (blockUser_noSwapPanic hwf env a b).map
    | unblockUser a b => exact (unblockUser_noSwapPanic env w.store a b).map
    | deleteProfile user => exact (deleteProfile_noSwapPanic env w.store user).map
    | migrateFollowGraph admin users =>
      exact (migrateFollowGraph_noSwapPanic env w.store admin users).map
    | batchCleanupProfile user maxEntries =>
      exact (batchCleanupProfile_noSwapPanic hwf user maxEntries).map
    | _ => cases hc
  refine havoids _ h ?_
  cases e with
  | positionMissing => exact Or.inl rfl
  | entryMissing => exact Or.inr rfl

theorem graph_calls_keep_wellFormed_follow_unfollow :
    ∃ w₁ w₂ : World Book,
      exec (bookHost linkora) (signedAt 1) ⟨State.empty, fun _ _ => 0⟩ (.follow alice bob) =
        .ok w₁ ∧ w₁.store.graph.WellFormed ∧
      exec (bookHost linkora) (signedAt 2) w₁ (.unfollow alice bob) = .ok w₂ ∧
        w₂.store.graph.WellFormed := by
  have hrun : ((exec (bookHost linkora) (signedAt 1) ⟨State.empty, fun _ _ => 0⟩
      (.follow alice bob)).toOption.bind fun w₁ =>
        (exec (bookHost linkora) (signedAt 2) w₁ (.unfollow alice bob)).toOption).isSome =
      true := by decide
  obtain ⟨w₂, h⟩ := Option.isSome_iff_exists.mp hrun
  obtain ⟨w₁, h₁, h₂⟩ := Option.bind_eq_some_iff.mp h
  have h₁ := toOption_eq_some.mp h₁
  have h₂ := toOption_eq_some.mp h₂
  have hwf₁ := (graph_calls_keep_wellFormed .empty rfl).1 w₁ h₁
  exact ⟨w₁, w₂, h₁, hwf₁, h₂, (graph_calls_keep_wellFormed hwf₁ rfl).1 w₂ h₂⟩

end Contract
end Linkora
