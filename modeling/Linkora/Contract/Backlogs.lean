import Linkora.Lib.Backlog
import Linkora.Contract.LikeCounts
import Linkora.Contract.Moderation
import Linkora.Contract.Tips

/-!
# What hangs on a post

Likes, reports and tip cooldowns of a post are entries of their own, and each family has an
index that the cleanup of the post goes through.  The indexes are kept up by different means:
the slot of a like is the number of likes that the post counts, and a block takes it back; a
report appends; a tip appends again when the cooldown of the pair has run out.  They all name
every entry there is.
-/

namespace Linkora
namespace Contract

open Backlog

/-! ## The three families -/

def Likes.backlog (l : Likes) : Backlog Nat Address Bool := ⟨l.like, l.likersIdx, l.likersCount⟩

def Reports.backlog (r : Reports) : Backlog Nat Address Report :=
  ⟨r.report, r.reportersIdx, r.reportCount⟩

def Tips.backlog (t : Tips) : Backlog Nat (Address × Address) TempEntry :=
  ⟨t.tipCooldown, t.cooldownsIdx, t.cooldownsCount⟩

theorem drainLike_returns (id i : Nat) (l : Likes) : ∃ l', drainLike id i l = .ok l' := by
  rw [drainLike]
  split
  · exact ⟨_, rfl⟩
  · exact ⟨_, rfl⟩

theorem drainLike_backlog {id i : Nat} {l l' : Likes} (h : drainLike id i l = .ok l') :
    l'.backlog = l.backlog.dropSlot id i := by
  rw [drainLike] at h
  split at h
  · rename_i liker hslot
    rw [dropSlot_of_some (b := l.backlog) hslot, ← Except.ok.inj h]
    rfl
  · rename_i hslot
    rw [dropSlot_of_none (b := l.backlog) hslot, ← Except.ok.inj h]

theorem drainReport_returns (id i : Nat) (r : Reports) : ∃ r', drainReport id i r = .ok r' := by
  rw [drainReport]
  split
  · exact ⟨_, rfl⟩
  · exact ⟨_, rfl⟩

theorem drainReport_backlog {id i : Nat} {r r' : Reports} (h : drainReport id i r = .ok r') :
    r'.backlog = r.backlog.dropSlot id i ∧ r'.reputation = r.reputation := by
  rw [drainReport] at h
  split at h
  · rename_i reporter hslot
    rw [dropSlot_of_some (b := r.backlog) hslot, ← Except.ok.inj h]
    exact ⟨rfl, rfl⟩
  · rename_i hslot
    rw [dropSlot_of_none (b := r.backlog) hslot, ← Except.ok.inj h]
    exact ⟨rfl, rfl⟩

theorem drainCooldown_returns (id i : Nat) (t : Tips) : ∃ t', drainCooldown id i t = .ok t' := by
  rw [drainCooldown]
  split
  · exact ⟨_, rfl⟩
  · exact ⟨_, rfl⟩

theorem drainCooldown_backlog {id i : Nat} {t t' : Tips} (h : drainCooldown id i t = .ok t') :
    t'.backlog = t.backlog.dropSlot id i := by
  rw [drainCooldown] at h
  split at h
  · rename_i tipper token hslot
    rw [dropSlot_of_some (b := t.backlog) hslot, ← Except.ok.inj h]
    rfl
  · rename_i hslot
    rw [dropSlot_of_none (b := t.backlog) hslot, ← Except.ok.inj h]

/-- What the sweep of a whole post does to a family. -/
def SweptOut {α β : Type} [DecidableEq α] (b b' : Backlog Nat α β) (id : Nat) : Prop :=
  b' = ((List.range (b.size id)).foldl (fun b i => b.dropSlot id i) b).settle id 0

/-- What the sweep of a whole post does with one slot of its likers. -/
def Likes.sweepSlot (postId : Nat) (l : Likes) (i : Nat) : Likes :=
  { l with
    like := match l.likersIdx.get (postId, i) with
      | some liker => l.like.remove (postId, liker)
      | none => l.like
    likersIdx := l.likersIdx.remove (postId, i) }

theorem Likes.sweepSlot_backlog (id : Nat) (l : Likes) (i : Nat) :
    (l.sweepSlot id i).backlog = l.backlog.dropSlot id i := by
  cases hslot : l.likersIdx.get (id, i) with
  | none =>
    rw [dropSlot_of_none (b := l.backlog) hslot, sweepSlot, hslot,
      Store.remove_eq_self_iff.mpr hslot]
  | some liker =>
    rw [dropSlot_of_some (b := l.backlog) hslot, sweepSlot, hslot]
    rfl

/-- What the sweep of a whole post does with one slot of its cooldowns. -/
def Tips.sweepSlot (postId : Nat) (t : Tips) (i : Nat) : Tips :=
  { t with
    tipCooldown := match t.cooldownsIdx.get (postId, i) with
      | some (tipper, token) => t.tipCooldown.remove (postId, tipper, token)
      | none => t.tipCooldown
    cooldownsIdx := t.cooldownsIdx.remove (postId, i) }

theorem Tips.sweepSlot_backlog (id : Nat) (t : Tips) (i : Nat) :
    (t.sweepSlot id i).backlog = t.backlog.dropSlot id i := by
  cases hslot : t.cooldownsIdx.get (id, i) with
  | none =>
    rw [dropSlot_of_none (b := t.backlog) hslot, sweepSlot, hslot,
      Store.remove_eq_self_iff.mpr hslot]
  | some who =>
    rw [dropSlot_of_some (b := t.backlog) hslot, sweepSlot, hslot]
    rfl

theorem Reports.sweepSlot_backlog (id : Nat) (r : Reports) (i : Nat) :
    (r.sweepSlot id i).backlog = r.backlog.dropSlot id i := by
  cases hslot : r.reportersIdx.get (id, i) with
  | none =>
    rw [dropSlot_of_none (b := r.backlog) hslot, sweepSlot, hslot,
      Store.remove_eq_self_iff.mpr hslot]
  | some reporter =>
    rw [dropSlot_of_some (b := r.backlog) hslot, sweepSlot, hslot]
    rfl

theorem sweepLikes_swept (l : Likes) (id : Nat) :
    SweptOut l.backlog (sweepLikes l id).backlog id := by
  have hslots : ∀ slots : List Nat, slots.foldl (fun b i => b.dropSlot id i) l.backlog =
      (slots.foldl (Likes.sweepSlot id) l).backlog :=
    fun _ => List.foldl_hom Likes.backlog fun l i => (Likes.sweepSlot_backlog id l i).symm
  rw [SweptOut, hslots]
  rfl

theorem sweepReports_swept (r : Reports) (id : Nat) :
    SweptOut r.backlog (sweepReports r id).backlog id := by
  have hslots : ∀ slots : List Nat, slots.foldl (fun b i => b.dropSlot id i) r.backlog =
      (slots.foldl (Reports.sweepSlot id) r).backlog :=
    fun _ => List.foldl_hom Reports.backlog fun r i => (Reports.sweepSlot_backlog id r i).symm
  rw [SweptOut, hslots]
  rfl

theorem sweepCooldowns_swept (t : Tips) (id : Nat) :
    SweptOut t.backlog (sweepCooldowns t id).backlog id := by
  have hslots : ∀ slots : List Nat, slots.foldl (fun b i => b.dropSlot id i) t.backlog =
      (slots.foldl (Tips.sweepSlot id) t).backlog :=
    fun _ => List.foldl_hom Tips.backlog fun t i => (Tips.sweepSlot_backlog id t i).symm
  rw [SweptOut, hslots]
  rfl

/-! ## Covered families -/

/-- The family of every post is covered by its index. -/
def AllCovered {α β : Type} (b : Backlog Nat α β) : Prop := ∀ id, b.Covered id

section

variable {α β : Type} {b b' : Backlog Nat α β} {id : Nat}

/-- Only the family of one post is touched, and it stays covered. -/
theorem AllCovered.of_one (h : AllCovered b) (hone : b'.Covered id)
    (hoff : ∀ k, k ≠ id → b.AgreeAt b' k) : AllCovered b' := by
  intro k
  by_cases hk : k = id
  · rw [hk]
    exact hone
  · exact (hoff k hk).covered (h k)

variable [DecidableEq α]

theorem AllCovered.portion {left : Nat} (h : AllCovered b) (hp : b.Portion b' id left) :
    AllCovered b' :=
  h.of_one hp.covered fun _ hk => hp.agreeAt hk

theorem AllCovered.swept (h : AllCovered b) (hs : SweptOut b b' id) : AllCovered b' := by
  have hcleared : b'.Cleared id := by
    rw [hs]
    exact (sweep_covers (h id)).cleared_settle
  refine h.of_one hcleared.covered fun k hk => ?_
  rw [hs]
  exact (b.sweep_agreeAt _ hk).trans (settle_agreeAt _ 0 hk)

end

/-- The likes, the reports and the cooldowns of every post are covered. -/
structure State.Covered (s : State) : Prop where
  likes : AllCovered s.likes.backlog
  reports : AllCovered s.reports.backlog
  tips : AllCovered s.tips.backlog

/-! ## Likes -/

namespace Likes

variable {l l' : Likes} {id k : Nat} {user : Address}

theorem AgreeAt.backlog (h : l.AgreeAt l' id) : l.backlog.AgreeAt l'.backlog id :=
  ⟨h.like, h.idx, h.count⟩

/-- A like goes into the slot after the last one as long as the number that the post has for
its likes is the stored one and fits. -/
theorem covered_add {n : Nat} (h : AllCovered l.backlog) (hcount : n = l.backlog.size id)
    (hfits : n + 1 < 2 ^ 32) (user : Address) : AllCovered (l.add id n user).backlog := by
  refine h.of_one ?_ fun k hk => (l.add_agreeAt n user hk).backlog
  have hn : n % 2 ^ 32 = l.backlog.size id := by
    rw [Nat.mod_eq_of_lt (by omega)]
    exact hcount
  have hn' : (n + 1) % 2 ^ 32 = l.backlog.size id + 1 := by
    rw [Nat.mod_eq_of_lt hfits, hcount]
  have hadd : (l.add id n user).backlog = ⟨l.backlog.entries.set (id, user) true,
      l.backlog.slots.set (id, l.backlog.size id) user,
      l.backlog.counts.set id (l.backlog.size id + 1)⟩ := by
    rw [← hn', ← hn]
    rfl
  rw [hadd]
  exact (h id).append user true

/-- The search may fail; the like is gone, and what is left is covered. -/
theorem covered_drop (h : AllCovered l.backlog) (id : Nat) (user : Address) :
    AllCovered (l.drop id user).backlog := by
  refine h.of_one ?_ fun k hk => (l.drop_agreeAt user hk).backlog
  have hremoved : Covered { l.backlog with entries := l.like.remove (id, user) } id :=
    (h id).remove user
  unfold drop swapRemoveLikeFromIndex
  dsimp only
  split
  · exact hremoved
  · rename_i hcount
    cases hfind : (List.range ((l.likersCount.get id).getD 0)).find?
        fun i => l.likersIdx.get (id, i) == some user with
    | none => exact hremoved
    | some p =>
      obtain ⟨last, hlast⟩ : ∃ last, (l.likersCount.get id).getD 0 = last + 1 :=
        Nat.exists_eq_succ_of_ne_zero hcount
      have hcovers : l.backlog.Covers id 0 (last + 1) := by
        rw [← hlast]
        exact h id
      have hslot : l.likersIdx.get (id, p) = some user := by
        have hbeq := List.find?_some hfind
        exact eq_of_beq hbeq
      rw [hlast, Nat.add_sub_cancel]
      dsimp only
      rw [Covered, Backlog.size]
      show Covers _ id 0 (((l.likersCount.set id last).get id).getD 0)
      rw [Store.get_set_self, Option.getD_some]
      refine hcovers.moveLast hslot (Store.get_remove_self _ _) ?_ ?_ ?_ (Store.get_remove_self _ _)
      · intro w hw
        obtain ⟨x, hx⟩ := Store.has_iff_exists.mp hw
        exact Store.has_of_get (Store.get_of_get_remove hx)
      · intro i hip hilast
        have hslot : ∀ j : Nat, i ≠ j → (id, i) ≠ (id, j) := fun j hj e => hj (Prod.mk.inj e).2
        refine (Store.get_remove_of_ne (hslot last hilast)).trans ?_
        split
        · split
          · exact Store.get_set_of_ne (hslot p hip) _
          · rfl
        · rfl
      · intro hpl w hw
        have hne : (id, p) ≠ (id, last) := fun e => hpl (Prod.mk.inj e).2
        have hw : l.likersIdx.get (id, last) = some w := hw
        refine (Store.get_remove_of_ne hne).trans ?_
        rw [if_pos hpl, hw]
        exact Store.get_set_self _ _ _

theorem covered_unlikeOnBlock {p : Posts × Likes} (h : AllCovered p.2.backlog) (id : Nat)
    (liker author : Address) : AllCovered (unlikeOnBlock p id liker author).2.backlog := by
  rw [unlikeOnBlock]
  split
  · split
    · split
      · exact covered_drop h id liker
      · exact h
    · exact h
  · exact h

theorem covered_cleanupLikesOnBlock {p : Posts × Likes} (h : AllCovered p.2.backlog)
    (a b : Address) : AllCovered (cleanupLikesOnBlock p a b).2.backlog := by
  have hfold : ∀ (ids : List Nat) (q : Posts × Likes), AllCovered q.2.backlog →
      AllCovered (ids.foldl (fun s id => unlikeOnBlock (unlikeOnBlock s id a b) id b a)
        q).2.backlog := by
    intro ids
    induction ids with
    | nil => exact fun q hq => hq
    | cons id ids ih =>
      intro q hq
      exact ih _ (covered_unlikeOnBlock (covered_unlikeOnBlock hq id a b) id b a)
  exact hfold _ p h

end Likes

/-! ## Reports and tips -/

section

variable {σ : Type} {host : Host σ} {env : Env} {w w' : World σ}

theorem reportPost_covered {reporter : Address} {id : Nat} {token : Address} {stakeAmount : Int}
    {reasonHash : Bytes32} (h : AllCovered w.store.reports.backlog)
    (he : reportPost host env w reporter id token stakeAmount reasonHash = .ok w') :
    AllCovered w'.store.reports.backlog := by
  obtain ⟨-, -, -, -, weightBps, tokens, -, rfl⟩ := reportPost_ok he
  exact h.of_one ((h id).append reporter _) fun k hk => append_agreeAt _ reporter _ _ _ hk

theorem reviewReport_covered {moderator : Address} {signers : List Address} {id : Nat}
    {reporter : Address} {verdict : ReportStatus} (h : AllCovered w.store.reports.backlog)
    (he : reviewReport host env w moderator signers id reporter verdict = .ok w') :
    AllCovered w'.store.reports.backlog := by
  obtain ⟨-, pool, report, v, -, -, hreport, -, hv, rfl⟩ := reviewReport_ok he
  obtain ⟨posts, appeals, events, hs, -⟩ := resolveReport_store hv
  have hreports : v.store.reports = w.store.reports := by rw [hs]
  have hstored : v.store.reports.backlog.entries.has (id, reporter) = true := by
    rw [hreports]
    exact Store.has_of_get hreport
  rw [← hreports] at h
  exact h.of_one ((h id).rewrite hstored _) fun k hk => rewrite_agreeAt _ reporter _ hk

theorem tip_tips {tipper token : Address} {id : Nat} {amount : Int}
    (he : tip host env w tipper id token amount = .ok w') :
    trackCooldown env w.store.tips id tipper token = .ok w'.store.tips := by
  simp only [tip, Checked.bind_eq_ok, Checked.pure_eq_ok] at he
  obtain ⟨_, -, _, -, _, -, _, -, _, -, _, -, post, -, _, -, _, -, _, -, _, -, _, -, _, -, _, -,
    tips, htips, feeAmount, -, authorAmount, -, tipTotal, -, paid, -, tokens, -, rfl⟩ := he
  exact htips

/-- A cooldown that has run out is written again under a slot of its own. -/
theorem trackCooldown_covered {t t' : Tips} {id : Nat} {tipper token : Address}
    (h : AllCovered t.backlog) (ht : trackCooldown env t id tipper token = .ok t') :
    AllCovered t'.backlog := by
  simp only [trackCooldown] at ht
  split at ht
  · rename_i hlive
    have hstored : t.backlog.entries.has (id, tipper, token) = true := by
      rw [liveCooldown] at hlive
      split at hlive
      · rename_i e hget
        exact Store.has_of_get hget
      · cases hlive
    rw [Checked.pure_eq_ok] at ht
    rw [← ht]
    exact h.of_one ((h id).rewrite hstored _) fun k hk => rewrite_agreeAt _ (tipper, token) _ hk
  · simp only [Checked.bind_eq_ok, Checked.pure_eq_ok, u32_eq_ok] at ht
    obtain ⟨next, ⟨-, rfl⟩, rfl⟩ := ht
    exact h.of_one ((h id).append (tipper, token) _) fun k hk =>
      append_agreeAt _ (tipper, token) _ _ _ hk

end

/-! ## One call of the cleanup -/

/-- What the three loops of `batch_cleanup_post` leave of the families, with the slots that they
share the allowance for. -/
structure Cleanup (s s' : State) (id maxEntries likesCount reportsCount tcCount : Nat) :
    Prop where
  dead : s.posts.deletedPost.has id = true
  likes : s.likes.backlog.Portion s'.likes.backlog id likesCount
  reports : s.reports.backlog.Portion s'.reports.backlog id reportsCount
  tips : s.tips.backlog.Portion s'.tips.backlog id tcCount
  rounds : (s.likes.backlog.size id - likesCount) + (s.reports.backlog.size id - reportsCount) +
    (s.tips.backlog.size id - tcCount) ≤ maxEntries
  left : likesCount + reportsCount + tcCount = s.likes.backlog.size id + s.reports.backlog.size id +
    s.tips.backlog.size id - maxEntries
  tombstone : s'.posts.deletedPost =
    if likesCount = 0 ∧ reportsCount = 0 ∧ tcCount = 0 then s.posts.deletedPost.remove id
    else s.posts.deletedPost
  frame : s' = { s with
    posts := { s.posts with deletedPost := s'.posts.deletedPost }
    likes := s'.likes
    reports := { s'.reports with reputation := s.reports.reputation }
    tips := s'.tips }

theorem batchCleanupPost_cleanup {s s' : State} {id maxEntries : Nat} (hs : s.Covered)
    (h : batchCleanupPost s id maxEntries = .ok s') :
    ∃ likesCount reportsCount tcCount,
      Cleanup s s' id maxEntries likesCount reportsCount tcCount := by
  simp only [batchCleanupPost, Checked.bind_eq_ok, Checked.pure_eq_ok, requireWithError_eq_ok,
    exists_const] at h
  obtain ⟨hdead, ⟨likesCount, left, likes⟩, hlikes, ⟨reportsCount, left', reports⟩, hreports,
    ⟨tcCount, left'', tips⟩, htips, rfl⟩ := h
  have hlikes' := drained_of_drain Likes.backlog
    (fun i l l' hl => drainLike_backlog hl) (hs.likes id) hlikes
  have hreports' := drained_of_drain Reports.backlog
    (fun i r r' hr => (drainReport_backlog hr).1) (hs.reports id) hreports
  have htips' := drained_of_drain Tips.backlog
    (fun i t t' ht => drainCooldown_backlog ht) (hs.tips id) htips
  have hreputation : reports.reputation = s.reports.reputation :=
    Checked.drain_invariant (P := fun _ r => r.reputation = s.reports.reputation)
      (fun i r r' hr hr' => (drainReport_backlog hr').2.trans hr) rfl hreports
  obtain ⟨hsum₁, hle₁, hstop₁⟩ := Checked.drain_counters hlikes
  obtain ⟨hsum₂, hle₂, hstop₂⟩ := Checked.drain_counters hreports
  obtain ⟨hsum₃, hle₃, hstop₃⟩ := Checked.drain_counters htips
  dsimp only at hsum₁ hle₁ hstop₁ hsum₂ hle₂ hstop₂ hsum₃ hle₃ hstop₃
  refine ⟨likesCount, reportsCount, tcCount, hdead, ⟨_, hlikes', rfl⟩, ⟨_, hreports', rfl⟩,
    ⟨_, htips', rfl⟩, ?_, ?_, rfl, ?_⟩
  · show ((s.likes.likersCount.get id).getD 0 - likesCount) +
      ((s.reports.reportCount.get id).getD 0 - reportsCount) +
      ((s.tips.cooldownsCount.get id).getD 0 - tcCount) ≤ maxEntries
    omega
  · show likesCount + reportsCount + tcCount = (s.likes.likersCount.get id).getD 0 +
      (s.reports.reportCount.get id).getD 0 + (s.tips.cooldownsCount.get id).getD 0 - maxEntries
    omega
  · rw [← hreputation]

theorem Cleanup.covered {s s' : State}
    {id maxEntries likesCount reportsCount tcCount : Nat} (hs : s.Covered)
    (h : Cleanup s s' id maxEntries likesCount reportsCount tcCount) : s'.Covered :=
  ⟨hs.likes.portion h.likes, hs.reports.portion h.reports, hs.tips.portion h.tips⟩

/-- The loops cannot abort, so a call returns as long as the tombstone stands. -/
theorem batchCleanupPost_total {s : State} {id : Nat}
    (hdead : s.posts.deletedPost.has id = true) (maxEntries : Nat) :
    ∃ s', batchCleanupPost s id maxEntries = .ok s' := by
  obtain ⟨⟨likesCount, left, likes⟩, hlikes⟩ := Checked.drain_returns (drainLike_returns id)
    ((s.likes.likersCount.get id).getD 0) maxEntries s.likes
  obtain ⟨⟨reportsCount, left', reports⟩, hreports⟩ := Checked.drain_returns
    (drainReport_returns id) ((s.reports.reportCount.get id).getD 0) left s.reports
  obtain ⟨⟨tcCount, left'', tips⟩, htips⟩ := Checked.drain_returns (drainCooldown_returns id)
    ((s.tips.cooldownsCount.get id).getD 0) left' s.tips
  have hcheck : requireWithError (s.posts.deletedPost.has id = true) "post not deleted" = .ok () :=
    requireWithError_eq_ok.mpr hdead
  simp only [batchCleanupPost, Checked.bind_eq_ok, Checked.pure_eq_ok]
  exact ⟨_, (), hcheck, _, hlikes, _, hreports, _, htips, rfl⟩

theorem batchCleanupProfile_covered {s s' : State} {user : Address} {maxEntries : Nat}
    (hs : s.Covered) (h : batchCleanupProfile s user maxEntries = .ok s') : s'.Covered := by
  obtain ⟨-, fCount, followingCount, left, graph, r, authorPosts, deletedProfile, -, hr, -, rfl⟩ :=
    batchCleanupProfile_ok h
  have hcovered : r.2.2.2.Covered := by
    refine Checked.drain_invariant (P := fun _ (b : List Nat × State) => b.2.Covered) ?_
      ⟨hs.likes, hs.reports, hs.tips⟩ hr
    intro count b b' hb hb'
    obtain ⟨postId, -, -, hs'⟩ := cleanupAuthorPost_ok hb'
    rw [hs']
    exact ⟨hb.likes.swept (sweepLikes_swept _ postId),
      hb.reports.swept (sweepReports_swept _ postId),
      hb.tips.swept (sweepCooldowns_swept _ postId)⟩
  exact ⟨hcovered.likes, hcovered.reports, hcovered.tips⟩

/-! ## Every call -/

section

variable {σ : Type} {host : Host σ} {env : Env} {w w' : World σ} {c : Call}

theorem exec_likes_covered (hlisted : LikesObey Listed w.store.postView)
    (hfits : LikesFit w.store env c) (h : w.store.Covered) (he : exec host env w c = .ok w') :
    AllCovered w'.store.likes.backlog := by
  cases c with
  | likePost user id =>
    rcases likePost_ok (World.onStore_eq_ok.mp he).1 with ⟨-, hs⟩ | ⟨post, hnew, stored, -, -, hs⟩
    · rw [hs]
      exact h.likes
    · have hfit : post.likeCount + 1 < 2 ^ 32 := by
        rcases hfits (id, user) rfl with hliked | hfit
        · rw [hnew] at hliked
          cases hliked
        · exact hfit post stored
      rw [hs]
      exact Likes.covered_add h.likes (hlisted.law id post (Or.inl stored)).count hfit user
  | blockUser a b =>
    obtain ⟨-, graph, -, hs⟩ := blockUser_ok (World.onStore_eq_ok.mp he).1
    rw [hs]
    exact Likes.covered_cleanupLikesOnBlock (p := (w.store.posts, w.store.likes)) h.likes a b
  | batchCleanupPost id maxEntries =>
    obtain ⟨_, _, _, hclean⟩ := batchCleanupPost_cleanup h (World.onStore_eq_ok.mp he).1
    exact (hclean.covered h).likes
  | batchCleanupProfile user maxEntries =>
    exact (batchCleanupProfile_covered h (World.onStore_eq_ok.mp he).1).likes
  | _ =>
    have hlikes : w'.store.likes = w.store.likes :=
      exec_frame (p := .likes) he (by simp [Call.parts])
    rw [hlikes]
    exact h.likes

theorem exec_reports_covered (h : w.store.Covered) (he : exec host env w c = .ok w') :
    AllCovered w'.store.reports.backlog := by
  cases c with
  | reportPost reporter id token stakeAmount reasonHash => exact reportPost_covered h.reports he
  | reviewReport moderator signers id reporter verdict => exact reviewReport_covered h.reports he
  | batchCleanupPost id maxEntries =>
    obtain ⟨_, _, _, hclean⟩ := batchCleanupPost_cleanup h (World.onStore_eq_ok.mp he).1
    exact (hclean.covered h).reports
  | batchCleanupProfile user maxEntries =>
    exact (batchCleanupProfile_covered h (World.onStore_eq_ok.mp he).1).reports
  | _ =>
    have hreports : w'.store.reports = w.store.reports :=
      exec_frame (p := .reports) he (by simp [Call.parts])
    rw [hreports]
    exact h.reports

theorem exec_tips_covered (h : w.store.Covered) (he : exec host env w c = .ok w') :
    AllCovered w'.store.tips.backlog := by
  cases c with
  | tip tipper id token amount => exact trackCooldown_covered h.tips (tip_tips he)
  | batchCleanupPost id maxEntries =>
    obtain ⟨_, _, _, hclean⟩ := batchCleanupPost_cleanup h (World.onStore_eq_ok.mp he).1
    exact (hclean.covered h).tips
  | batchCleanupProfile user maxEntries =>
    exact (batchCleanupProfile_covered h (World.onStore_eq_ok.mp he).1).tips
  | _ =>
    have htips : w'.store.tips = w.store.tips :=
      exec_frame (p := .tips) he (by simp [Call.parts])
    rw [htips]
    exact h.tips

/-- In every state reached while the numbers of likes fit, the indexes name every entry. -/
theorem State.Covered.of_reachableUnder (h : ReachableUnder host LikesFit w) :
    w.store.Covered := by
  refine h.store_induction (I := State.Covered) ?_ ?_
  · intro s env admin treasury feeBps hs
    obtain ⟨-, -, access, events, rfl⟩ := initializeContract_ok hs
    exact ⟨fun _ => ⟨nofun, fun _ _ => rfl⟩, fun _ => ⟨nofun, fun _ _ => rfl⟩,
      fun _ => ⟨nofun, fun _ _ => rfl⟩⟩
  · intro w env c w' hr hw hc he
    have hlisted : LikesObey Listed w.store.postView := .of_likesFit hr
    exact ⟨exec_likes_covered hlisted hc hw he, exec_reports_covered hw he,
      exec_tips_covered hw he⟩

end

end Contract
end Linkora
