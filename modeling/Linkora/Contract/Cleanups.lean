import Linkora.Contract.Backlogs

/-!
# The cleanup of a deleted post

`batch_cleanup_post` can be called by anybody, with any allowance, until the tombstone is gone.
The calls share the work, and it does not matter how: what is left of the three families after
each call is what the indexes name below the counts, so the last call leaves nothing, and the
storage that a finished cleanup ends in is the same for all ways to get there.
-/

namespace Linkora
namespace Contract

open Backlog

/-- No `Like`, `Report` or `TipCooldown` of the post is stored, nothing of the three indexes,
and none of their counts. -/
structure NothingLeft (s : State) (id : Nat) : Prop where
  like : ∀ user, s.likes.like.has (id, user) = false
  likersIdx : ∀ i, s.likes.likersIdx.has (id, i) = false
  likersCount : s.likes.likersCount.has id = false
  report : ∀ reporter, s.reports.report.has (id, reporter) = false
  reportersIdx : ∀ i, s.reports.reportersIdx.has (id, i) = false
  reportCount : s.reports.reportCount.has id = false
  tipCooldown : ∀ tipper token, s.tips.tipCooldown.has (id, tipper, token) = false
  cooldownsIdx : ∀ i, s.tips.cooldownsIdx.has (id, i) = false
  cooldownsCount : s.tips.cooldownsCount.has id = false

theorem nothingLeft_iff {s : State} {id : Nat} : NothingLeft s id ↔
    s.likes.backlog.Cleared id ∧ s.reports.backlog.Cleared id ∧ s.tips.backlog.Cleared id := by
  constructor
  · intro h
    exact ⟨⟨fun user => Store.has_eq_false_iff.mp (h.like user),
        fun i => Store.has_eq_false_iff.mp (h.likersIdx i),
        Store.has_eq_false_iff.mp h.likersCount⟩,
      ⟨fun reporter => Store.has_eq_false_iff.mp (h.report reporter),
        fun i => Store.has_eq_false_iff.mp (h.reportersIdx i),
        Store.has_eq_false_iff.mp h.reportCount⟩,
      ⟨fun key => Store.has_eq_false_iff.mp (h.tipCooldown key.1 key.2),
        fun i => Store.has_eq_false_iff.mp (h.cooldownsIdx i),
        Store.has_eq_false_iff.mp h.cooldownsCount⟩⟩
  · rintro ⟨hlikes, hreports, htips⟩
    exact {
      like := fun user => Store.has_eq_false_iff.mpr (hlikes.entries user)
      likersIdx := fun i => Store.has_eq_false_iff.mpr (hlikes.slots i)
      likersCount := Store.has_eq_false_iff.mpr hlikes.counts
      report := fun reporter => Store.has_eq_false_iff.mpr (hreports.entries reporter)
      reportersIdx := fun i => Store.has_eq_false_iff.mpr (hreports.slots i)
      reportCount := Store.has_eq_false_iff.mpr hreports.counts
      tipCooldown := fun tipper token => Store.has_eq_false_iff.mpr (htips.entries (tipper, token))
      cooldownsIdx := fun i => Store.has_eq_false_iff.mpr (htips.slots i)
      cooldownsCount := Store.has_eq_false_iff.mpr htips.counts }

/-- How many likes, reports and cooldowns of the post are in `s` and not in `s'`. -/
noncomputable def entriesRemoved (s s' : State) (id : Nat) : Nat :=
  (s.likes.backlog.removedEntries s'.likes.backlog id).ncard +
    (s.reports.backlog.removedEntries s'.reports.backlog id).ncard +
    (s.tips.backlog.removedEntries s'.tips.backlog id).ncard

/-- How many slots of the three indexes of the post are in use in `s` and not in `s'`. -/
noncomputable def slotsRemoved (s s' : State) (id : Nat) : Nat :=
  (s.likes.backlog.removedSlots s'.likes.backlog id).ncard +
    (s.reports.backlog.removedSlots s'.reports.backlog id).ncard +
    (s.tips.backlog.removedSlots s'.tips.backlog id).ncard

/-- What a call may still have to work off. -/
def slotsCounted (s : State) (id : Nat) : Nat :=
  s.likes.backlog.size id + s.reports.backlog.size id + s.tips.backlog.size id

/-! ## One call -/

namespace Cleanup

variable {s s' : State} {id maxEntries likesCount reportsCount tcCount : Nat}

theorem nothingLeft_iff (h : Cleanup s s' id maxEntries likesCount reportsCount tcCount) :
    NothingLeft s' id ↔ likesCount = 0 ∧ reportsCount = 0 ∧ tcCount = 0 := by
  rw [Contract.nothingLeft_iff, h.likes.cleared_iff, h.reports.cleared_iff, h.tips.cleared_iff]

/-- The tombstone goes with the last of the counts. -/
theorem tombstone_iff (h : Cleanup s s' id maxEntries likesCount reportsCount tcCount) :
    s'.posts.deletedPost.has id = false ↔ NothingLeft s' id := by
  rw [h.nothingLeft_iff, h.tombstone]
  by_cases hdone : likesCount = 0 ∧ reportsCount = 0 ∧ tcCount = 0
  · rw [if_pos hdone, Store.has_eq, Store.get_remove_self]
    exact ⟨fun _ => hdone, fun _ => rfl⟩
  · rw [if_neg hdone, h.dead]
    exact ⟨nofun, fun hdone' => absurd hdone' hdone⟩

theorem removed_le (hs : s.Covered)
    (h : Cleanup s s' id maxEntries likesCount reportsCount tcCount) :
    entriesRemoved s s' id ≤ maxEntries ∧ slotsRemoved s s' id ≤ maxEntries := by
  obtain ⟨hlike, hlikeSlot⟩ := h.likes.ncard_le (hs.likes id)
  obtain ⟨hreport, hreportSlot⟩ := h.reports.ncard_le (hs.reports id)
  obtain ⟨htip, htipSlot⟩ := h.tips.ncard_le (hs.tips id)
  have hrounds := h.rounds
  rw [entriesRemoved, slotsRemoved]
  constructor
  · omega
  · omega

/-- An allowance for all slots finishes. -/
theorem finished (h : Cleanup s s' id maxEntries likesCount reportsCount tcCount)
    (henough : slotsCounted s id ≤ maxEntries) : s'.posts.deletedPost.has id = false := by
  have hleft := h.left
  rw [slotsCounted] at henough
  rw [h.tombstone_iff, h.nothingLeft_iff]
  omega

end Cleanup

/-! ## Call after call -/

/-- What calls of the cleanup can change: the families of the post, and the tombstone when
nothing is left of them. -/
structure CleanedFrom (s s' : State) (id : Nat) : Prop where
  likes : ∀ k, k ≠ id → s.likes.backlog.AgreeAt s'.likes.backlog k
  reports : ∀ k, k ≠ id → s.reports.backlog.AgreeAt s'.reports.backlog k
  tips : ∀ k, k ≠ id → s.tips.backlog.AgreeAt s'.tips.backlog k
  tombstone : s'.posts.deletedPost = s.posts.deletedPost ∨
    s'.posts.deletedPost = s.posts.deletedPost.remove id ∧ NothingLeft s' id
  frame : s' = { s with
    posts := { s.posts with deletedPost := s'.posts.deletedPost }
    likes := s'.likes
    reports := { s'.reports with reputation := s.reports.reputation }
    tips := s'.tips }

namespace CleanedFrom

variable {s s' s'' : State} {id : Nat}

theorem refl (s : State) (id : Nat) : CleanedFrom s s id where
  likes := fun k _ => .refl _ k
  reports := fun k _ => .refl _ k
  tips := fun k _ => .refl _ k
  tombstone := Or.inl rfl
  frame := rfl

theorem step {maxEntries likesCount reportsCount tcCount : Nat} (h : CleanedFrom s s' id)
    (hcall : Cleanup s' s'' id maxEntries likesCount reportsCount tcCount) :
    CleanedFrom s s'' id where
  likes := fun k hk => (h.likes k hk).trans (hcall.likes.agreeAt hk)
  reports := fun k hk => (h.reports k hk).trans (hcall.reports.agreeAt hk)
  tips := fun k hk => (h.tips k hk).trans (hcall.tips.agreeAt hk)
  tombstone := by
    have hkept : s'.posts.deletedPost = s.posts.deletedPost := by
      rcases h.tombstone with hkept | ⟨hgone, -⟩
      · exact hkept
      · have hdead := hcall.dead
        rw [hgone, Store.has_eq, Store.get_remove_self] at hdead
        cases hdead
    rw [hcall.nothingLeft_iff, hcall.tombstone, hkept]
    by_cases hdone : likesCount = 0 ∧ reportsCount = 0 ∧ tcCount = 0
    · exact Or.inr ⟨if_pos hdone, hdone⟩
    · exact Or.inl (if_neg hdone)
  frame := by
    rw [hcall.frame, h.frame]

/-- A finished cleanup leaves nothing. -/
theorem nothingLeft (h : CleanedFrom s s' id) (hdead : s.posts.deletedPost.has id = true)
    (hgone : s'.posts.deletedPost.has id = false) :
    s'.posts.deletedPost = s.posts.deletedPost.remove id ∧ NothingLeft s' id := by
  rcases h.tombstone with hkept | hremoved
  · rw [hkept, hdead] at hgone
    cases hgone
  · exact hremoved

/-- All finished cleanups of a post end in the same storage. -/
theorem eq_of_finished (h : CleanedFrom s s' id) (h' : CleanedFrom s s'' id)
    (hdead : s.posts.deletedPost.has id = true)
    (hgone : s'.posts.deletedPost.has id = false)
    (hgone' : s''.posts.deletedPost.has id = false) : s' = s'' := by
  obtain ⟨hposts, hleft⟩ := h.nothingLeft hdead hgone
  obtain ⟨hposts', hleft'⟩ := h'.nothingLeft hdead hgone'
  obtain ⟨hlikes, hreports, htips⟩ := nothingLeft_iff.mp hleft
  obtain ⟨hlikes', hreports', htips'⟩ := nothingLeft_iff.mp hleft'
  have hbacklog := eq_of_cleared h.likes h'.likes hlikes hlikes'
  have hlikesEq : s'.likes = s''.likes :=
    congrArg (fun b : Backlog Nat Address Bool => Likes.mk b.entries b.counts b.slots) hbacklog
  have hbacklog := eq_of_cleared h.tips h'.tips htips htips'
  have htipsEq : s'.tips = s''.tips :=
    congrArg (fun b : Backlog Nat (Address × Address) TempEntry =>
      Tips.mk b.entries b.counts b.slots) hbacklog
  have hbacklog := eq_of_cleared h.reports h'.reports hreports hreports'
  have hreportsEq : { s'.reports with reputation := s.reports.reputation } =
      { s''.reports with reputation := s.reports.reputation } :=
    congrArg (fun b : Backlog Nat Address Report =>
      Reports.mk b.entries b.counts b.slots s.reports.reputation) hbacklog
  rw [h.frame, h'.frame, hposts, hposts', hlikesEq, htipsEq, hreportsEq]

end CleanedFrom

section

variable {σ : Type} {host : Host σ} {w w₁ : World σ} {id : Nat}

/-- Call `batch_cleanup_post` with one allowance after another. -/
def batchCleanups (host : Host σ) (id : Nat) (calls : List (Env × Nat)) (w : World σ) :
    Except Panic (World σ) :=
  calls.foldlM (fun w call => exec host call.1 w (.batchCleanupPost id call.2)) w

theorem batchCleanups_cleaned (h : ReachableUnder host LikesFit w) {calls : List (Env × Nat)}
    (he : batchCleanups host id calls w = .ok w₁) :
    ReachableUnder host LikesFit w₁ ∧ w₁.tokens = w.tokens ∧
      CleanedFrom w.store w₁.store id := by
  refine Checked.foldlM_invariant (P := fun v => ReachableUnder host LikesFit v ∧
    v.tokens = w.tokens ∧ CleanedFrom w.store v.store id) ?_ ⟨h, rfl, .refl w.store id⟩ he
  rintro ⟨env, maxEntries⟩ - v v' ⟨hv, htokens, hcleaned⟩ hcall
  obtain ⟨hstore, hsame⟩ := World.onStore_eq_ok.mp hcall
  obtain ⟨_, _, _, hcleanup⟩ := batchCleanupPost_cleanup (.of_reachableUnder hv) hstore
  have hfits : LikesFit v.store env (.batchCleanupPost id maxEntries) := by
    intro key hkey
    cases hkey
  exact ⟨hv.call hfits hcall, hsame.trans htokens, hcleaned.step hcleanup⟩

/-- As long as the tombstone of a post stands, any allowance can be used for another call of its
cleanup, which removes at most that many entries, and their slots, and removes the tombstone when
nothing is left and only then.  However the calls share the work, a cleanup that is finished has
left nothing, and all ways to finish it end in the same state; an allowance for all slots
finishes it at once. -/
theorem cleanup_complete (h : ReachableUnder host LikesFit w)
    (hdead : w.store.posts.deletedPost.has id = true) :
    (∀ calls w₁, batchCleanups host id calls w = .ok w₁ →
      w₁.store.posts.deletedPost.has id = true → ∀ env maxEntries, ∃ w₂,
        exec host env w₁ (.batchCleanupPost id maxEntries) = .ok w₂ ∧
        entriesRemoved w₁.store w₂.store id ≤ maxEntries ∧
        slotsRemoved w₁.store w₂.store id ≤ maxEntries ∧
        (w₂.store.posts.deletedPost.has id = false ↔ NothingLeft w₂.store id) ∧
        (slotsCounted w₁.store id ≤ maxEntries → w₂.store.posts.deletedPost.has id = false)) ∧
      (∀ calls w₁, batchCleanups host id calls w = .ok w₁ →
        w₁.store.posts.deletedPost.has id = false → NothingLeft w₁.store id) ∧
      ∀ calls calls' w₁ w₁', batchCleanups host id calls w = .ok w₁ →
        batchCleanups host id calls' w = .ok w₁' →
        w₁.store.posts.deletedPost.has id = false →
        w₁'.store.posts.deletedPost.has id = false → w₁ = w₁' := by
  refine ⟨?_, ?_, ?_⟩
  · intro calls w₁ he hdead₁ env maxEntries
    obtain ⟨hreach, -, -⟩ := batchCleanups_cleaned h he
    have hcovered : w₁.store.Covered := .of_reachableUnder hreach
    obtain ⟨s, hs⟩ := batchCleanupPost_total hdead₁ maxEntries
    obtain ⟨_, _, _, hcleanup⟩ := batchCleanupPost_cleanup hcovered hs
    have hcall : exec host env w₁ (.batchCleanupPost id maxEntries) = .ok { w₁ with store := s } :=
      World.onStore_eq_ok.mpr ⟨hs, rfl⟩
    obtain ⟨hentries, hslots⟩ := hcleanup.removed_le hcovered
    exact ⟨_, hcall, hentries, hslots, hcleanup.tombstone_iff, hcleanup.finished⟩
  · intro calls w₁ he hgone
    obtain ⟨-, -, hcleaned⟩ := batchCleanups_cleaned h he
    exact (hcleaned.nothingLeft hdead hgone).2
  · intro calls calls' w₁ w₁' he he' hgone hgone'
    obtain ⟨-, htokens, hcleaned⟩ := batchCleanups_cleaned h he
    obtain ⟨-, htokens', hcleaned'⟩ := batchCleanups_cleaned h he'
    have hstore := hcleaned.eq_of_finished hcleaned' hdead hgone hgone'
    calc
      w₁ = ⟨w₁.store, w₁.tokens⟩ := rfl
      _ = ⟨w₁'.store, w₁'.tokens⟩ := by rw [hstore, htokens, htokens']

end

/-- A post with two likes, a report and the cooldown of one pair in two slots, since it had run
out in between, is cleaned up in one call or in four. -/
theorem cleanup_in_portions :
    ∃ w w₁ w₁' : World Book, w.store.likes.like.has (1, bob) = true ∧
      w.store.tips.cooldownsIdx.get (1, 0) = w.store.tips.cooldownsIdx.get (1, 1) ∧
      w.store.posts.deletedPost.has 1 = true ∧
      batchCleanups (bookHost linkora) 1 [(signedAt 2000002, 5)] w = .ok w₁ ∧
      batchCleanups (bookHost linkora) 1
        [(signedAt 2000002, 0), (signedAt 9, 1), (signedAt 9, 3), (signedAt 9, 4)] w = .ok w₁' ∧
      NothingLeft w₁.store 1 ∧ w₁ = w₁' := by
  have hdemo : (demo LikesFit (fun _ _ => 100)
      [(signedAt 2, .createPost carol (asciiBytes "hello")), (signedAt 3, .likePost bob 1),
        (signedAt 3, .likePost alice 1), (signedAt 4, .reportPost bob 1 coin 20 0),
        (signedAt 5, .tip bob 1 coin 10), (signedAt 2000000, .tip bob 1 coin 10),
        (signedAt 2000001, .deletePost carol 1)]).map
      (fun w => (w.store.likes.like.has (1, bob), w.store.tips.cooldownsIdx.get (1, 0),
        w.store.tips.cooldownsIdx.get (1, 1), w.store.posts.deletedPost.has 1,
        (batchCleanups (bookHost linkora) 1 [(signedAt 2000002, 5)] w).toOption.map
          (·.store.posts.deletedPost.has 1),
        (batchCleanups (bookHost linkora) 1
          [(signedAt 2000002, 0), (signedAt 9, 1), (signedAt 9, 3), (signedAt 9, 4)] w).toOption.map
          (·.store.posts.deletedPost.has 1))) =
      some (true, some (bob, coin), some (bob, coin), true, some false, some false) := by rfl
  obtain ⟨w, hw, hsee⟩ := reachable_demo hdemo
  simp only [Prod.mk.injEq] at hsee
  obtain ⟨hlike, hslot, hslot', hdead, hall, hfour⟩ := hsee
  obtain ⟨w₁, he, hgone⟩ := Option.map_eq_some_iff.mp hall
  obtain ⟨w₁', he', hgone'⟩ := Option.map_eq_some_iff.mp hfour
  rw [toOption_eq_some] at he he'
  obtain ⟨-, hleft, hsame⟩ := cleanup_complete hw hdead
  exact ⟨w, w₁, w₁', hlike, hslot.trans hslot'.symm, hdead, he, he', hleft _ w₁ he hgone,
    hsame _ _ w₁ w₁' he he' hgone hgone'⟩

/-! ## A count that wraps -/

theorem likePost_returns {env : Env} {s : State} {user : Address} {id : Nat} {post : Post}
    (hauth : env.auth user = true) (huser : isZeroAddress user = false) (hid : 0 < id)
    (hrunning : Running s .posts) (hnew : s.likes.like.has (id, user) = false)
    (stored : s.posts.post.get id = some post) (hauthor : isZeroAddress post.author = false)
    (hunblocked : s.blocks = ∅) (hfits : post.likeCount + 1 ≤ U64_MAX) :
    ∃ s', likePost env s user id = .ok s' := by
  have hblock : ∀ a b, isZeroAddress a = false → isZeroAddress b = false →
      isBlocked s a b = .ok false := by
    intro a b ha hb
    refine isBlocked_eq_ok.mpr ⟨ha, hb, ?_⟩
    rw [blocks, hunblocked]
    rfl
  have hfree : requireWithError (false = false) "blocked" = .ok () :=
    requireWithError_eq_ok.mpr rfl
  have hpositive : requireWithError (0 < id) "post id must be positive" = .ok () :=
    requireWithError_eq_ok.mpr hid
  have hcount : u64 (post.likeCount + 1) = .ok (post.likeCount + 1) :=
    u64_eq_ok.mpr ⟨hfits, rfl⟩
  rw [likePost, Checked.bind_of_ok ((requireAuth_eq_ok (u := ())).mpr hauth),
    Checked.bind_of_ok ((validateNonDefaultAddress_eq_ok (u := ())).mpr huser),
    Checked.bind_of_ok hpositive,
    Checked.bind_of_ok ((requireNotPaused_eq_ok (u := ())).mpr hrunning),
    if_neg (by rw [hnew]; decide),
    Checked.bind_of_ok (expect_eq_ok.mpr stored),
    Checked.bind_of_ok (hblock post.author user hauthor huser), Checked.bind_of_ok hfree,
    Checked.bind_of_ok (hblock user post.author huser hauthor), Checked.bind_of_ok hfree,
    Checked.bind_of_ok hcount]
  exact ⟨_, rfl⟩

/-- The accounts that like a post one after another. -/
def fan (k : Nat) : Address := .account (BitVec.ofNat 256 (k + 10))

/-- A post by `carol` has been liked by the first `n` of them. -/
structure Popular (w : World Book) (n : Nat) : Prop where
  reachable : Reachable (bookHost linkora) w
  running : Running w.store .posts
  unblocked : w.store.blocks = ∅
  post : ∃ post, w.store.posts.post.get 1 = some post ∧ post.author = carol ∧ post.likeCount = n
  like : ∀ k, k < 2 ^ 33 → (w.store.likes.like.has (1, fan k) = true ↔ k < n)
  likersCount : (w.store.likes.likersCount.get 1).getD 0 = n % 2 ^ 32
  reports : w.store.reports.reportCount.get 1 = none
  tips : w.store.tips.cooldownsCount.get 1 = none

theorem fan_inj {k j : Nat} (hk : k < 2 ^ 33) (hj : j < 2 ^ 33) (h : fan k = fan j) : k = j := by
  have hvalues := congrArg BitVec.toNat (Address.account.inj h)
  rw [BitVec.toNat_ofNat, BitVec.toNat_ofNat, Nat.mod_eq_of_lt (by omega),
    Nat.mod_eq_of_lt (by omega)] at hvalues
  exact Nat.add_right_cancel hvalues

theorem isZeroAddress_fan {k : Nat} (hk : k < 2 ^ 33) : isZeroAddress (fan k) = false := by
  have hne : fan k ≠ ZERO_ACCOUNT_ADDRESS := by
    intro h
    have hvalue := congrArg BitVec.toNat (Address.account.inj h)
    rw [BitVec.toNat_ofNat, Nat.mod_eq_of_lt (by omega)] at hvalue
    simp at hvalue
  rw [isZeroAddress, Bool.or_eq_false_iff]
  exact ⟨beq_eq_false_iff_ne.mpr hne, beq_eq_false_iff_ne.mpr nofun⟩

theorem popular_zero : ∃ w, Popular w 0 := by
  have hdemo : (demo (fun _ _ _ => True) (fun _ _ => 100)
      [(signedAt 2, .createPost carol (asciiBytes "hello"))]).map
      (fun w => (isPaused w.store, isModulePaused w.store .posts, w.store.blocks, w.store.likes,
        w.store.reports.reportCount, w.store.tips.cooldownsCount,
        (w.store.posts.post.get 1).map fun post => (post.author, post.likeCount))) =
      some (false, false, ∅, ⟨∅, ∅, ∅⟩, ∅, ∅, some (carol, 0)) := by rfl
  obtain ⟨w, hw, hsee⟩ := reachable_demo hdemo
  simp only [Prod.mk.injEq] at hsee
  obtain ⟨hpaused, hmodule, hblocks, hlikes, hreports, htips, hpost⟩ := hsee
  obtain ⟨post, hpost, hview⟩ := Option.map_eq_some_iff.mp hpost
  refine ⟨w, hw.reachable, ⟨hpaused, hmodule⟩, hblocks,
    ⟨post, hpost, (Prod.mk.inj hview).1, (Prod.mk.inj hview).2⟩, fun k _ => ?_, ?_, ?_, ?_⟩
  · rw [hlikes]
    exact ⟨nofun, fun hlt => absurd hlt (Nat.not_lt_zero k)⟩
  · rw [hlikes]
    rfl
  · rw [hreports]
    rfl
  · rw [htips]
    rfl

/-- The next account likes the post. -/
theorem Popular.next {w : World Book} {n : Nat} (h : Popular w n) (hn : n < 2 ^ 33) :
    ∃ w', Popular w' (n + 1) := by
  obtain ⟨post, stored, hauthor, hcount⟩ := h.post
  have hnew : w.store.likes.like.has (1, fan n) = false := by
    rw [← Bool.not_eq_true, h.like n hn]
    exact Nat.lt_irrefl n
  have hfits : post.likeCount + 1 ≤ U64_MAX := by
    rw [hcount, U64_MAX]
    omega
  have hauthor' : isZeroAddress post.author = false := by
    rw [hauthor]
    decide
  have hauth : (signedAt 2).auth (fan n) = true := rfl
  obtain ⟨s, hs⟩ := likePost_returns hauth (isZeroAddress_fan hn) Nat.one_pos h.running hnew stored
    hauthor' h.unblocked hfits
  have hcall : exec (bookHost linkora) (signedAt 2) w (.likePost (fan n) 1) =
      .ok { w with store := s } := World.onStore_eq_ok.mpr ⟨hs, rfl⟩
  have hreach := (h.reachable.under.call trivial hcall).reachable
  rcases likePost_ok hs with ⟨hold, -⟩ | ⟨post', -, stored', -, -, rfl⟩
  · rw [hnew] at hold
    cases hold
  · rw [stored, Option.some.injEq] at stored'
    subst stored'
    refine ⟨_, hreach, h.running, h.unblocked, ⟨_, Store.get_set_self _ _ _, hauthor, ?_⟩,
      fun k hk => ?_, ?_, h.reports, h.tips⟩
    · show post.likeCount + 1 = n + 1
      rw [hcount]
    · show (w.store.likes.like.set (1, fan n) true).has (1, fan k) = true ↔ k < n + 1
      rw [Store.has_set]
      by_cases hkn : k = n
      · simp [hkn]
      · have hne : (1, fan k) ≠ (1, fan n) := fun heq => hkn (fan_inj hk hn (Prod.mk.inj heq).2)
        have hlike := h.like k hk
        simp [hne, hlike]
        omega
    · show ((w.store.likes.likersCount.set 1 ((post.likeCount + 1) % 2 ^ 32)).get 1).getD 0 = _
      rw [Store.get_set_self, hcount]
      rfl

theorem exists_popular {n : Nat} (hn : n ≤ 2 ^ 33) : ∃ w, Popular w n := by
  induction n with
  | zero => exact popular_zero
  | succ n ih =>
    obtain ⟨w, hw⟩ := ih (Nat.le_of_succ_le hn)
    exact hw.next hn

theorem deletePost_returns {env : Env} {s : State} {author : Address} {id : Nat} {post : Post}
    (hauth : env.auth author = true) (hauthor : isZeroAddress author = false) (hid : 0 < id)
    (hrunning : Running s .posts) (stored : s.posts.post.get id = some post)
    (hpost : post.author = author) : ∃ s', deletePost env s author id = .ok s' := by
  have hpositive : requireWithError (0 < id) "post id must be positive" = .ok () :=
    requireWithError_eq_ok.mpr hid
  have hown : requireWithError (post.author = author) "only author can delete post" = .ok () :=
    requireWithError_eq_ok.mpr hpost
  rw [deletePost, Checked.bind_of_ok ((requireAuth_eq_ok (u := ())).mpr hauth),
    Checked.bind_of_ok ((validateNonDefaultAddress_eq_ok (u := ())).mpr hauthor),
    Checked.bind_of_ok hpositive,
    Checked.bind_of_ok ((requireNotPaused_eq_ok (u := ())).mpr hrunning),
    Checked.bind_of_ok (expect_eq_ok.mpr stored), Checked.bind_of_ok hown]
  exact ⟨_, rfl⟩

/-- With all counts at zero the tombstone goes at once, whatever is stored. -/
theorem batchCleanupPost_of_counts {s : State} {id : Nat}
    (hdead : s.posts.deletedPost.has id = true)
    (hlikes : (s.likes.likersCount.get id).getD 0 = 0)
    (hreports : s.reports.reportCount.get id = none)
    (htips : s.tips.cooldownsCount.get id = none) :
    ∃ s', batchCleanupPost s id 0 = .ok s' ∧ s'.likes.like = s.likes.like ∧
      s'.posts.deletedPost = s.posts.deletedPost.remove id := by
  have hcheck : requireWithError (s.posts.deletedPost.has id = true) "post not deleted" = .ok () :=
    requireWithError_eq_ok.mpr hdead
  rw [batchCleanupPost, Checked.bind_of_ok hcheck, hlikes, hreports, htips]
  exact ⟨_, rfl, rfl, rfl⟩

/-- After `2 ^ 32` likes the number of the likers is stored as zero.  Once the author has deleted
the post, a first call with no allowance at all removes the tombstone, and every like stays. -/
theorem cleanup_skips_wrapped_likes :
    ¬∀ (w : World Book) (id : Nat), Reachable (bookHost linkora) w →
      w.store.posts.deletedPost.has id = true → ∀ calls w₁,
      batchCleanups (bookHost linkora) id calls w = .ok w₁ →
      w₁.store.posts.deletedPost.has id = false → NothingLeft w₁.store id := by
  intro hclaim
  obtain ⟨w, hw⟩ := exists_popular (n := 2 ^ 32) (by decide)
  obtain ⟨post, stored, hauthor, -⟩ := hw.post
  have hliked : w.store.likes.like.has (1, fan 0) = true := (hw.like 0 (by decide)).mpr (by decide)
  have hauth : (signedAt 3).auth carol = true := rfl
  obtain ⟨s, hs⟩ := deletePost_returns hauth (by decide) Nat.one_pos hw.running stored hauthor
  have hcall : exec (bookHost linkora) (signedAt 3) w (.deletePost carol 1) =
      .ok { w with store := s } := World.onStore_eq_ok.mpr ⟨hs, rfl⟩
  have hreach := (hw.reachable.under.call trivial hcall).reachable
  obtain ⟨-, -, -, hdeleted⟩ := deletePost_ok hs
  have hdead : s.posts.deletedPost.has 1 = true := by
    rw [hdeleted]
    exact Store.has_of_get (Store.get_set_self _ _ _)
  have hlikes : s.likes = w.store.likes := by
    rw [hdeleted]
    rfl
  have hreports : s.reports.reportCount.get 1 = none := by
    rw [hdeleted]
    exact hw.reports
  have htips : s.tips.cooldownsCount.get 1 = none := by
    rw [hdeleted]
    exact hw.tips
  have hcount : (s.likes.likersCount.get 1).getD 0 = 0 := by
    rw [hlikes, hw.likersCount, Nat.mod_self]
  obtain ⟨s', hs', hlike, hgone⟩ := batchCleanupPost_of_counts hdead hcount hreports htips
  have hclean : batchCleanups (bookHost linkora) 1 [(signedAt 4, 0)] { w with store := s } =
      .ok { w with store := s' } := by
    have hcall' : exec (bookHost linkora) (signedAt 4) { w with store := s }
        (.batchCleanupPost 1 0) = .ok { w with store := s' } := World.onStore_eq_ok.mpr ⟨hs', rfl⟩
    rw [batchCleanups, List.foldlM_cons, Checked.bind_of_ok hcall']
    rfl
  have hgone' : s'.posts.deletedPost.has 1 = false := by
    rw [hgone, Store.has_eq, Store.get_remove_self]
    rfl
  have hleft := hclaim { w with store := s } 1 hreach hdead _ _ hclean hgone'
  have hnone : s'.likes.like.has (1, fan 0) = false := hleft.like (fan 0)
  rw [hlike, hlikes, hliked] at hnone
  cases hnone

end Contract
end Linkora
