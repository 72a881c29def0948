import Linkora.Lib.Tally
import Linkora.Contract.Parameters
import Linkora.Contract.Silent

/-!
# Where the tips go

A tip is split between the treasury and the author with one division, and the author's
part is added to the total of the post.  The post may be taken away and come back in the
meantime: its total comes back with it, and an id is never given to another post.
-/

namespace Linkora
namespace Contract

/-! ## The split -/

/-- The part of `amount` that goes to the treasury. -/
def tipShareOfTreasury (amount : Int) (feeBps : Nat) : Int := amount * feeBps / 10000

/-- Dividing the whole ten thousands and the rest apart loses nothing. -/
theorem tipFee_eq {amount : Int} {feeBps : Nat} (hpos : 0 < amount)
    (hle : amount ≤ MAX_PROTOCOL_AMOUNT) (hbps : feeBps ≤ 10000) :
    tipFee amount feeBps = .ok (tipShareOfTreasury amount feeBps) ∧
      0 ≤ tipShareOfTreasury amount feeBps ∧ tipShareOfTreasury amount feeBps ≤ amount := by
  have hmin : I128_MIN ≤ 0 := by decide
  have hmax : MAX_PROTOCOL_AMOUNT ≤ I128_MAX := by decide
  have hbps' : (feeBps : Int) ≤ 10000 := by exact_mod_cast hbps
  have hnonneg : (0 : Int) ≤ feeBps := Int.natCast_nonneg feeBps
  have hquot : 0 ≤ amount / 10000 := Int.ediv_nonneg hpos.le (by decide)
  have hrest : 0 ≤ amount % 10000 := Int.emod_nonneg _ (by decide)
  have hsplit : 10000 * (amount / 10000) + amount % 10000 = amount :=
    Int.mul_ediv_add_emod amount 10000
  have hwhole : 0 ≤ amount / 10000 * feeBps := Int.mul_nonneg hquot hnonneg
  have hwhole' : amount / 10000 * feeBps ≤ amount / 10000 * 10000 :=
    Int.mul_le_mul_of_nonneg_left hbps' hquot
  have hpart : 0 ≤ amount % 10000 * feeBps := Int.mul_nonneg hrest hnonneg
  have hpart' : amount % 10000 * feeBps ≤ amount % 10000 * 10000 :=
    Int.mul_le_mul_of_nonneg_left hbps' hrest
  have hrest' : amount % 10000 < 10000 := Int.emod_lt_of_pos _ (by decide)
  have hlarge : 10000 * 10000 ≤ I128_MAX := by decide
  have hshare : tipShareOfTreasury amount feeBps =
      amount / 10000 * feeBps + amount % 10000 * feeBps / 10000 := by
    have hexpand : amount * feeBps =
        amount % 10000 * feeBps + 10000 * (amount / 10000 * feeBps) := by
      calc amount * feeBps = (10000 * (amount / 10000) + amount % 10000) * feeBps := by rw [hsplit]
        _ = _ := by rw [Int.add_mul, Int.mul_assoc, Int.add_comm]
    rw [tipShareOfTreasury, hexpand, Int.add_mul_ediv_left _ _ (by decide), Int.add_comm]
  have hwhole_ok : i128 (amount / 10000 * feeBps) = .ok (amount / 10000 * feeBps) :=
    if_pos ⟨by omega, by omega⟩
  have hpart_ok : i128 (amount % 10000 * feeBps) = .ok (amount % 10000 * feeBps) :=
    if_pos ⟨by omega, by omega⟩
  have hbounds : 0 ≤ tipShareOfTreasury amount feeBps ∧
      tipShareOfTreasury amount feeBps ≤ amount := by
    rw [hshare]
    omega
  refine ⟨?_, hbounds⟩
  rw [tipFee, Int.tdiv_eq_ediv_of_nonneg hpos.le, Int.tmod_eq_emod_of_nonneg hpos.le,
    Checked.bind_of_ok hwhole_ok, Checked.bind_of_ok hpart_ok,
    Int.tdiv_eq_ediv_of_nonneg hpart, ← hshare]
  exact if_pos ⟨by omega, by omega⟩

section Split

variable {σ : Type} {host : Host σ} {env : Env} {w w' : World σ} {tipper token : Address}
  {id : Nat} {amount : Int}

/-- A successful tip had an amount that the validator admits. -/
theorem tip_amount (h : tip host env w tipper id token amount = .ok w') :
    0 < amount ∧ amount ≤ MAX_PROTOCOL_AMOUNT := by
  simp only [tip, Checked.bind_eq_ok, validateAmount_eq_ok, exists_const] at h
  obtain ⟨_, -, _, -, _, -, _, -, _, -, hamount, -⟩ := h
  exact hamount

/-- Without a fee the treasury is not asked for; otherwise it is the recipient of it. -/
theorem payTipFee_moves (L : ExactLedger host token) {s : State} {tokens paid : σ}
    {feeAmount : Int} (hfee : 0 ≤ feeAmount) {treasury : Address}
    (htreasury : s.params.treasury = some treasury)
    (h : payTipFee host s tokens tipper token feeAmount = .ok paid) (a : Address) :
    L.bal paid a = L.bal tokens a - (if a = tipper then feeAmount else 0) +
      (if a = treasury then feeAmount else 0) := by
  unfold payTipFee at h
  split at h
  · rw [htreasury] at h
    exact L.transfer_moves (tokenCall_eq_ok.mp h) a
  · rename_i hnone
    have hzero : feeAmount = 0 := by omega
    rw [Except.ok.injEq] at h
    rw [h, hzero]
    simp

/-- The fee of a protocol with its parameters in range is at most the whole amount. -/
theorem getFeeBps_le {s : State} (h : ParametersInRange s) : getFeeBps s ≤ 10000 := by
  obtain ⟨feeBps, hfeeBps, hbps⟩ := h.fee
  rw [getFeeBps, hfeeBps, Option.getD_some]
  exact hbps

/-- What a successful tip does to the balances of a token that moves what it is told to:
whoever is the tipper pays the amount, whoever is the treasury gets the fee, whoever is
the author the rest, and the three may coincide. -/
theorem tip_moves (L : ExactLedger host token) (hrange : ParametersInRange w.store)
    (h : tip host env w tipper id token amount = .ok w') :
    ∃ post treasury, w.store.posts.post.get id = some post ∧
      w.store.params.treasury = some treasury ∧ ∀ a,
      L.bal w'.tokens a = L.bal w.tokens a - (if a = tipper then amount else 0) +
        (if a = treasury then tipShareOfTreasury amount (getFeeBps w.store) else 0) +
        (if a = post.author then amount - tipShareOfTreasury amount (getFeeBps w.store)
          else 0) := by
  obtain ⟨hpos, hle⟩ := tip_amount h
  obtain ⟨treasury, htreasury, -⟩ := hrange.treasury
  obtain ⟨hfee, hnonneg, -⟩ := tipFee_eq hpos hle (getFeeBps_le hrange)
  simp only [tip, Checked.bind_eq_ok, Checked.pure_eq_ok, expect_eq_ok, tokenCall_eq_ok,
    hfee, Except.ok.injEq, exists_eq_left'] at h
  obtain ⟨_, -, _, -, _, -, _, -, _, -, _, -, post, hpost, _, -, _, -, _, -, _, -, _, -, _, -, _, -,
    tips, -, authorAmount, hauthor, tipTotal, -, paid, hpaid, tokens, ht, rfl⟩ := h
  obtain ⟨-, rfl⟩ := i128_eq_ok.mp hauthor
  refine ⟨post, treasury, hpost, htreasury, fun a => ?_⟩
  have hfirst := payTipFee_moves L hnonneg htreasury hpaid a
  have hsecond := L.transfer_moves ht a
  show L.bal tokens a = _
  rw [hsecond, hfirst]
  by_cases ha : a = tipper
  · rw [if_pos ha, if_pos ha, if_pos ha]
    omega
  · rw [if_neg ha, if_neg ha, if_neg ha]
    omega

end Split

/-! ## New posts -/

theorem cleanupLikesOnBlock_postCt (q : Posts × Likes) (a b : Address) :
    (cleanupLikesOnBlock q a b).1.postCt = q.1.postCt := by
  have hone : ∀ (q : Posts × Likes) (id : Nat) (liker author : Address),
      (unlikeOnBlock q id liker author).1.postCt = q.1.postCt := by
    intro q id liker author
    rw [unlikeOnBlock]
    split
    · split
      · split
        · rfl
        · rfl
      · rfl
    · rfl
  have hall : ∀ (ids : List Nat) (q : Posts × Likes),
      (ids.foldl (fun s id => unlikeOnBlock (unlikeOnBlock s id a b) id b a) q).1.postCt =
        q.1.postCt := by
    intro ids
    induction ids with
    | nil => exact fun q => rfl
    | cons id ids ih => exact fun q => (ih _).trans ((hone _ _ _ _).trans (hone _ _ _ _))
  exact hall _ q

section NewPosts

variable {σ : Type} {host : Host σ} {env : Env} {w w' : World σ} {c : Call}

/-- Only the calls that write a post give out an id or make a commitment. -/
theorem exec_numbering (he : exec host env w c = .ok w')
    (hcreate : ∀ author content, c ≠ .createPost author content)
    (hbatch : ∀ author contents, c ≠ .batchCreatePost author contents)
    (hcommit : ∀ author contentHash revealTime, c ≠ .commitPost author contentHash revealTime) :
    w'.store.posts.postCt = w.store.posts.postCt ∧
      w'.store.posts.committedPost = w.store.posts.committedPost := by
  cases c with
  | createPost author content => exact absurd rfl (hcreate _ _)
  | batchCreatePost author contents => exact absurd rfl (hbatch _ _)
  | commitPost author contentHash revealTime => exact absurd rfl (hcommit _ _ _)
  | setPostContentHash author id contentHash =>
    rw [setPostContentHash_ok (World.onStore_eq_ok.mp he).1]
    exact ⟨rfl, rfl⟩
  | revealPost => exact absurd (World.onStore_eq_ok.mp he).1 revealPost_ne_ok
  | deletePost author id =>
    obtain ⟨post, -, -, hs⟩ := deletePost_ok (World.onStore_eq_ok.mp he).1
    rw [hs]
    exact ⟨rfl, rfl⟩
  | batchCleanupPost id maxEntries =>
    obtain ⟨-, likes, reports, tips, deletedPost, -, -, -, -, hs⟩ :=
      batchCleanupPost_ok (World.onStore_eq_ok.mp he).1
    rw [hs]
    exact ⟨rfl, rfl⟩
  | likePost user id =>
    rcases likePost_ok (World.onStore_eq_ok.mp he).1 with ⟨-, hs⟩ | ⟨post, -, -, -, -, hs⟩
    · rw [hs]
      exact ⟨rfl, rfl⟩
    · rw [hs]
      exact ⟨rfl, rfl⟩
  | tip tipper id token amount =>
    obtain ⟨-, -, post, tips, feeAmount, tipTotal, paid, tokens, -, -, -, -, -, rfl⟩ := tip_ok he
    exact ⟨rfl, rfl⟩
  | blockUser a b =>
    obtain ⟨-, graph, -, hs⟩ := blockUser_ok (World.onStore_eq_ok.mp he).1
    rw [hs]
    exact ⟨cleanupLikesOnBlock_postCt (w.store.posts, w.store.likes) a b,
      (cleanupLikesOnBlock_sameNotes (w.store.posts, w.store.likes) a b).2.1⟩
  | batchCleanupProfile user maxEntries =>
    have hs := (World.onStore_eq_ok.mp he).1
    obtain ⟨_, _, left, graph, r, -, hr, hposts, -⟩ := batchCleanupProfile_posts hs
    refine ⟨?_, (batchCleanupProfile_leaves hs).1⟩
    rw [hposts]
    exact (drain_cleanupAuthorPost_off hr).1
  | reviewReport moderator signers id reporter verdict =>
    obtain ⟨-, pool, report, v, -, -, -, -, hv, rfl⟩ := reviewReport_ok he
    obtain ⟨posts, appeals, events, hs, hcase⟩ := resolveReport_store hv
    show v.store.posts.postCt = _ ∧ v.store.posts.committedPost = _
    rw [hs]
    rcases hcase with ⟨-, rfl, -⟩ | ⟨post, -, -, rfl, -⟩
    · exact ⟨rfl, rfl⟩
    · exact ⟨rfl, rfl⟩
  | appealModeration appellant id reasonHash =>
    obtain ⟨appeal, events, hs⟩ := appealModeration_ok (World.onStore_eq_ok.mp he).1
    rw [hs]
    exact ⟨rfl, rfl⟩
  | reviewAppeal reviewer id approve =>
    obtain ⟨appeal, events, hs | hs⟩ := reviewAppeal_ok (World.onStore_eq_ok.mp he).1
    · rw [hs]
      exact ⟨rfl, rfl⟩
    · rw [hs]
      show (restoreModeratedPost w.store id).posts.postCt = _ ∧
        (restoreModeratedPost w.store id).posts.committedPost = _
      unfold restoreModeratedPost
      cases w.store.appeals.removedPost.get id with
      | none => exact ⟨rfl, rfl⟩
      | some post => exact ⟨rfl, rfl⟩
  | _ =>
    have hposts : w'.store.posts = w.store.posts :=
      exec_frame (p := .posts) he (by simp [Call.parts])
    rw [hposts]
    exact ⟨rfl, rfl⟩

/-- A new post has no tips. -/
theorem insertPost_untipped {s : State} {author : Address} {content : Bytes} {r : Nat × State}
    (h : insertPost env s author content = .ok r) {id : Nat}
    (hs : ∀ post, s.postView.Holds id post → post.tipTotal = 0) :
    ∀ post, r.2.postView.Holds id post → post.tipTotal = 0 := by
  obtain ⟨new, -, -, -, htips, -, -, hr⟩ := insertPost_ok h
  intro post hp
  rw [hr] at hp
  rcases hp with hp | hp
  · have hp : (s.posts.post.set new.id new).get id = some post := hp
    rw [Store.get_set] at hp
    split at hp
    · exact Option.some.inj hp ▸ htips
    · exact hs post (Or.inl hp)
  · exact hs post (Or.inr hp)

/-- Whatever a call puts under an id that had not been given out has no tips. -/
theorem exec_untipped (hix : PostsIndexed w.store.postView) (he : exec host env w c = .ok w')
    {id : Nat} (hlt : w.store.posts.lastId < id) :
    ∀ post, w'.store.postView.Holds id post → post.tipTotal = 0 := by
  have hnone : ∀ post, w.store.postView.Holds id post → post.tipTotal = 0 := by
    intro post hp
    have hle : id ≤ w.store.posts.lastId := (hix.known id post hp).2.1
    omega
  cases c with
  | createPost author content =>
    obtain ⟨r, hr, hrs⟩ := Checked.map_eq_ok.mp (World.onStore_eq_ok.mp he).1
    rw [← hrs]
    exact insertPost_untipped (createPost_ok hr).2.2 hnone
  | batchCreatePost author contents =>
    obtain ⟨r, hr, hrs⟩ := Checked.map_eq_ok.mp (World.onStore_eq_ok.mp he).1
    rw [← hrs]
    refine (batchCreatePost_ok hr).2.2
      (fun b => ∀ post, b.2.postView.Holds id post → post.tipTotal = 0) ?_ hnone
    exact fun b content q hb hq => insertPost_untipped hq hb
  | commitPost author contentHash revealTime =>
    obtain ⟨r, hr, hrs⟩ := Checked.map_eq_ok.mp (World.onStore_eq_ok.mp he).1
    obtain ⟨-, -, q, hq, rfl⟩ := commitPost_ok hr
    rw [← hrs]
    exact insertPost_untipped hq hnone
  | _ =>
    intro post hp
    have hle : id ≤ w'.store.posts.lastId := ((hix.call he).known id post hp).2.1
    rw [Posts.lastId, (exec_numbering he (by simp) (by simp) (by simp)).1] at hle
    exact absurd hlt (Nat.not_lt.mpr hle)

end NewPosts

/-! ## Totals -/

section Totals

variable {σ : Type} {host : Host σ} {env : Env} {w w' : World σ} {c : Call}

/-- What a call, if it succeeds, adds to the tips of a post. -/
def tipAdded (s : State) (id : Nat) : Call → Int
  | .tip _ postId _ amount =>
    if postId = id then amount - tipShareOfTreasury amount (getFeeBps s) else 0
  | _ => 0

def tipsAdded (id : Nat) (w : World σ) : Action σ → Int
  | .call _ c => tipAdded w.store id c
  | .others _ => 0

/-- The post under `id`, if there is one, has had tips of `total`. -/
structure Tipped (s : State) (id : Nat) (total : Int) : Prop where
  indexed : PostsIndexed s.postView
  params : ParametersInRange s
  held : ∀ post, s.postView.Holds id post → post.tipTotal = total
  unused : s.posts.lastId < id → total = 0

theorem Tipped.of_started (h : Started w) (id : Nat) : Tipped w.store id 0 := by
  obtain ⟨env, admin, treasury, feeBps, hs⟩ := h
  have hreach : Reachable (bookHost linkora) (⟨w.store, fun _ _ => 0⟩ : World Book) :=
    ⟨_, [], ⟨env, admin, treasury, feeBps, hs⟩, .nil⟩
  have hindexed := PostsIndexed.of_reachable hreach
  have hparams := ParametersInRange.of_reachable hreach
  obtain ⟨-, -, access, events, hstore⟩ := initializeContract_ok hs
  refine ⟨hindexed, hparams, ?_, fun _ => rfl⟩
  rw [hstore]
  intro post hp
  exact hp.elim nofun nofun

/-- A tip adds the author's part to the total of its post, and to no other. -/
theorem Tipped.tip {id postId : Nat} {total : Int} {tipper token : Address} {amount : Int}
    (h : Tipped w.store id total)
    (he : Contract.tip host env w tipper postId token amount = .ok w') :
    ∀ post, w'.store.postView.Holds id post →
      post.tipTotal = total + tipAdded w.store id (.tip tipper postId token amount) := by
  obtain ⟨hpos, hle⟩ := tip_amount he
  obtain ⟨-, -, old, tips, feeAmount, tipTotal, paid, tokens, hold, hfee, htotal, -, -, rfl⟩ :=
    tip_ok he
  have hshare : feeAmount = tipShareOfTreasury amount (getFeeBps w.store) := by
    rw [(tipFee_eq hpos hle (getFeeBps_le h.params)).1] at hfee
    exact (Except.ok.inj hfee).symm
  intro post hp
  by_cases hid : postId = id
  · subst hid
    have hnone : w.store.appeals.removedPost.get postId = none :=
      h.indexed.removed_of_stored hold
    rcases hp with hp | hp
    · have hp : (w.store.posts.post.set postId { old with tipTotal }).get postId = some post := hp
      rw [Store.get_set_self, Option.some.injEq] at hp
      rw [← hp, tipAdded, if_pos rfl, ← hshare, htotal, h.held old (Or.inl hold)]
    · have hp : w.store.appeals.removedPost.get postId = some post := hp
      rw [hnone] at hp
      cases hp
  · rw [tipAdded, if_neg hid, Int.add_zero]
    refine h.held post (hp.imp_left fun hp => ?_)
    exact (Store.get_set_of_ne (Ne.symm hid) _).symm.trans hp

theorem Tipped.call {id : Nat} {total : Int} (h : Tipped w.store id total)
    (he : exec host env w c = .ok w') : Tipped w'.store id (total + tipAdded w.store id c) := by
  have hlater := PostView.Later.of_exec he
  have hheld : ∀ post, w'.store.postView.Holds id post →
      post.tipTotal = total + tipAdded w.store id c := by
    cases hc : c.tips with
    | true =>
      cases c with
      | tip tipper postId token amount => exact h.tip he
      | _ => cases hc
    | false =>
      have hzero : tipAdded w.store id c = 0 := by
        cases c with
        | tip => cases hc
        | _ => rfl
      rw [hzero, Int.add_zero]
      intro post hp
      by_cases hle : id ≤ w.store.posts.lastId
      · obtain ⟨old, hold, -, -, htips⟩ := hlater.holds id post hle hp
        rw [htips hc, h.held old hold]
      · rw [exec_untipped h.indexed he (by omega) post hp, h.unused (by omega)]
  refine ⟨h.indexed.call he, h.params.exec he, hheld, fun hlt => ?_⟩
  have hmono : w.store.posts.lastId ≤ w'.store.posts.lastId := hlater.lastId
  rw [h.unused (by omega), Int.zero_add]
  cases c with
  | tip tipper postId token amount =>
    obtain ⟨-, -, old, _, _, _, _, _, hold, -⟩ := tip_ok he
    have hle : postId ≤ w.store.posts.lastId := (h.indexed.known postId old (Or.inl hold)).2.1
    rw [tipAdded, if_neg (by omega)]
  | _ => rfl

theorem Tipped.of_tally {id : Nat} {w₀ : World σ} {acts : List (Action σ)} {total : Int}
    (hs : Started w₀) (h : Tally (Step host) (tipsAdded id) w₀ acts w total) :
    Tipped w.store id total := by
  refine h.invariant (I := fun w total => Tipped w.store id total) ?_ (Tipped.of_started hs id)
  intro w act w' n hw hstep
  cases hstep with
  | call he => exact hw.call he
  | others =>
    rw [tipsAdded, Int.add_zero]
    exact hw

/-- In every reachable state the fee of every amount that the validator admits is the one
floor division, computed without overflow, and leaves the author a part of the tip; a
successful tip moves the amount from the tipper to the treasury and the author; and the
total of a stored post is the sum of the authors' parts of all tips that the post has had
since the contract was started. -/
theorem tips_conserved (host : Host σ) :
    (∀ w : World σ, Reachable host w → ∀ amount, 0 < amount → amount ≤ MAX_PROTOCOL_AMOUNT →
      tipFee amount (getFeeBps w.store) = .ok (tipShareOfTreasury amount (getFeeBps w.store)) ∧
      0 ≤ tipShareOfTreasury amount (getFeeBps w.store) ∧
      tipShareOfTreasury amount (getFeeBps w.store) ≤ amount ∧
      i128 (amount - tipShareOfTreasury amount (getFeeBps w.store)) =
        .ok (amount - tipShareOfTreasury amount (getFeeBps w.store))) ∧
    (∀ (w w' : World σ) (env : Env) (tipper : Address) (id : Nat) (token : Address) (amount : Int),
      Reachable host w → exec host env w (.tip tipper id token amount) = .ok w' →
      ∃ post treasury, w.store.posts.post.get id = some post ∧
        w.store.params.treasury = some treasury ∧ ∀ (L : ExactLedger host token) (a : Address),
          L.bal w'.tokens a = L.bal w.tokens a - (if a = tipper then amount else 0) +
            (if a = treasury then tipShareOfTreasury amount (getFeeBps w.store) else 0) +
            (if a = post.author then amount - tipShareOfTreasury amount (getFeeBps w.store)
              else 0)) ∧
    ∀ (w₀ w : World σ) (acts : List (Action σ)) (id : Nat) (total : Int) (post : Post),
      Started w₀ → Tally (Step host) (tipsAdded id) w₀ acts w total →
      w.store.posts.post.get id = some post → post.tipTotal = total := by
  refine ⟨fun w hw amount hpos hle => ?_, fun w w' env tipper id token amount hw he => ?_,
    fun w₀ w acts id total post hs hrun hpost => ?_⟩
  · have hbps := getFeeBps_le (ParametersInRange.of_reachable hw)
    have hmin : I128_MIN ≤ 0 := by decide
    have hmax : MAX_PROTOCOL_AMOUNT ≤ I128_MAX := by decide
    obtain ⟨hfee, hnonneg, hshare⟩ := tipFee_eq hpos hle hbps
    exact ⟨hfee, hnonneg, hshare, if_pos ⟨by omega, by omega⟩⟩
  · obtain ⟨treasury, htreasury, -⟩ := (ParametersInRange.of_reachable hw).treasury
    obtain ⟨-, -, post, _, _, _, _, _, hpost, -⟩ := tip_ok he
    refine ⟨post, treasury, hpost, htreasury, fun L a => ?_⟩
    obtain ⟨post', treasury', hpost', htreasury', hmoves⟩ :=
      tip_moves L (ParametersInRange.of_reachable hw) he
    obtain rfl := Option.some.inj (hpost.symm.trans hpost')
    obtain rfl := Option.some.inj (htreasury.symm.trans htreasury')
    exact hmoves a
  · exact (Tipped.of_tally hs hrun).held post (Or.inl hpost)

end Totals

/-- A post that is tipped, taken away, brought back by an appeal and tipped again. -/
theorem tips_conserved_of_appeal :
    ∃ (w₀ w : World Book) (acts : List (Action Book)) (total : Int) (post : Post), Started w₀ ∧
      Tally (Step (bookHost linkora)) (tipsAdded 1) w₀ acts w total ∧
      w.store.posts.post.get 1 = some post ∧ post.tipTotal = total ∧ total = 78 := by
  have hdemo : (demo (fun _ _ _ => True) (fun _ _ => 100)
      (takedown.take 3 ++ [(signedAt 4, .tip bob 1 coin 40)] ++ takedown.drop 3 ++
        [(signedAt 7, .appealModeration carol 1 0), (signedAt 8, .reviewAppeal alice 1 true),
          (signedAt 9, .tip alice 1 coin 40)])).map
      (fun w => (w.store.posts.post.get 1).map (·.tipTotal)) = some (some 78) := by rfl
  obtain ⟨w₀, w, hs, hsee, hrun⟩ := run_demo hdemo
  obtain ⟨post, hpost, htotal⟩ := Option.map_eq_some_iff.mp hsee
  obtain ⟨total, htally⟩ := Tally.of_run (f := tipsAdded 1) hrun.of_guarded
  have heq := (tips_conserved (bookHost linkora)).2.2 _ _ _ 1 total post hs htally hpost
  exact ⟨w₀, w, _, total, post, hs, htally, hpost, heq, heq.symm.trans htotal⟩

end Contract
end Linkora
