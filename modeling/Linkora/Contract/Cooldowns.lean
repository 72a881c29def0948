import Linkora.Contract.TipTotals

/-!
# Tip cooldowns and their lifetime

The ledger of the last tip is remembered in a temporary entry, which vanishes once its
lifetime has run out.  The window that a new tip is checked against can be longer than
that.  As long as it is not, two tips of one post by one tipper in one token are as far
apart as the window that is in force at the second one asks for.
-/

namespace Linkora
namespace Contract

section Tip

variable {σ : Type} {host : Host σ} {env : Env} {w w' : World σ} {tipper token : Address}
  {id : Nat} {amount : Int}

/-- The check of the cooldown, and the entry that a tip leaves behind. -/
theorem tip_cooldown (h : tip host env w tipper id token amount = .ok w') :
    (∀ e ∈ liveCooldown env w.store.tips (id, tipper, token),
      getTipCooldownWindow w.store ≤ env.sequence - e.value) ∧
    w'.store.tips.tipCooldown = w.store.tips.tipCooldown.set (id, tipper, token)
      (touchCooldown env w.store.tips (id, tipper, token)) ∧
    w'.store.params = w.store.params := by
  simp only [tip, Checked.bind_eq_ok, Checked.pure_eq_ok] at h
  obtain ⟨_, -, _, -, _, -, _, -, _, -, _, -, post, -, _, -, _, -, _, -, _, -, _, -, _, -, _,
    hcheck, tips, htips, feeAmount, -, authorAmount, -, tipTotal, -, paid, -, tokens, -, rfl⟩ := h
  refine ⟨requireWithError_eq_ok.mp hcheck, ?_, rfl⟩
  show tips.tipCooldown = _
  simp only [trackCooldown] at htips
  split at htips
  · rw [Checked.pure_eq_ok] at htips
    rw [← htips]
  · simp only [Checked.bind_eq_ok, Checked.pure_eq_ok] at htips
    obtain ⟨next, -, rfl⟩ := htips
    rfl

/-- An entry says when it was written, and it lives on for more than `LEDGER_THRESHOLD`
ledgers. -/
theorem touchCooldown_lasts (env : Env) (t : Tips) (key : Nat × Address × Address) :
    (touchCooldown env t key).value = env.sequence ∧
      env.sequence + LEDGER_THRESHOLD < (touchCooldown env t key).liveUntil := by
  have hbump : LEDGER_THRESHOLD < LEDGER_BUMP := by decide
  rw [touchCooldown]
  cases liveCooldown env t key with
  | none => exact ⟨rfl, Nat.add_lt_add_left hbump _⟩
  | some e =>
    refine ⟨rfl, ?_⟩
    show env.sequence + LEDGER_THRESHOLD <
      if e.liveUntil - env.sequence ≤ LEDGER_THRESHOLD then env.sequence + LEDGER_BUMP
      else e.liveUntil
    split
    · exact Nat.add_lt_add_left hbump _
    · omega

end Tip

/-! ## Windows and lifetimes -/

/-- The key of the cooldown entry of a tip. -/
def Call.tipKey : Call → Option (Nat × Address × Address)
  | .tip tipper id token _ => some (id, tipper, token)
  | _ => none

/-- The window in force is no longer than the life of the entry that the last tip wrote. -/
def WindowWithinLifetime : Condition := fun s _ c =>
  ∀ key ∈ c.tipKey, ∀ e ∈ s.tips.tipCooldown.get key,
    getTipCooldownWindow s ≤ e.liveUntil - e.value + 1

instance (s : State) (env : Env) (c : Call) : Decidable (WindowWithinLifetime s env c) :=
  inferInstanceAs (Decidable (∀ key ∈ c.tipKey, ∀ e ∈ s.tips.tipCooldown.get key,
    getTipCooldownWindow s ≤ e.liveUntil - e.value + 1))

/-- Whatever the ledger is, the check lets nobody through too early exactly if the window
is no longer than the life of the entry. -/
theorem liveCooldown_suffices_iff {s : State} {key : Nat × Address × Address} {e : TempEntry}
    (hget : s.tips.tipCooldown.get key = some e) (hlife : e.value ≤ e.liveUntil) :
    (∀ env : Env, e.value < env.sequence →
      (∀ e' ∈ liveCooldown env s.tips key, getTipCooldownWindow s ≤ env.sequence - e'.value) →
      getTipCooldownWindow s ≤ env.sequence - e.value) ↔
    getTipCooldownWindow s ≤ e.liveUntil - e.value + 1 := by
  constructor
  · intro h
    have hgone : liveCooldown (signedAt (e.liveUntil + 1)) s.tips key = none := by
      rw [liveCooldown, hget]
      exact if_neg (Nat.not_succ_le_self _)
    have hearly := h (signedAt (e.liveUntil + 1)) (Nat.lt_succ_of_le hlife)
      (fun e' he' => by rw [hgone] at he'; cases he')
    have hseq : (signedAt (e.liveUntil + 1)).sequence = e.liveUntil + 1 := rfl
    omega
  · intro h env hlt hcheck
    by_cases hlive : env.sequence ≤ e.liveUntil
    · refine hcheck e ?_
      rw [liveCooldown, hget]
      exact if_pos hlive
    · omega

/-! ## What becomes of an entry -/

/-- The loop over an account's posts takes the cooldowns of the posts that it retires, and
no others. -/
theorem drain_cleanupAuthorPost_cooldowns {ids : List Nat} {left : Nat} {s : State}
    {r : Nat × Nat × List Nat × State}
    (h : Checked.drain cleanupAuthorPost ids.length left (ids, s) = .ok r) (key) :
    r.2.2.2.tips.tipCooldown.get key = s.tips.tipCooldown.get key ∨
      (r.2.2.2.posts.post.get key.1 = none ∧ key.1 ∈ ids) := by
  have hall : (∀ x ∈ r.2.2.1, x ∈ ids) ∧
      (r.2.2.2.tips.tipCooldown.get key = s.tips.tipCooldown.get key ∨
        (r.2.2.2.posts.post.get key.1 = none ∧ key.1 ∈ ids)) := by
    refine Checked.drain_invariant (P := fun _ (b : List Nat × State) => (∀ x ∈ b.1, x ∈ ids) ∧
      (b.2.tips.tipCooldown.get key = s.tips.tipCooldown.get key ∨
        (b.2.posts.post.get key.1 = none ∧ key.1 ∈ ids))) ?_ ⟨fun _ hx => hx, Or.inl rfl⟩ h
    intro count b b' hb hb'
    obtain ⟨hids, hentry⟩ := hb
    obtain ⟨postId, hid, hids', hs'⟩ := cleanupAuthorPost_ok hb'
    refine ⟨fun x hx => hids x ?_, ?_⟩
    · rw [hids'] at hx
      exact List.mem_of_mem_eraseIdx hx
    · rw [hs']
      show (sweepCooldowns b.2.tips postId).tipCooldown.get key = _ ∨
        ((b.2.posts.post.remove postId).get key.1 = none ∧ _)
      rw [Store.get_remove]
      by_cases hkey : key.1 = postId
      · rw [if_pos hkey, hkey]
        exact Or.inr ⟨rfl, hids postId (List.mem_of_getElem? hid)⟩
      · rw [if_neg hkey]
        have hcleared : b.2.tips.Cleared (sweepCooldowns b.2.tips postId) fun i => i = postId :=
          sweepCooldowns_cleared b.2.tips rfl
        rcases hcleared key with hsame | ⟨hgone, -⟩
        · rw [hsame]
          exact hentry
        · exact absurd hgone hkey
  exact hall.2

section Runs

variable {σ : Type} {host : Host σ} {env : Env} {w w' : World σ} {c : Call}

/-- Other calls leave the entry alone, unless the post is gone for good. -/
theorem exec_cooldown (hix : PostsIndexed w.store.postView) (he : exec host env w c = .ok w')
    {key : Nat × Address × Address} (hc : c.tipKey ≠ some key) :
    w'.store.tips.tipCooldown.get key = w.store.tips.tipCooldown.get key ∨
      ∀ post, ¬w'.store.postView.Holds key.1 post := by
  cases c with
  | tip tipper id token amount =>
    have hne : key ≠ (id, tipper, token) := fun heq => hc (congrArg some heq.symm)
    rw [(tip_cooldown he).2.1, Store.get_set_of_ne hne]
    exact Or.inl rfl
  | batchCleanupPost id maxEntries =>
    obtain ⟨hdead, likes, reports, tips, deletedPost, -, -, htips, -, hs⟩ :=
      batchCleanupPost_ok (World.onStore_eq_ok.mp he).1
    have hcleared := drainCooldown_cleared htips key
    have hstore : w'.store.tips.tipCooldown = tips.2.2.tipCooldown := by rw [hs]
    rw [hstore]
    refine hcleared.imp_right fun hcleared post hp => ?_
    rw [hs, hcleared.1] at hp
    obtain ⟨-, hpost, hremoved⟩ := hix.deleted id hdead
    rcases hp with hp | hp
    · exact absurd (hpost.symm.trans hp) (by simp)
    · exact absurd (hremoved.symm.trans hp) (by simp)
  | batchCleanupProfile user maxEntries =>
    obtain ⟨_, _, left, graph, r, -, hr, hposts, -, htips, -, happeals⟩ :=
      batchCleanupProfile_posts (World.onStore_eq_ok.mp he).1
    have hframe : w'.store.appeals = w.store.appeals :=
      exec_frame (p := .appeals) he (by simp [Call.parts])
    rw [htips]
    refine (drain_cleanupAuthorPost_cooldowns hr key).imp_right fun hdrained post hp => ?_
    obtain ⟨hgone, hmem⟩ := hdrained
    obtain ⟨old, hold, -⟩ := (hix.listed user key.1).mp hmem
    rcases hp with hp | hp
    · have hp : w'.store.posts.post.get key.1 = some post := hp
      rw [hposts] at hp
      exact absurd (hgone.symm.trans hp) (by simp)
    · have hp : w'.store.appeals.removedPost.get key.1 = some post := hp
      rw [hframe] at hp
      exact absurd ((hix.removed key.1 post hp).symm.trans hold) (by simp)
  | _ =>
    have htips : w'.store.tips = w.store.tips := exec_frame (p := .tips) he (by simp [Call.parts])
    rw [htips]
    exact Or.inl rfl

/-- In every reachable state the entries of the cooldowns live on for more than
`LEDGER_THRESHOLD` ledgers after they have been written. -/
theorem cooldowns_last (h : Reachable host w) {key : Nat × Address × Address} {e : TempEntry}
    (hget : w.store.tips.tipCooldown.get key = some e) :
    e.value + LEDGER_THRESHOLD < e.liveUntil := by
  revert key e
  refine h.store_invariant (I := fun s => ∀ {key : Nat × Address × Address} {e : TempEntry},
    s.tips.tipCooldown.get key = some e → e.value + LEDGER_THRESHOLD < e.liveUntil) ?_ ?_
  · intro s env admin treasury feeBps hs key e hget
    obtain ⟨-, -, access, events, rfl⟩ := initializeContract_ok hs
    cases hget
  · intro w env c w' hw he key e hget
    cases c with
    | tip tipper id token amount =>
      rw [(tip_cooldown he).2.1, Store.get_set] at hget
      split at hget
      · obtain ⟨hvalue, hlast⟩ := touchCooldown_lasts env w.store.tips (id, tipper, token)
        rw [← Option.some.inj hget, hvalue]
        exact hlast
      · exact hw hget
    | batchCleanupPost id maxEntries =>
      obtain ⟨-, likes, reports, tips, deletedPost, -, -, htips, -, hs⟩ :=
        batchCleanupPost_ok (World.onStore_eq_ok.mp he).1
      have hstore : w'.store.tips.tipCooldown = tips.2.2.tipCooldown := by rw [hs]
      rw [hstore] at hget
      rcases drainCooldown_cleared htips key with hsame | ⟨-, hgone⟩
      · exact hw (hsame.symm.trans hget)
      · exact absurd (hgone.symm.trans hget) nofun
    | batchCleanupProfile user maxEntries =>
      obtain ⟨-, -, hcleared, -⟩ := batchCleanupProfile_leaves (World.onStore_eq_ok.mp he).1
      rcases hcleared key with hsame | ⟨-, hgone⟩
      · exact hw (hsame.symm.trans hget)
      · exact absurd (hgone.symm.trans hget) nofun
    | _ =>
      have htips : w'.store.tips = w.store.tips := exec_frame (p := .tips) he (by simp [Call.parts])
      rw [htips] at hget
      exact hw hget

/-- A tip has left the entry `e`, and it is still there unless the post is gone. -/
structure Remembered (w : World σ) (key : Nat × Address × Address) (e : TempEntry) : Prop where
  indexed : PostsIndexed w.store.postView
  known : key.1 ≤ w.store.posts.lastId
  entry : w.store.tips.tipCooldown.get key = some e ∨ ∀ post, ¬w.store.postView.Holds key.1 post

theorem Remembered.of_tip {tipper token : Address} {id : Nat} {amount : Int}
    (hix : PostsIndexed w.store.postView)
    (he : exec host env w (.tip tipper id token amount) = .ok w') :
    Remembered w' (id, tipper, token) (touchCooldown env w.store.tips (id, tipper, token)) := by
  obtain ⟨-, -, post, _, _, _, _, _, hpost, -⟩ := tip_ok he
  have hle : id ≤ w.store.posts.lastId := (hix.known id post (Or.inl hpost)).2.1
  refine ⟨hix.call he, hle.trans (PostView.Later.of_exec he).lastId, Or.inl ?_⟩
  rw [(tip_cooldown he).2.1]
  exact Store.get_set_self _ _ _

theorem Remembered.call {key : Nat × Address × Address} {e : TempEntry} (h : Remembered w key e)
    (he : exec host env w c = .ok w') (hc : c.tipKey ≠ some key) : Remembered w' key e := by
  have hlater := PostView.Later.of_exec he
  refine ⟨h.indexed.call he, h.known.trans hlater.lastId, ?_⟩
  rcases h.entry with hentry | hgone
  · rw [← hentry]
    exact exec_cooldown h.indexed he hc
  · refine Or.inr fun post hp => ?_
    obtain ⟨old, hold, -⟩ := hlater.holds key.1 post h.known hp
    exact hgone old hold

/-- The key of an action that is a tip. -/
def Action.tipKey : Action σ → Option (Nat × Address × Address)
  | .call _ c => c.tipKey
  | .others _ => none

theorem Remembered.run {key : Nat × Address × Address} {e : TempEntry} {acts : List (Action σ)}
    (h : Remembered w key e) (hrun : Run (Step host) w acts w')
    (hacts : ∀ act ∈ acts, act.tipKey ≠ some key) : Remembered w' key e := by
  induction hrun with
  | nil => exact h
  | @snoc acts w₁ w₂ act _ hstep ih =>
    have hbefore := ih fun act hact => hacts act (List.mem_append_left _ hact)
    cases hstep with
    | call he => exact hbefore.call he (hacts _ (List.mem_append_right _ List.mem_cons_self))
    | others => exact ⟨hbefore.indexed, hbefore.known, hbefore.entry⟩

/-- A tip that finds the post and the entry of the tip before comes late enough. -/
theorem Remembered.spaced {tipper token : Address} {id : Nat} {amount : Int} {e : TempEntry}
    (h : Remembered w (id, tipper, token) e) (hlt : e.value < env.sequence)
    (hlife : e.value ≤ e.liveUntil)
    (hwindow : WindowWithinLifetime w.store env (.tip tipper id token amount))
    (he : exec host env w (.tip tipper id token amount) = .ok w') :
    getTipCooldownWindow w'.store ≤ env.sequence - e.value := by
  obtain ⟨hcheck, -, hparams⟩ := tip_cooldown he
  obtain ⟨-, -, post, _, _, _, _, _, hpost, -⟩ := tip_ok he
  have hget : w.store.tips.tipCooldown.get (id, tipper, token) = some e :=
    h.entry.resolve_right fun hgone => hgone post (Or.inl hpost)
  rw [getTipCooldownWindow, hparams]
  exact (liveCooldown_suffices_iff hget hlife).mpr (hwindow _ rfl e hget) env hlt hcheck

/-- Whether the check is enough at every ledger depends on the window and on the life of
the entry that is left; in every reachable state an entry lives on for more than
`LEDGER_THRESHOLD` ledgers; and in every run whose tips find windows that are no longer
than that life, two tips in a row of one post by one tipper in one token are apart by the
window in force at the second one. -/
theorem tips_spaced (host : Host σ) :
    (∀ (s : State) (key : Nat × Address × Address) (e : TempEntry),
      s.tips.tipCooldown.get key = some e → e.value ≤ e.liveUntil →
      ((∀ env : Env, e.value < env.sequence →
          (∀ e' ∈ liveCooldown env s.tips key,
            getTipCooldownWindow s ≤ env.sequence - e'.value) →
          getTipCooldownWindow s ≤ env.sequence - e.value) ↔
        getTipCooldownWindow s ≤ e.liveUntil - e.value + 1)) ∧
    (∀ (w : World σ) (key : Nat × Address × Address) (e : TempEntry), Reachable host w →
      w.store.tips.tipCooldown.get key = some e → e.value + LEDGER_THRESHOLD < e.liveUntil) ∧
    ∀ (w₀ w : World σ) (before between : List (Action σ)) (env₁ env₂ : Env) (tipper : Address)
      (id : Nat) (token : Address) (amount₁ amount₂ : Int), Started w₀ →
      Run (Run.Guarded (Step host) WindowWithinLifetime.Met) w₀
        (before ++ Action.call env₁ (.tip tipper id token amount₁) ::
          (between ++ [Action.call env₂ (.tip tipper id token amount₂)])) w →
      (∀ act ∈ between, act.tipKey ≠ some (id, tipper, token)) → env₁.sequence < env₂.sequence →
      getTipCooldownWindow w.store ≤ env₂.sequence - env₁.sequence := by
  refine ⟨fun s key e => liveCooldown_suffices_iff, fun w key e hw => cooldowns_last hw, ?_⟩
  intro w₀ w before between env₁ env₂ tipper id token amount₁ amount₂ hs hrun hbetween hlt
  obtain ⟨w₁, w₂, hbefore, hfirst, hrest⟩ := hrun.around
  obtain ⟨w₃, hmiddle, hlast⟩ := hrest.split
  obtain ⟨hsecond, hwindow⟩ := hlast.of_singleton
  cases hfirst.1 with
  | call he₁ =>
    cases hsecond with
    | call he₂ =>
      have hix := PostsIndexed.of_reachable ⟨w₀, before, hs, hbefore.of_guarded⟩
      have hmem := (Remembered.of_tip hix he₁).run hmiddle.of_guarded hbetween
      obtain ⟨hvalue, hlife⟩ := touchCooldown_lasts env₁ w₁.store.tips (id, tipper, token)
      have hspaced := hmem.spaced (by rw [hvalue]; exact hlt) (by omega) hwindow he₂
      rw [hvalue] at hspaced
      exact hspaced

end Runs

/-- Two tips at the default window, as close together as they may be. -/
theorem tips_spaced_at_default_window :
    ∃ (w₀ w : World Book) (before between : List (Action Book)), Started w₀ ∧
      Run (Run.Guarded (Step (bookHost linkora)) WindowWithinLifetime.Met) w₀
        (before ++ Action.call (signedAt 4) (.tip bob 1 coin 40) ::
          (between ++ [Action.call (signedAt 17284) (.tip bob 1 coin 40)])) w ∧
      getTipCooldownWindow w.store = 17280 ∧ getTipCooldownWindow w.store ≤ 17284 - 4 := by
  have hdemo : (demo WindowWithinLifetime (fun _ _ => 100)
      [(signedAt 2, .createPost carol (asciiBytes "hello")), (signedAt 4, .tip bob 1 coin 40),
        (signedAt 5, .likePost bob 1), (signedAt 17284, .tip bob 1 coin 40)]).map
      (fun w => getTipCooldownWindow w.store) = some 17280 := by decide
  obtain ⟨w₀, w, hs, hsee, hrun⟩ := run_demo hdemo
  have hrun' : Run (Run.Guarded (Step (bookHost linkora)) WindowWithinLifetime.Met) w₀
      ([Action.call (signedAt 2) (.createPost carol (asciiBytes "hello"))] ++
        Action.call (signedAt 4) (.tip bob 1 coin 40) ::
          ([Action.call (signedAt 5) (.likePost bob 1)] ++
            [Action.call (signedAt 17284) (.tip bob 1 coin 40)])) w := hrun
  have hlike : ∀ act ∈ [(.call (signedAt 5) (.likePost bob 1) : Action Book)],
      act.tipKey ≠ some (1, bob, coin) := by
    intro act hact
    rw [List.mem_singleton.mp hact]
    exact nofun
  have hspaced := (tips_spaced (bookHost linkora)).2.2 w₀ w _ _ _ _ bob 1 coin 40 40 hs hrun' hlike
    (by decide)
  exact ⟨w₀, w, _, _, hs, hrun', hsee, hspaced⟩

/-- Under a window of 600000 ledgers the same tip is made again 535001 ledgers later. -/
theorem tip_repeated_within_window :
    ¬∀ (w₀ w : World Book) (before between : List (Action Book)) (env₁ env₂ : Env)
      (tipper : Address) (id : Nat) (token : Address) (amount₁ amount₂ : Int), Started w₀ →
      Run (Step (bookHost linkora)) w₀ (before ++ Action.call env₁ (.tip tipper id token amount₁) ::
        (between ++ [Action.call env₂ (.tip tipper id token amount₂)])) w →
      (∀ act ∈ between, act.tipKey ≠ some (id, tipper, token)) → env₁.sequence < env₂.sequence →
      getTipCooldownWindow w.store ≤ env₂.sequence - env₁.sequence := by
  intro hclaim
  have hdemo : (demo (fun _ _ _ => True) (fun _ _ => 100)
      [(signedAt 2, .setTipCooldownWindow alice 600000),
        (signedAt 3, .createPost carol (asciiBytes "hello")), (signedAt 4, .tip bob 1 coin 40),
        (signedAt 535005, .tip bob 1 coin 40)]).map
      (fun w => getTipCooldownWindow w.store) = some 600000 := by decide
  obtain ⟨w₀, w, hs, hsee, hrun⟩ := run_demo hdemo
  have hspaced := hclaim w₀ w
    [.call (signedAt 2) (.setTipCooldownWindow alice 600000),
      .call (signedAt 3) (.createPost carol (asciiBytes "hello"))] [] (signedAt 4)
    (signedAt 535005) bob 1 coin 40 40 hs hrun.of_guarded (fun _ hact => nomatch hact) (by decide)
  rw [hsee] at hspaced
  revert hspaced
  decide

end Contract
end Linkora
