import Linkora.Contract.Entry

/-!
# What the calls publish

The log of events only grows.  Follows, unfollows, and the events that create a post, delete it
or add to its counters come from nine of the calls; what the others publish says nothing about
the follow graph or the posts.
-/

namespace Linkora
namespace Contract

/-- The events that speak of follows, of posts and of their counters. -/
def Event.social : Event → Bool
  | .follow .. | .unfollow .. | .postCreated .. | .tip .. | .likePost .. | .postDeleted ..
  | .postRemovedByModeration .. => true
  | _ => false

/-- The calls that can publish such an event. -/
def Call.announces : Call → Bool
  | .follow .. | .unfollow .. | .createPost .. | .batchCreatePost .. | .commitPost ..
  | .deletePost .. | .likePost .. | .tip .. | .reviewReport .. => true
  | _ => false

/-- The call that can publish an attestation. -/
def Call.attests : Call → Bool
  | .verifyAnalyticsAttestation .. => true
  | _ => false

/-- The events that neither are social nor attest anything. -/
def Event.minor : Event → Bool
  | .attestationVerified .. => false
  | e => !e.social

/-- The log of `s'` is that of `s` and then events that are not social. -/
def State.Quiet (s s' : State) : Prop :=
  ∃ es, s'.events = s.events ++ es ∧ ∀ e ∈ es, e.social = false

theorem Event.quiet_of_minor {e : Event} (he : e.minor = true) : e.social = false := by
  cases e <;> first | rfl | cases he

/-- The log of `s'` is that of `s` and then minor events. -/
def State.Minor (s s' : State) : Prop :=
  ∃ es, s'.events = s.events ++ es ∧ ∀ e ∈ es, e.minor = true

namespace State.Minor

variable {s s' s'' : State}

/-- Nothing is published. -/
theorem same (h : s'.events = s.events) : s.Minor s' :=
  ⟨[], by rw [h, List.append_nil], fun _ he => absurd he List.not_mem_nil⟩

/-- One event is published. -/
theorem one {e : Event} (h : s'.events = s.events ++ [e]) (he : e.minor = true) :
    s.Minor s' := by
  refine ⟨[e], h, fun x hx => ?_⟩
  rw [List.mem_singleton.mp hx]
  exact he

theorem trans (h : s.Minor s') (h' : s'.Minor s'') : s.Minor s'' := by
  obtain ⟨es, hes, hminor⟩ := h
  obtain ⟨es', hes', hminor'⟩ := h'
  refine ⟨es ++ es', by rw [hes', hes, List.append_assoc], fun e he => ?_⟩
  rcases List.mem_append.mp he with he | he
  · exact hminor e he
  · exact hminor' e he

theorem quiet (h : s.Minor s') : s.Quiet s' := by
  obtain ⟨es, hes, hminor⟩ := h
  exact ⟨es, hes, fun e he => Event.quiet_of_minor (hminor e he)⟩

end State.Minor

variable {s s' : State} {env : Env}

/-! ## Roles, parameters and credentials -/

theorem initializeContract_minor {admin treasury : Address} {feeBps : Nat}
    (h : initializeContract env s admin treasury feeBps = .ok s') : s.Minor s' := by
  simp only [initializeContract, Checked.bind_eq_ok, Checked.pure_eq_ok] at h
  obtain ⟨-, -, -, -, -, -, -, -, -, -, rfl⟩ := h
  have hgranted : s.Minor (s.publish (.roleGranted .admin admin admin)) := .one rfl rfl
  exact hgranted.trans (.one rfl rfl)

theorem grantRole_minor {admin account : Address} {role : Role}
    (h : grantRole env s admin account role = .ok s') : s.Minor s' := by
  simp only [grantRole, Checked.bind_eq_ok, Checked.pure_eq_ok] at h
  obtain ⟨-, -, -, -, -, -, -, -, rfl⟩ := h
  exact .one rfl rfl

theorem revokeRole_minor {admin account : Address} {role : Role}
    (h : revokeRole env s admin account role = .ok s') : s.Minor s' := by
  simp only [revokeRole, Checked.bind_eq_ok, Checked.pure_eq_ok] at h
  obtain ⟨-, -, -, -, -, -, -, -, rfl⟩ := h
  exact .one rfl rfl

theorem pauseModule_minor {admin : Address} {m : PauseModule}
    (h : pauseModule env s admin m = .ok s') : s.Minor s' := by
  simp only [pauseModule, Checked.bind_eq_ok, Checked.pure_eq_ok] at h
  obtain ⟨-, -, -, -, -, -, -, -, rfl⟩ := h
  exact .one rfl rfl

theorem unpauseModule_minor {admin : Address} {m : PauseModule}
    (h : unpauseModule env s admin m = .ok s') : s.Minor s' := by
  simp only [unpauseModule, Checked.bind_eq_ok, Checked.pure_eq_ok] at h
  obtain ⟨-, -, -, -, -, -, -, -, rfl⟩ := h
  exact .one rfl rfl

theorem upgrade_minor {σ : Type} {host : Host σ} {upgrader : Address} {newWasmHash : Bytes32}
    (h : upgrade host env s upgrader newWasmHash = .ok s') : s.Minor s' := by
  simp only [upgrade, Checked.bind_eq_ok] at h
  obtain ⟨_, _, _, _, _, _, _, _, _, _, _, _, _, _, h⟩ := h
  split at h
  · rw [Checked.pure_eq_ok] at h
    subst h
    exact .one rfl rfl
  · cases h

theorem setFee_minor {admin : Address} {feeBps : Nat} (h : setFee env s admin feeBps = .ok s') :
    s.Minor s' := by
  simp only [setFee, Checked.bind_eq_ok, Checked.pure_eq_ok] at h
  obtain ⟨_, _, _, _, _, _, _, _, _, _, _, _, rfl⟩ := h
  exact .trans (.one rfl rfl) (.one rfl rfl)

theorem setTreasury_minor {admin treasury : Address}
    (h : setTreasury env s admin treasury = .ok s') : s.Minor s' := by
  simp only [setTreasury, Checked.bind_eq_ok, Checked.pure_eq_ok] at h
  obtain ⟨_, _, _, _, _, _, _, _, _, _, _, _, rfl⟩ := h
  exact .trans (.one rfl rfl) (.one rfl rfl)

theorem updateCredentialRoot_minor {σ : Type} {host : Host σ} {user : Address} {newRoot : Bytes32}
    {signature : Bytes64} (h : updateCredentialRoot host env s user newRoot signature = .ok s') :
    s.Minor s' := by
  simp only [updateCredentialRoot, Checked.bind_eq_ok, Checked.pure_eq_ok] at h
  obtain ⟨_, _, _, _, _, _, _, _, _, _, _, _, _, _, rfl⟩ := h
  exact .one rfl rfl

theorem verifyCredential_minor {σ : Type} {host : Host σ} {user : Address} {proof : List Bytes32}
    {leaf nullifier : Bytes32} {r : Bool × State}
    (h : verifyCredential host s user proof leaf nullifier = .ok r) : s.Minor r.2 := by
  simp only [verifyCredential, Checked.bind_eq_ok] at h
  obtain ⟨-, -, -, -, h⟩ := h
  split at h
  · rw [Checked.pure_eq_ok] at h
    exact .same (by rw [← h])
  · split at h
    · rw [Checked.pure_eq_ok] at h
      exact .same (by rw [← h])
    · split at h
      · rw [Checked.pure_eq_ok] at h
        exact .same (by rw [← h])
      · rw [Checked.pure_eq_ok] at h
        subst h
        exact .one rfl rfl

theorem verifyAnalyticsAttestation_events {σ : Type} {host : Host σ} {oracleName : Symbol}
    {reportCbor : Bytes} {signature : Bytes64} {creator : Address} {windowStart windowEnd : Nat}
    (h : verifyAnalyticsAttestation host env s oracleName reportCbor signature creator windowStart
      windowEnd = .ok s') :
    s'.events = s.events ++ [.attestationVerified oracleName (host.sha256 reportCbor) creator
      windowStart windowEnd] := by
  simp only [verifyAnalyticsAttestation, Checked.bind_eq_ok, Checked.pure_eq_ok] at h
  obtain ⟨_, _, _, _, _, _, _, _, _, _, _, _, rfl⟩ := h
  rfl

/-! ## Profiles, rent and moderation -/

theorem deleteProfile_minor {user : Address} (h : deleteProfile env s user = .ok s') :
    s.Minor s' := by
  simp only [deleteProfile, Checked.bind_eq_ok, Checked.pure_eq_ok] at h
  obtain ⟨-, -, -, -, profile, -, rfl⟩ := h
  exact .one rfl rfl

theorem batchCleanupProfile_minor {user : Address} {maxEntries : Nat}
    (h : batchCleanupProfile s user maxEntries = .ok s') : s.Minor s' := by
  obtain ⟨-, _, _, _, _, r, _, _, -, hr, -, hs⟩ := batchCleanupProfile_ok h
  obtain ⟨_, _, _, _, hr⟩ := drain_cleanupAuthorPost_frame hr
  refine .same ?_
  rw [hs]
  show r.2.2.2.events = s.events
  rw [hr]

theorem govExecute_minor {proposalId : Nat} (h : govExecute env s proposalId = .ok s') :
    s.Minor s' := by
  obtain ⟨_, p, t, -, -, -, -, ht, hs⟩ := govExecute_ok h
  obtain ⟨_, _, ht, -⟩ := applyProposal_ok ht
  rw [hs, ht]
  exact .one rfl rfl

theorem payRent_minor {σ : Type} {host : Host σ} {w w' : World σ} {user token : Address}
    {amount : Int} (h : payRent host env w user token amount = .ok w') :
    w.store.Minor w'.store := by
  simp only [payRent, Checked.bind_eq_ok, Checked.pure_eq_ok] at h
  obtain ⟨_, _, _, _, _, _, _, _, _, _, _, _, _, _, _, _, _, _, _, _, _, _, rfl⟩ := h
  exact .one rfl rfl

theorem reviewAppeal_minor {reviewer : Address} {postId : Nat} {approve : Bool}
    (h : reviewAppeal env s reviewer postId approve = .ok s') : s.Minor s' := by
  obtain ⟨-, pool, appeal, -, -, -, -, rfl⟩ := reviewAppeal_eq h
  unfold settleAppeal
  split
  · exact .one rfl rfl
  · split
    · exact .one rfl rfl
    · exact .same rfl

/-! ## What the others announce -/

/-- A batch counts the posts that it creates. -/
theorem batchCreatePost_counted {author : Address} {contents : List Bytes} {r : List Nat × State}
    (h : batchCreatePost env s author contents = .ok r) {P : Nat → State → Prop}
    (hstep : ∀ n s content q, n < contents.length → P n s →
      insertPost env s author content = .ok q → P (n + 1) q.2) (hs : P 0 s) :
    P contents.length r.2 := by
  simp only [batchCreatePost, Checked.bind_eq_ok] at h
  obtain ⟨-, -, -, -, -, -, -, -, h⟩ := h
  refine Checked.foldlM_counted (P := fun n (b : List Nat × State) => P n b.2) ?_ hs h
  intro n content b b' hn hb hb'
  simp only [Checked.bind_eq_ok, Checked.pure_eq_ok] at hb'
  obtain ⟨-, -, q, hq, rfl⟩ := hb'
  exact hstep n b.2 content q hn hb hq

/-- A review publishes one event: a removal if it upholds the report. -/
theorem reviewReport_event {σ : Type} {host : Host σ} {w w' : World σ} {moderator : Address}
    {signers : List Address} {postId : Nat} {reporter : Address} {verdict : ReportStatus}
    (h : reviewReport host env w moderator signers postId reporter verdict = .ok w') :
    ∃ e, w'.store.events = w.store.events ++ [e] ∧
      ((∃ reporter, e = .postRemovedByModeration postId reporter) ∨ e.minor = true) := by
  obtain ⟨-, pool, report, v, -, -, -, -, hv, rfl⟩ := reviewReport_ok h
  unfold resolveReport at hv
  cases verdict with
  | upheld =>
    simp only [Checked.bind_eq_ok, Checked.pure_eq_ok] at hv
    obtain ⟨u, hu, tokens, -, rfl⟩ := hv
    have hlog : u.store.events = w.store.events := by
      rcases upholdReport_ok hu with ⟨-, hsame⟩ | ⟨post, -, hstore, -⟩
      · rw [hsame]
      · rw [hstore]
        rfl
    refine ⟨.postRemovedByModeration postId report.reporter, ?_, Or.inl ⟨_, rfl⟩⟩
    show u.store.events ++ _ = _
    rw [hlog]
  | dismissed =>
    simp only [Checked.bind_eq_ok, Checked.pure_eq_ok] at hv
    obtain ⟨treasury, -, tokens, -, rfl⟩ := hv
    exact ⟨.reportDismissed postId report.reporter, rfl, Or.inr rfl⟩
  | pending => cases hv

/-! ## The calls that announce nothing -/

/-- A call that neither is one of the nine nor verifies an attestation. -/
theorem exec_minor {σ : Type} {host : Host σ} {w w' : World σ} {c : Call}
    (he : exec host env w c = .ok w') (hc : c.announces = false) (hattest : c.attests = false) :
    w.store.Minor w'.store := by
  cases c with
  | initializeContract => exact initializeContract_minor (World.onStore_eq_ok.mp he).1
  | grantRole => exact grantRole_minor (World.onStore_eq_ok.mp he).1
  | revokeRole => exact revokeRole_minor (World.onStore_eq_ok.mp he).1
  | setProfile =>
    obtain ⟨-, -, _, hs, -⟩ := setProfile_ok (World.onStore_eq_ok.mp he).1
    rw [hs]
    exact .one rfl rfl
  | deleteProfile => exact deleteProfile_minor (World.onStore_eq_ok.mp he).1
  | batchCleanupProfile => exact batchCleanupProfile_minor (World.onStore_eq_ok.mp he).1
  | setCredentialAuthority =>
    rw [setCredentialAuthority_ok (World.onStore_eq_ok.mp he).1]
    exact .same rfl
  | updateCredentialRoot => exact updateCredentialRoot_minor (World.onStore_eq_ok.mp he).1
  | verifyCredential =>
    obtain ⟨r, hr, hrs⟩ := Checked.map_eq_ok.mp (World.onStore_eq_ok.mp he).1
    rw [← hrs]
    exact verifyCredential_minor hr
  | pruneNullifiers =>
    obtain ⟨_, hs⟩ := pruneNullifiers_ok (World.onStore_eq_ok.mp he).1
    rw [hs]
    exact .same rfl
  | publishDmKey =>
    rw [publishDmKey_ok (World.onStore_eq_ok.mp he).1]
    exact .one rfl rfl
  | migrateFollowGraph =>
    obtain ⟨_, -, hs⟩ := migrateFollowGraph_ok (World.onStore_eq_ok.mp he).1
    rw [hs]
    exact .same rfl
  | blockUser =>
    obtain ⟨-, _, -, hs⟩ := blockUser_ok (World.onStore_eq_ok.mp he).1
    rw [hs]
    exact .one rfl rfl
  | unblockUser =>
    rw [unblockUser_ok (World.onStore_eq_ok.mp he).1]
    exact .one rfl rfl
  | setPostContentHash =>
    rw [setPostContentHash_ok (World.onStore_eq_ok.mp he).1]
    exact .one rfl rfl
  | revealPost => exact absurd (World.onStore_eq_ok.mp he).1 revealPost_ne_ok
  | batchCleanupPost =>
    obtain ⟨-, _, _, _, _, -, -, -, -, hs⟩ := batchCleanupPost_ok (World.onStore_eq_ok.mp he).1
    rw [hs]
    exact .same rfl
  | createPool =>
    obtain ⟨-, -, -, hs⟩ := createPool_ok (World.onStore_eq_ok.mp he).1
    rw [hs]
    exact .one rfl rfl
  | poolDeposit =>
    obtain ⟨-, -, _, _, -, -, -, -, rfl⟩ := poolDeposit_ok he
    exact .one rfl rfl
  | poolWithdraw =>
    obtain ⟨-, _, _, -, -, -, -, rfl⟩ := poolWithdraw_ok he
    exact .one rfl rfl
  | addPoolAdmin =>
    obtain ⟨_, -, -, -, hs⟩ := addPoolAdmin_ok (World.onStore_eq_ok.mp he).1
    rw [hs]
    exact .one rfl rfl
  | removePoolAdmin =>
    obtain ⟨_, -, -, -, hs⟩ := removePoolAdmin_ok (World.onStore_eq_ok.mp he).1
    rw [hs]
    exact .one rfl rfl
  | updatePoolThreshold =>
    obtain ⟨_, -, -, -, -, hs⟩ := updatePoolThreshold_ok (World.onStore_eq_ok.mp he).1
    rw [hs]
    exact .one rfl rfl
  | setFee => exact setFee_minor (World.onStore_eq_ok.mp he).1
  | setTreasury => exact setTreasury_minor (World.onStore_eq_ok.mp he).1
  | setTipCooldownWindow =>
    obtain ⟨-, hs⟩ := setTipCooldownWindow_ok (World.onStore_eq_ok.mp he).1
    rw [hs]
    exact .same rfl
  | govInitConfig =>
    obtain ⟨-, hs⟩ := govInitConfig_ok (World.onStore_eq_ok.mp he).1
    rw [hs]
    exact .same rfl
  | govPropose =>
    obtain ⟨r, hr, hrs⟩ := Checked.map_eq_ok.mp (World.onStore_eq_ok.mp he).1
    obtain ⟨-, _, -, _, -, rfl⟩ := govPropose_ok hr
    rw [← hrs]
    exact .one rfl rfl
  | govVote =>
    obtain ⟨_, _, _, -, -, -, -, -, -, hs⟩ := govVote_ok (World.onStore_eq_ok.mp he).1
    rw [hs]
    exact .one rfl rfl
  | govDelegate =>
    obtain ⟨_, hs⟩ := govDelegate_ok (World.onStore_eq_ok.mp he).1
    rw [hs]
    exact .same rfl
  | govRevokeDelegation =>
    rw [govRevokeDelegation_ok (World.onStore_eq_ok.mp he).1]
    exact .same rfl
  | govExecute => exact govExecute_minor (World.onStore_eq_ok.mp he).1
  | govVeto =>
    obtain ⟨-, -, -, _, -, _, -, -, -, -, -, _, -, -, hs⟩ :=
      govVeto_eq_ok.mp (World.onStore_eq_ok.mp he).1
    rw [← hs]
    exact .one rfl rfl
  | registerOracle =>
    obtain ⟨_, hs⟩ := registerOracle_ok (World.onStore_eq_ok.mp he).1
    rw [hs]
    exact .same rfl
  | verifyAnalyticsAttestation => cases hattest
  | upgrade => exact upgrade_minor (World.onStore_eq_ok.mp he).1
  | payRent => exact payRent_minor he
  | setRentRateBps =>
    obtain ⟨-, -, hs⟩ := setRentRateBps_ok (World.onStore_eq_ok.mp he).1
    rw [hs]
    exact .same rfl
  | batchBumpUserGraph =>
    obtain ⟨_, -, rfl⟩ := Checked.map_eq_ok.mp he
    exact .same rfl
  | reportPost =>
    obtain ⟨-, -, -, -, _, _, -, rfl⟩ := reportPost_ok he
    exact .one rfl rfl
  | appealModeration =>
    obtain ⟨-, -, -, -, -, -, -, -, -, -, hs⟩ :=
      appealModeration_eq_ok.mp (World.onStore_eq_ok.mp he).1
    rw [← hs]
    exact .one rfl rfl
  | reviewAppeal => exact reviewAppeal_minor (World.onStore_eq_ok.mp he).1
  | pause =>
    obtain ⟨-, -, hs⟩ := pause_eq_ok.mp (World.onStore_eq_ok.mp he).1
    rw [← hs]
    exact .one rfl rfl
  | unpause =>
    obtain ⟨-, -, hs⟩ := unpause_eq_ok.mp (World.onStore_eq_ok.mp he).1
    rw [← hs]
    exact .one rfl rfl
  | pauseModule => exact pauseModule_minor (World.onStore_eq_ok.mp he).1
  | unpauseModule => exact unpauseModule_minor (World.onStore_eq_ok.mp he).1
  | _ => cases hc

/-- A call that is not one of the nine publishes no social event. -/
theorem exec_quiet {σ : Type} {host : Host σ} {w w' : World σ} {c : Call}
    (he : exec host env w c = .ok w') (hc : c.announces = false) : w.store.Quiet w'.store := by
  cases hattest : c.attests with
  | false => exact (exec_minor he hc hattest).quiet
  | true =>
    cases c with
    | verifyAnalyticsAttestation name cbor signature creator windowStart windowEnd =>
      have hs := verifyAnalyticsAttestation_events (World.onStore_eq_ok.mp he).1
      refine ⟨_, hs, fun e he => ?_⟩
      rw [List.mem_singleton.mp he]
      rfl
    | _ => cases hattest

end Contract
end Linkora
