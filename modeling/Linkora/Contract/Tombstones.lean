import Linkora.Contract.Registration

/-!
# Tombstones of deleted profiles

`delete_profile` leaves a tombstone, and as long as it stands anybody may sweep the
edges and the posts of the user in portions.  `set_profile` does not look at the
tombstone, so a user who returns before the sweep is over is a live account that
can be swept.
-/

namespace Linkora
namespace Contract

/-- A tombstone stands only where there is no profile. -/
def TombstonesApart (p : Profiles) : Prop :=
  ∀ user, p.deletedProfile.has user = true → p.profile.has user = false

/-- Every way a call can change the profiles and their tombstones. -/
inductive ProfileStep (s : State) (c : Call) (p' : Profiles) : Prop where
  | same (profile : p'.profile = s.profiles.profile)
      (deleted : p'.deletedProfile = s.profiles.deletedProfile)
  | register (user : Address) (entry : Profile) (call : c.registers = some user)
      (profile : p'.profile = s.profiles.profile.set user entry)
      (deleted : p'.deletedProfile = s.profiles.deletedProfile)
  | delete (user : Address) (profile : p'.profile = s.profiles.profile.remove user)
      (deleted : p'.deletedProfile = s.profiles.deletedProfile.set user true)
  | sweep (user : Address) (profile : p'.profile = s.profiles.profile)
      (deleted : p'.deletedProfile = s.profiles.deletedProfile.remove user)

theorem exec_profileStep {σ : Type} {host : Host σ} {env : Env} {w w' : World σ} {c : Call}
    (he : exec host env w c = .ok w') : ProfileStep w.store c w'.store.profiles := by
  cases c with
  | setProfile user username creatorToken =>
    obtain ⟨-, -, profiles, hs, hprofile, hdeleted, -⟩ :=
      setProfile_ok (World.onStore_eq_ok.mp he).1
    rw [hs]
    exact .register user _ rfl hprofile hdeleted
  | deleteProfile user =>
    obtain ⟨-, profiles, events, hs, hprofile, hdeleted, -⟩ :=
      deleteProfile_ok (World.onStore_eq_ok.mp he).1
    rw [hs]
    exact .delete user hprofile hdeleted
  | batchCleanupProfile user maxEntries =>
    obtain ⟨-, fCount, followingCount, left, graph, r, authorPosts, deletedProfile, -, hr, hd,
      hs⟩ := batchCleanupProfile_ok (World.onStore_eq_ok.mp he).1
    obtain ⟨posts, likes, reports, tips, hr⟩ := drain_cleanupAuthorPost_frame hr
    rw [hr] at hd hs
    rw [hs]
    rcases hd with hd | hd
    · exact .same rfl hd
    · exact .sweep user rfl hd
  | publishDmKey user x25519Pubkey =>
    rw [publishDmKey_ok (World.onStore_eq_ok.mp he).1]
    exact .same rfl rfl
  | _ =>
    have hprofiles : w.store.SameOn w'.store .profiles := exec_frame he (by simp [Call.parts])
    exact .same (congrArg Profiles.profile hprofiles) (congrArg Profiles.deletedProfile hprofiles)

/-- Only the registration of a user under a tombstone can bring the two together. -/
theorem ProfileStep.tombstonesApart {s : State} {c : Call} {p' : Profiles}
    (h : ProfileStep s c p') (hapart : TombstonesApart s.profiles)
    (hc : ∀ user ∈ c.registers, s.profiles.deletedProfile.has user = false) :
    TombstonesApart p' := by
  intro x hx
  cases h with
  | same hprofile hdeleted =>
    rw [hdeleted] at hx
    rw [hprofile]
    exact hapart x hx
  | register user entry hcall hprofile hdeleted =>
    rw [hdeleted] at hx
    have hne : x ≠ user := by
      rintro rfl
      rw [hc x hcall] at hx
      cases hx
    rw [hprofile, Store.has_set, if_neg hne]
    exact hapart x hx
  | delete user hprofile hdeleted =>
    rw [hprofile]
    by_cases hxu : x = user
    · rw [hxu, Store.has_remove, if_pos rfl]
    · rw [hdeleted, Store.has_set, if_neg hxu] at hx
      rw [Store.has_remove, if_neg hxu]
      exact hapart x hx
  | sweep user hprofile hdeleted =>
    rw [hprofile]
    by_cases hxu : x = user
    · rw [hdeleted, hxu, Store.has_remove, if_pos rfl] at hx
      cases hx
    · rw [hdeleted, Store.has_remove, if_neg hxu] at hx
      exact hapart x hx

theorem batchCleanupProfile_of_no_tombstone {s : State} {user : Address}
    (h : s.profiles.deletedProfile.has user = false) (maxEntries : Nat) :
    batchCleanupProfile s user maxEntries = .error (.message "profile not deleted") := by
  have hr : requireWithError (s.profiles.deletedProfile.has user = true) "profile not deleted" =
      .error (.message "profile not deleted") := by
    rw [requireWithError, if_neg (by rw [h]; exact Bool.false_ne_true)]
  rw [batchCleanupProfile, hr]
  rfl

/-- Nobody registers under a tombstone. -/
def NoReturn : Condition := fun s _ c =>
  ∀ user ∈ c.registers, s.profiles.deletedProfile.has user = false

instance (s : State) (env : Env) (c : Call) : Decidable (NoReturn s env c) :=
  inferInstanceAs (Decidable (∀ user ∈ c.registers, s.profiles.deletedProfile.has user = false))

/-- In every state reached without a registration under a tombstone, tombstones and
profiles stand apart, and the cleanup of a user with a profile fails. -/
theorem cleanup_spares_live_accounts {σ : Type} {host : Host σ} {w : World σ}
    (hw : ReachableUnder host NoReturn w) :
    (∀ user, w.store.profiles.deletedProfile.has user = true →
      w.store.profiles.profile.has user = false) ∧
    ∀ user, w.store.profiles.profile.has user = true → ∀ env maxEntries,
      exec host env w (.batchCleanupProfile user maxEntries) =
        .error (.message "profile not deleted") := by
  have hapart : TombstonesApart w.store.profiles := by
    refine hw.store_invariant (I := fun s => TombstonesApart s.profiles) ?_ ?_
    · intro s env admin treasury feeBps hs
      obtain ⟨-, -, access, events, rfl⟩ := initializeContract_ok hs
      intro user hx
      cases hx
    · intro w env c w' hw hc he
      exact (exec_profileStep he).tombstonesApart hw hc
  refine ⟨hapart, fun user hprofile env maxEntries => ?_⟩
  have hclear : w.store.profiles.deletedProfile.has user = false := by
    by_contra hne
    rw [Bool.not_eq_false] at hne
    rw [hapart user hne] at hprofile
    cases hprofile
  show w.onStore (batchCleanupProfile w.store user maxEntries) = _
  rw [batchCleanupProfile_of_no_tombstone hclear]
  rfl

/-- A user who leaves, is swept, and returns. -/
theorem cleanup_spares_live_accounts_after_return :
    ∃ w : World Book, ReachableUnder (bookHost linkora) NoReturn w ∧
      w.store.profiles.profile.has alice = true ∧
      exec (bookHost linkora) (signedAt 9) w (.batchCleanupProfile alice 5) =
        .error (.message "profile not deleted") := by
  have hdemo : (demo NoReturn (fun _ _ => 0)
      [(signedAt 2, .setProfile alice (asciiBytes "alice") coin),
        (signedAt 3, .follow alice carol), (signedAt 4, .deleteProfile alice),
        (signedAt 5, .batchCleanupProfile alice 5),
        (signedAt 6, .setProfile alice (asciiBytes "alice") coin),
        (signedAt 7, .follow alice carol)]).map
        (fun w => w.store.profiles.profile.has alice) = some true := by decide
  obtain ⟨w, hw, hlive⟩ := reachable_demo hdemo
  exact ⟨w, hw, hlive, (cleanup_spares_live_accounts hw).2 alice hlive _ _⟩

/-- A user who returns before the sweep is swept as a live account: anybody removes
the edge to `carol` that was made after the return. -/
theorem cleanup_sweeps_live_account :
    ¬∀ (w : World Book) (user : Address) (env : Env) (maxEntries : Nat),
      Reachable (bookHost linkora) w → w.store.profiles.profile.has user = true →
      ¬∃ w', exec (bookHost linkora) env w (.batchCleanupProfile user maxEntries) = .ok w' := by
  intro hclaim
  have hdemo : (demo (fun _ _ _ => True) (fun _ _ => 0)
      [(signedAt 2, .setProfile alice (asciiBytes "alice") coin),
        (signedAt 3, .deleteProfile alice),
        (signedAt 4, .setProfile alice (asciiBytes "alice") coin),
        (signedAt 5, .follow alice carol)]).map
        (fun w => (w.store.profiles.profile.has alice, w.store.graph.edge.has (alice, carol),
          (exec (bookHost linkora) (signedAt 6) w (.batchCleanupProfile alice 5)).toOption.map
            fun w' => (w'.store.profiles.profile.has alice,
              w'.store.graph.edge.has (alice, carol)))) =
      some (true, true, some (true, false)) := by decide
  obtain ⟨w, hw, hsee⟩ := reachable_demo hdemo
  simp only [Prod.mk.injEq] at hsee
  obtain ⟨hlive, -, hsweep⟩ := hsee
  obtain ⟨w', hw', -⟩ := Option.map_eq_some_iff.mp hsweep
  exact hclaim w alice (signedAt 6) 5 hw.reachable hlive ⟨w', toOption_eq_some.mp hw'⟩

end Contract
end Linkora
