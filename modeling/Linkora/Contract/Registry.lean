import Linkora.Contract.Entry

/-!
# The profile registry

A profile is recorded four times: the profile itself, the username that leads back
to it, the map of registered users, and the count.  `set_profile` and
`delete_profile` write each of them by hand, and no other call touches them.
-/

namespace Linkora
namespace Contract
namespace Profiles

/-- The profiles after `user` has been given `entry`, for the first time or again. -/
def enrol (p : Profiles) (user : Address) (entry : Profile) : Profiles :=
  { p with
    profile := p.profile.set user entry
    usernameIndex := (p.dropOldUsername user entry.username).usernameIndex.set
      entry.username user
    profileCreatedCt :=
      if p.profile.has user then p.profileCreatedCt else some (p.profileCreatedCt.getD 0 + 1)
    registeredUsers :=
      if p.profile.has user then p.registeredUsers
      else some ((p.registeredUsers.getD ∅).set user true) }

/-- The four records of a profile agree. -/
structure Consistent (p : Profiles) : Prop where
  index : ∀ name user, p.usernameIndex.get name = some user ↔
    ∃ entry, p.profile.get user = some entry ∧ entry.username = name
  registered : ∀ user, (p.registeredUsers.getD ∅).has user = p.profile.has user
  count : p.profileCreatedCt.getD 0 = {user | p.profile.has user = true}.ncard

variable {p : Profiles} {user : Address} {entry : Profile}

theorem dropOldUsername_eq (p : Profiles) (user : Address) (username : Bytes) :
    p.dropOldUsername user username =
      { p with usernameIndex := (p.dropOldUsername user username).usernameIndex } := by
  unfold dropOldUsername
  split
  · split
    · rfl
    · rfl
  · rfl

/-- The name that the user gives up is the only one that is freed. -/
theorem get_dropOldUsername (p : Profiles) (user x : Address) {username name : Bytes}
    (hne : name ≠ username) :
    (p.dropOldUsername user username).usernameIndex.get name = some x ↔
      p.usernameIndex.get name = some x ∧
        ¬∃ old, p.profile.get user = some old ∧ old.username = name := by
  unfold dropOldUsername
  cases hget : p.profile.get user with
  | none => simp
  | some old =>
    by_cases hold : old.username = name
    · have hnew : name ≠ username := hne
      simp [hold, hnew]
    · simp only [Option.some.injEq, exists_eq_left', hold, not_false_eq_true, and_true]
      split
      · rw [Store.get_remove_of_ne (Ne.symm hold)]
      · rfl

theorem Consistent.enrol (h : p.Consistent)
    (hfree : ∀ owner, p.usernameIndex.get entry.username = some owner → owner = user) :
    (p.enrol user entry).Consistent := by
  refine ⟨fun name x => ?_, fun x => ?_, ?_⟩
  · show ((p.dropOldUsername user entry.username).usernameIndex.set entry.username user).get name =
      some x ↔ ∃ e, (p.profile.set user entry).get x = some e ∧ e.username = name
    by_cases hname : name = entry.username
    · -- The name is the new one: nobody else has it, since it was free or the user's own.
      subst hname
      rw [Store.get_set_self, Option.some.injEq, Store.get_set]
      constructor
      · rintro rfl
        exact ⟨entry, if_pos rfl, rfl⟩
      · rintro ⟨e, he, hname⟩
        by_contra hne
        rw [if_neg (Ne.symm hne)] at he
        exact hne (hfree x ((h.index _ x).mpr ⟨e, he, hname⟩)).symm
    · rw [Store.get_set_of_ne hname, get_dropOldUsername p user x hname, ← h.index name user,
        Store.get_set]
      by_cases hx : x = user
      · -- The user keeps no name but the new one.
        subst hx
        rw [if_pos rfl]
        constructor
        · exact fun hget => absurd hget.1 hget.2
        · rintro ⟨e, he, hname'⟩
          obtain rfl := Option.some.inj he
          exact absurd hname'.symm hname
      · rw [if_neg hx, ← h.index name x]
        constructor
        · exact And.left
        · intro hget
          refine ⟨hget, fun huser => ?_⟩
          rw [hget, Option.some.injEq] at huser
          exact hx huser
  · show ((if p.profile.has user then p.registeredUsers
      else some ((p.registeredUsers.getD ∅).set user true)).getD ∅).has x =
        (p.profile.set user entry).has x
    rw [Store.has_set]
    split
    · rename_i hhas
      rw [h.registered x]
      split
      · rename_i hx
        rw [hx, hhas]
      · rfl
    · rw [Option.getD_some, Store.has_set, h.registered x]
  · show (if p.profile.has user then p.profileCreatedCt
      else some (p.profileCreatedCt.getD 0 + 1)).getD 0 =
        {x | (p.profile.set user entry).has x = true}.ncard
    split
    · rename_i hhas
      rw [h.count, Store.ncard_set_of_has hhas]
    · rename_i hhas
      rw [Option.getD_some, h.count, Store.ncard_set_of_new (Bool.not_eq_true _ ▸ hhas)]

/-- The profiles after `user`, who had the profile `old`, has deleted it. -/
def strike (p : Profiles) (user : Address) (old : Profile) : Profiles :=
  { profile := p.profile.remove user
    usernameIndex := p.usernameIndex.remove old.username
    deletedProfile := p.deletedProfile.set user true
    dmPublicKey := p.dmPublicKey.remove user
    profileCreatedCt :=
      if 0 < p.profileCreatedCt.getD 0 then some (p.profileCreatedCt.getD 0 - 1)
      else p.profileCreatedCt
    registeredUsers := some ((p.registeredUsers.getD ∅).remove user) }

theorem Consistent.strike {old : Profile} (h : p.Consistent)
    (hold : p.profile.get user = some old) : (p.strike user old).Consistent := by
  have hindex : p.usernameIndex.get old.username = some user :=
    (h.index _ _).mpr ⟨old, hold, rfl⟩
  refine ⟨fun name x => ?_, fun x => ?_, ?_⟩
  · show (p.usernameIndex.remove old.username).get name = some x ↔
      ∃ e, (p.profile.remove user).get x = some e ∧ e.username = name
    rw [Store.get_remove, Store.get_remove]
    by_cases hx : x = user
    · subst hx
      rw [if_pos rfl]
      constructor
      · intro hget
        split at hget
        · cases hget
        · rename_i hne
          obtain ⟨e, he, hname⟩ := (h.index name x).mp hget
          rw [hold, Option.some.injEq] at he
          exact absurd (hname.symm.trans (congrArg Profile.username he.symm)) hne
      · rintro ⟨e, he, -⟩
        cases he
    · rw [if_neg hx, ← h.index name x]
      constructor
      · intro hget
        split at hget
        · cases hget
        · exact hget
      · intro hget
        rw [if_neg, hget]
        intro hname
        rw [hname, hindex, Option.some.injEq] at hget
        exact hx hget.symm
  · show ((p.registeredUsers.getD ∅).remove user).has x = (p.profile.remove user).has x
    rw [Store.has_remove, Store.has_remove, h.registered x]
  · have hcard := Store.ncard_remove_add_one (Store.has_of_get hold)
    have hpos : 0 < p.profileCreatedCt.getD 0 := by
      rw [h.count]
      omega
    show (if 0 < p.profileCreatedCt.getD 0 then some (p.profileCreatedCt.getD 0 - 1)
      else p.profileCreatedCt).getD 0 = {x | (p.profile.remove user).has x = true}.ncard
    rw [if_pos hpos, Option.getD_some, h.count]
    omega

theorem Consistent.empty : Consistent ⟨∅, ∅, ∅, ∅, none, none⟩ := by
  refine ⟨fun name x => ⟨nofun, ?_⟩, fun x => rfl, ?_⟩
  · rintro ⟨e, he, -⟩
    cases he
  · have hset : {x : Address | (∅ : Store Address Profile).has x = true} = ∅ :=
      Set.eq_empty_iff_forall_notMem.mpr fun x hx => nomatch hx
    rw [hset, Set.ncard_empty]
    rfl

/-- Only the four records matter. -/
theorem Consistent.congr {q : Profiles} (h : p.Consistent) (hprofile : q.profile = p.profile)
    (hindex : q.usernameIndex = p.usernameIndex)
    (hregistered : q.registeredUsers = p.registeredUsers)
    (hcount : q.profileCreatedCt = p.profileCreatedCt) : q.Consistent := by
  refine ⟨?_, ?_, ?_⟩
  · rw [hprofile, hindex]
    exact h.index
  · rw [hprofile, hregistered]
    exact h.registered
  · rw [hprofile, hcount]
    exact h.count

end Profiles

/-! ## The calls -/

theorem setProfile_profiles {env : Env} {s s' : State} {user : Address} {username : Bytes}
    {creatorToken : Address} (h : setProfile env s user username creatorToken = .ok s') :
    (∀ owner, s.profiles.usernameIndex.get username = some owner → owner = user) ∧
      s'.profiles = s.profiles.enrol user ⟨user, username, creatorToken⟩ := by
  simp only [setProfile, Checked.bind_eq_ok, Checked.pure_eq_ok, requireWithError_eq_ok,
    exists_const] at h
  obtain ⟨-, -, -, -, -, -, -, -, hfree, profiles, hreg, rfl⟩ := h
  constructor
  · intro owner howner
    rw [howner] at hfree
    simpa using hfree
  · rw [Profiles.dropOldUsername_eq] at hreg
    unfold Profiles.registerNew at hreg
    unfold Profiles.enrol
    split at hreg
    · rename_i hhas
      have hhas' : s.profiles.profile.has user = true := hhas
      obtain rfl := Except.ok.inj hreg
      simp only [hhas', if_true]
      rfl
    · rename_i hhas
      simp only [Checked.bind_eq_ok, Checked.pure_eq_ok, u64_eq_ok] at hreg
      obtain ⟨count, ⟨-, rfl⟩, rfl⟩ := hreg
      have hhas' : s.profiles.profile.has user = false := Bool.not_eq_true _ ▸ hhas
      simp only [hhas', Bool.false_eq_true, if_false]
      rfl

theorem deleteProfile_profiles {env : Env} {s s' : State} {user : Address}
    (h : deleteProfile env s user = .ok s') :
    ∃ old, s.profiles.profile.get user = some old ∧ s'.profiles = s.profiles.strike user old := by
  simp only [deleteProfile, Checked.bind_eq_ok, Checked.pure_eq_ok, expect_eq_ok] at h
  obtain ⟨-, -, -, -, old, hold, rfl⟩ := h
  exact ⟨old, hold, rfl⟩

theorem Profiles.Consistent.call {σ : Type} {host : Host σ} {env : Env} {w w' : World σ}
    {c : Call} (h : w.store.profiles.Consistent) (he : exec host env w c = .ok w') :
    w'.store.profiles.Consistent := by
  cases c with
  | setProfile user username creatorToken =>
    obtain ⟨hfree, hs⟩ := setProfile_profiles (World.onStore_eq_ok.mp he).1
    rw [hs]
    exact h.enrol hfree
  | deleteProfile user =>
    obtain ⟨old, hold, hs⟩ := deleteProfile_profiles (World.onStore_eq_ok.mp he).1
    rw [hs]
    exact h.strike hold
  | batchCleanupProfile user maxEntries =>
    obtain ⟨-, fCount, followingCount, left, graph, r, authorPosts, deletedProfile, -, hr, -,
      hs⟩ := batchCleanupProfile_ok (World.onStore_eq_ok.mp he).1
    obtain ⟨posts, likes, reports, tips, hr⟩ := drain_cleanupAuthorPost_frame hr
    rw [hs, hr]
    exact h.congr rfl rfl rfl rfl
  | publishDmKey user x25519Pubkey =>
    rw [publishDmKey_ok (World.onStore_eq_ok.mp he).1]
    exact h.congr rfl rfl rfl rfl
  | _ =>
    have hsame' : w'.store.profiles = w.store.profiles :=
      exec_frame (p := .profiles) he (by simp [Call.parts])
    rw [hsame']
    exact h

/-- In every reachable state a username leads to exactly the user whose profile has
it, no two profiles share one, the registered users are those with a profile, and
the count is their number. -/
theorem registry_consistent {σ : Type} {host : Host σ} {w : World σ} (hw : Reachable host w) :
    (∀ name user, w.store.profiles.usernameIndex.get name = some user ↔
      ∃ entry, w.store.profiles.profile.get user = some entry ∧ entry.username = name) ∧
    (∀ user user' entry entry', w.store.profiles.profile.get user = some entry →
      w.store.profiles.profile.get user' = some entry' → entry.username = entry'.username →
      user = user') ∧
    (∀ user, (registered w.store).has user = true ↔
      w.store.profiles.profile.has user = true) ∧
    w.store.profiles.profileCreatedCt.getD 0 =
      {user | w.store.profiles.profile.has user = true}.ncard := by
  have h : w.store.profiles.Consistent := by
    refine hw.store_invariant (I := fun s => s.profiles.Consistent) ?_ ?_
    · intro s env admin treasury feeBps hs
      obtain ⟨-, -, access, events, rfl⟩ := initializeContract_ok hs
      exact .empty
    · exact fun w env c w' hw he => hw.call he
  refine ⟨h.index, ?_, fun user => ?_, h.count⟩
  · intro user user' entry entry' hentry hentry' hname
    have hindex := (h.index entry.username user).mpr ⟨entry, hentry, rfl⟩
    have hindex' := (h.index entry.username user').mpr ⟨entry', hentry', hname.symm⟩
    rw [hindex, Option.some.injEq] at hindex'
    exact hindex'
  · rw [registered, h.registered user]

/-- A name is released by a renaming and taken by another user, and one of the two
leaves. -/
theorem registry_consistent_after_release :
    ∃ w : World Book, Reachable (bookHost linkora) w ∧
      w.store.profiles.usernameIndex.get (asciiBytes "alice") = some carol ∧
      (∃ entry, w.store.profiles.profile.get carol = some entry ∧
        entry.username = asciiBytes "alice") ∧
      {user | w.store.profiles.profile.has user = true}.ncard = 1 := by
  have hdemo : (demo (fun _ _ _ => True) (fun _ _ => 0)
      [(signedAt 2, .setProfile alice (asciiBytes "alice") coin),
        (signedAt 3, .setProfile alice (asciiBytes "alicia") coin),
        (signedAt 4, .setProfile carol (asciiBytes "alice") coin),
        (signedAt 5, .deleteProfile alice)]).map
        (fun w => (w.store.profiles.usernameIndex.get (asciiBytes "alice"),
          w.store.profiles.profileCreatedCt)) =
      some (some carol, some 1) := by decide
  obtain ⟨w, hw, hsee⟩ := reachable_demo hdemo
  obtain ⟨hindex, hcount⟩ := Prod.mk.inj hsee
  obtain ⟨h₁, -, -, h₄⟩ := registry_consistent hw.reachable
  rw [hcount] at h₄
  exact ⟨w, hw.reachable, hindex, (h₁ _ _).mp hindex, h₄.symm⟩

end Contract
end Linkora
