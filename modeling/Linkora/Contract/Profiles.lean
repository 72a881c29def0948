import Linkora.Contract.Posts

/-!
# Profiles

Registration, deletion, and the permissionless cleanup that a deletion leaves to
be done in portions.
-/

namespace Linkora
namespace Contract

namespace Profiles

/-- Free the username a profile gives up when it takes another one. -/
def dropOldUsername (p : Profiles) (user : Address) (username : Bytes) : Profiles :=
  match p.profile.get user with
  | some existing =>
    if existing.username ≠ username then
      { p with usernameIndex := p.usernameIndex.remove existing.username }
    else p
  | none => p

/-- Count and register a user without a profile. -/
def registerNew (p : Profiles) (user : Address) : Except Panic Profiles :=
  if p.profile.has user then .ok p
  else do
    let count ← u64 (p.profileCreatedCt.getD 0 + 1)
    return { p with
      profileCreatedCt := some count
      registeredUsers := some ((p.registeredUsers.getD ∅).set user true) }

end Profiles

def setProfile (env : Env) (s : State) (user : Address) (username : Bytes)
    (creatorToken : Address) : Except Panic State := do
  requireAuth env user
  validateNonDefaultAddress "user" user
  validateNonDefaultAddress "creator_token" creatorToken
  validateUsername username
  requireWithError ((s.profiles.usernameIndex.get username).all (· == user)) "username taken"
  let profiles ← (s.profiles.dropOldUsername user username).registerNew user
  let graph := if s.profiles.profile.has user then s.graph else s.graph.initCounts user
  let profiles := { profiles with
    profile := profiles.profile.set user { address := user, username, creatorToken }
    usernameIndex := profiles.usernameIndex.set username user }
  return { s with profiles, graph }.publish (.profileSet user username)

def deleteProfile (env : Env) (s : State) (user : Address) : Except Panic State := do
  requireAuth env user
  validateNonDefaultAddress "user" user
  let profile ← expect (s.profiles.profile.get user) "profile does not exist"
  let count := s.profiles.profileCreatedCt.getD 0
  let profiles : Profiles :=
    { profile := s.profiles.profile.remove user
      usernameIndex := s.profiles.usernameIndex.remove profile.username
      deletedProfile := s.profiles.deletedProfile.set user true
      dmPublicKey := s.profiles.dmPublicKey.remove user
      profileCreatedCt := if 0 < count then some (count - 1) else s.profiles.profileCreatedCt
      registeredUsers := some ((s.profiles.registeredUsers.getD ∅).remove user) }
  return { s with
    profiles
    credentials := { s.credentials with root := s.credentials.root.remove user }
    blocks := s.blocks.remove user
    events := s.events ++ [.profileDeleted user profile.username] }

/-- One round of the authored-posts loop: the last id of the list is tombstoned
and dropped. -/
def cleanupAuthorPost (i : Nat) (p : List Nat × State) : Except Panic (List Nat × State) := do
  let postId ← expect p.1[i]? "called `Option::unwrap()` on a `None` value"
  let posts := { p.2.posts with
    deletedPost := p.2.posts.deletedPost.set postId true
    post := p.2.posts.post.remove postId }
  return (p.1.eraseIdx i, cleanupPostAssociations { p.2 with posts } postId)

def batchCleanupProfile (s : State) (user : Address) (maxEntries : Nat) : Except Panic State := do
  requireWithError (s.profiles.deletedProfile.has user = true) "profile not deleted"
  let (fCount, followingCount, left, graph) ← s.graph.cleanupUser user maxEntries
  let authorPosts := (s.posts.authorPosts.get user).getD []
  let (_, _, authorPosts, s) ←
    Checked.drain cleanupAuthorPost authorPosts.length left (authorPosts, { s with graph })
  let posts := { s.posts with
    authorPosts :=
      if authorPosts = [] then s.posts.authorPosts.remove user
      else s.posts.authorPosts.set user authorPosts }
  let deletedProfile :=
    if fCount = 0 ∧ followingCount = 0 ∧ authorPosts = [] then
      s.profiles.deletedProfile.remove user
    else s.profiles.deletedProfile
  return { s with posts, profiles := { s.profiles with deletedProfile } }

def publishDmKey (env : Env) (s : State) (user : Address) (x25519Pubkey : Bytes32) :
    Except Panic State := do
  requireAuth env user
  validateNonDefaultAddress "user" user
  let profiles := { s.profiles with dmPublicKey := s.profiles.dmPublicKey.set user x25519Pubkey }
  return { s with profiles }.publish (.dmKeyPublished user x25519Pubkey)

/-! ## What a successful call says -/

theorem Profiles.dropOldUsername_frame (p : Profiles) (user : Address) (username : Bytes) :
    (p.dropOldUsername user username).profile = p.profile ∧
      (p.dropOldUsername user username).deletedProfile = p.deletedProfile ∧
      (p.dropOldUsername user username).registeredUsers = p.registeredUsers := by
  unfold Profiles.dropOldUsername
  split
  · split
    · exact ⟨rfl, rfl, rfl⟩
    · exact ⟨rfl, rfl, rfl⟩
  · exact ⟨rfl, rfl, rfl⟩

theorem Profiles.registerNew_ok {p q : Profiles} {user : Address}
    (h : p.registerNew user = .ok q) :
    q.profile = p.profile ∧ q.deletedProfile = p.deletedProfile ∧
      q.registeredUsers = if p.profile.has user = true then p.registeredUsers
        else some ((p.registeredUsers.getD ∅).set user true) := by
  unfold Profiles.registerNew at h
  split at h
  · rename_i hhas
    rw [Except.ok.injEq] at h
    subst h
    exact ⟨rfl, rfl, (if_pos hhas).symm⟩
  · rename_i hhas
    simp only [Checked.bind_eq_ok, Checked.pure_eq_ok] at h
    obtain ⟨-, -, rfl⟩ := h
    exact ⟨rfl, rfl, (if_neg hhas).symm⟩

theorem setProfile_ok {env : Env} {s s' : State} {user : Address} {username : Bytes}
    {creatorToken : Address} (h : setProfile env s user username creatorToken = .ok s') :
    env.auth user = true ∧ isZeroAddress user = false ∧
    ∃ profiles : Profiles,
      s' = { s with
        profiles
        graph := if s.profiles.profile.has user then s.graph
          else s.graph.initCounts user }.publish (.profileSet user username) ∧
      profiles.profile = s.profiles.profile.set user ⟨user, username, creatorToken⟩ ∧
      profiles.deletedProfile = s.profiles.deletedProfile ∧
      profiles.registeredUsers =
        (if s.profiles.profile.has user then s.profiles.registeredUsers
          else some ((s.profiles.registeredUsers.getD ∅).set user true)) := by
  simp only [setProfile, Checked.bind_eq_ok, Checked.pure_eq_ok, requireAuth_eq_ok,
    validateNonDefaultAddress_eq_ok, exists_const] at h
  obtain ⟨hauth, hzero, -, -, -, -, -, profiles, hreg, rfl⟩ := h
  obtain ⟨hprofile, hdeleted, hregistered⟩ := s.profiles.dropOldUsername_frame user username
  obtain ⟨hp, hd, hr⟩ := Profiles.registerNew_ok hreg
  refine ⟨hauth, hzero, _, rfl, ?_, ?_, ?_⟩
  · show profiles.profile.set user _ = _
    rw [hp, hprofile]
  · exact hd.trans hdeleted
  · show profiles.registeredUsers = _
    rw [hr, hprofile, hregistered]

theorem deleteProfile_ok {env : Env} {s s' : State} {user : Address}
    (h : deleteProfile env s user = .ok s') :
    s.profiles.profile.has user = true ∧ ∃ profiles events,
      s' = { s with
        profiles
        credentials := { s.credentials with root := s.credentials.root.remove user }
        blocks := s.blocks.remove user
        events } ∧
      profiles.profile = s.profiles.profile.remove user ∧
      profiles.deletedProfile = s.profiles.deletedProfile.set user true ∧
      profiles.registeredUsers = some ((s.profiles.registeredUsers.getD ∅).remove user) := by
  simp only [deleteProfile, Checked.bind_eq_ok, Checked.pure_eq_ok, expect_eq_ok] at h
  obtain ⟨-, -, -, -, profile, hprofile, rfl⟩ := h
  exact ⟨Store.has_of_get hprofile, _, _, rfl, rfl, rfl, rfl⟩

/-- The authored-posts loop edits posts and what hangs on them. -/
theorem cleanupAuthorPost_ok {i : Nat} {p q : List Nat × State}
    (h : cleanupAuthorPost i p = .ok q) :
    ∃ postId, p.1[i]? = some postId ∧ q.1 = p.1.eraseIdx i ∧
      q.2 = { p.2 with
        posts := { p.2.posts with
          deletedPost := p.2.posts.deletedPost.set postId true
          post := p.2.posts.post.remove postId }
        likes := sweepLikes p.2.likes postId
        reports := sweepReports p.2.reports postId
        tips := sweepCooldowns p.2.tips postId } := by
  simp only [cleanupAuthorPost, Checked.bind_eq_ok, Checked.pure_eq_ok, expect_eq_ok] at h
  obtain ⟨postId, hid, rfl⟩ := h
  exact ⟨postId, hid, rfl, rfl⟩

theorem batchCleanupProfile_ok {s s' : State} {user : Address} {maxEntries : Nat}
    (h : batchCleanupProfile s user maxEntries = .ok s') :
    s.profiles.deletedProfile.has user = true ∧
    ∃ (fCount followingCount left : Nat) (graph : Graph) (r : Nat × Nat × List Nat × State)
      (authorPosts : Store Address (List Nat)) (deletedProfile : Store Address Bool),
      s.graph.cleanupUser user maxEntries = .ok (fCount, followingCount, left, graph) ∧
      Checked.drain cleanupAuthorPost ((s.posts.authorPosts.get user).getD []).length left
        ((s.posts.authorPosts.get user).getD [], { s with graph }) = .ok r ∧
      (deletedProfile = r.2.2.2.profiles.deletedProfile ∨
        deletedProfile = r.2.2.2.profiles.deletedProfile.remove user) ∧
      s' = { r.2.2.2 with
        posts := { r.2.2.2.posts with authorPosts }
        profiles := { r.2.2.2.profiles with deletedProfile } } := by
  simp only [batchCleanupProfile, Checked.bind_eq_ok, Checked.pure_eq_ok, requireWithError_eq_ok,
    exists_const] at h
  obtain ⟨htomb, ⟨fCount, followingCount, left, graph⟩, hgraph, r, hr, rfl⟩ := h
  refine ⟨htomb, fCount, followingCount, left, graph, r, _, _, hgraph, hr, ?_, rfl⟩
  by_cases hdone : fCount = 0 ∧ followingCount = 0 ∧ r.2.2.1 = []
  · exact Or.inr (if_pos hdone)
  · exact Or.inl (if_neg hdone)

theorem publishDmKey_ok {env : Env} {s s' : State} {user : Address} {x25519Pubkey : Bytes32}
    (h : publishDmKey env s user x25519Pubkey = .ok s') :
    s' = { s with profiles := { s.profiles with
      dmPublicKey := s.profiles.dmPublicKey.set user x25519Pubkey } }.publish
        (.dmKeyPublished user x25519Pubkey) := by
  simp only [publishDmKey, Checked.bind_eq_ok, Checked.pure_eq_ok] at h
  obtain ⟨-, -, -, -, rfl⟩ := h
  rfl

end Contract
end Linkora
