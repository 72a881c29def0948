import Linkora.Contract.TipTotals

/-!
# Commit and reveal

A committed post holds a placeholder until its author reveals the content behind the
committed hash.  The reveal removes the commitment and then extends the lifetime of the
entry it has just removed, which the host refuses.  So a reveal that meets every guard
aborts, and no post ever changes its content.
-/

namespace Linkora
namespace Contract

/-! ## The guards -/

/-- What a reveal asks for. -/
structure RevealAllowed {σ : Type} (host : Host σ) (env : Env) (s : State) (author : Address)
    (id : Nat) (content : Bytes) : Prop where
  auth : env.auth author = true
  running : Running s .posts
  committed : ∃ c, s.posts.committedPost.get id = some c ∧ c.author = author ∧
    c.revealTime ≤ env.timestamp ∧ host.sha256 content = c.contentHash
  length : 1 ≤ content.length ∧ content.length ≤ MAX_CONTENT_LEN
  stored : ∃ post, s.posts.post.get id = some post

section Guards

variable {σ : Type} {host : Host σ} {env : Env} {s : State} {author : Address} {id : Nat}
  {content : Bytes}

theorem validateContent_eq_ok :
    validateContent content = .ok () ↔ 1 ≤ content.length ∧ content.length ≤ MAX_CONTENT_LEN := by
  have hsome : content ≠ [] ↔ 1 ≤ content.length := by
    rw [← List.length_pos_iff]
    exact Iff.rfl
  simp only [validateContent, validateStringMaxLen, Checked.bind_eq_ok, requireWithError_eq_ok,
    exists_const, hsome]

/-- With every guard met a reveal comes to the entry it has removed. -/
theorem RevealAllowed.revealPost_eq (h : RevealAllowed host env s author id content)
    (hauthor : isZeroAddress author = false) (hid : 0 < id) :
    revealPost host env s author id content = .error .missingEntry := by
  obtain ⟨c, hc, rfl, htime, hhash⟩ := h.committed
  obtain ⟨post, hpost⟩ := h.stored
  have hzero : validateNonDefaultAddress "author" c.author = .ok () :=
    validateNonDefaultAddress_eq_ok.mpr hauthor
  have hauth : requireAuth env c.author = .ok () := requireAuth_eq_ok.mpr h.auth
  have hpos : requireWithError (0 < id) "post id must be positive" = .ok () :=
    requireWithError_eq_ok.mpr hid
  have hrunning : requireNotPaused s .posts = .ok () := requireNotPaused_eq_ok.mpr h.running
  have hsame : requireWithError (c.author = c.author) "only author can reveal post" = .ok () :=
    requireWithError_eq_ok.mpr rfl
  have hdue : requireWithError (c.revealTime ≤ env.timestamp) "reveal time not reached" = .ok () :=
    requireWithError_eq_ok.mpr htime
  have hmatch : requireWithError (host.sha256 content = c.contentHash) "content hash mismatch" =
      .ok () := requireWithError_eq_ok.mpr hhash
  rw [revealPost, Checked.bind_of_ok hzero, Checked.bind_of_ok hauth, Checked.bind_of_ok hpos,
    Checked.bind_of_ok hrunning, hc, expect, Checked.bind_of_ok rfl, Checked.bind_of_ok hsame,
    Checked.bind_of_ok hdue, Checked.bind_of_ok (validateContent_eq_ok.mpr h.length),
    Checked.bind_of_ok hmatch, hpost, expect, Checked.bind_of_ok rfl]
  have hgone : bump (s.posts.committedPost.remove id) id = .error .missingEntry := by
    rw [bump, Store.has_remove, if_pos rfl]
    rfl
  exact Checked.bind_of_error hgone _

/-- The error of a check is never the one of a missing entry. -/
theorem bind_missingEntry {α β : Type} {x : Except Panic α} {f : α → Except Panic β}
    (hx : Checked.Avoids (fun e => e = .missingEntry) x) (h : (x >>= f) = .error .missingEntry) :
    ∃ a, x = .ok a ∧ f a = .error .missingEntry :=
  (Checked.bind_eq_error.mp h).resolve_left fun he => hx _ he rfl

/-- A reveal that comes to the missing entry has met every guard. -/
theorem RevealAllowed.of_missingEntry
    (h : revealPost host env s author id content = .error .missingEntry) :
    RevealAllowed host env s author id content := by
  obtain ⟨_, -, h⟩ := bind_missingEntry (requireWithError_avoids nofun) h
  obtain ⟨_, hauth, h⟩ := bind_missingEntry (requireAuth_avoids nofun) h
  obtain ⟨_, -, h⟩ := bind_missingEntry (requireWithError_avoids nofun) h
  obtain ⟨_, hrunning, h⟩ := bind_missingEntry (requireNotPaused_avoids nofun nofun) h
  obtain ⟨c, hc, h⟩ := bind_missingEntry (expect_avoids nofun) h
  obtain ⟨_, hauthor, h⟩ := bind_missingEntry (requireWithError_avoids nofun) h
  obtain ⟨_, htime, h⟩ := bind_missingEntry (requireWithError_avoids nofun) h
  obtain ⟨_, hlength, h⟩ := bind_missingEntry
    (.bind (requireWithError_avoids nofun) fun _ _ => requireWithError_avoids nofun) h
  obtain ⟨_, hhash, h⟩ := bind_missingEntry (requireWithError_avoids nofun) h
  obtain ⟨post, hpost, -⟩ := bind_missingEntry (expect_avoids nofun) h
  exact ⟨requireAuth_eq_ok.mp hauth, requireNotPaused_eq_ok.mp hrunning,
    ⟨c, expect_eq_ok.mp hc, requireWithError_eq_ok.mp hauthor, requireWithError_eq_ok.mp htime,
      requireWithError_eq_ok.mp hhash⟩,
    validateContent_eq_ok.mp hlength, post, expect_eq_ok.mp hpost⟩

end Guards

/-! ## Commitments -/

section Commitments

variable {σ : Type} {host : Host σ} {env : Env} {w w' : World σ} {c : Call}

theorem insertPost_committed {s : State} {author : Address} {content : Bytes} {r : Nat × State}
    (h : insertPost env s author content = .ok r) :
    r.2.posts.committedPost = s.posts.committedPost := by
  obtain ⟨post, -, -, -, -, -, -, hr⟩ := insertPost_ok h
  rw [hr]
  rfl

/-- Only `commit_post` edits the commitments: a reveal does not return. -/
theorem exec_committed (he : exec host env w c = .ok w')
    (hcommit : ∀ author contentHash revealTime, c ≠ .commitPost author contentHash revealTime) :
    w'.store.posts.committedPost = w.store.posts.committedPost := by
  cases c with
  | commitPost author contentHash revealTime => exact absurd rfl (hcommit _ _ _)
  | createPost author content =>
    obtain ⟨r, hr, hrs⟩ := Checked.map_eq_ok.mp (World.onStore_eq_ok.mp he).1
    rw [← hrs]
    exact insertPost_committed (createPost_ok hr).2.2
  | batchCreatePost author contents =>
    obtain ⟨r, hr, hrs⟩ := Checked.map_eq_ok.mp (World.onStore_eq_ok.mp he).1
    rw [← hrs]
    refine (batchCreatePost_ok hr).2.2
      (fun b => b.2.posts.committedPost = w.store.posts.committedPost) ?_ rfl
    exact fun b content q hb hq => (insertPost_committed hq).trans hb
  | _ => exact (exec_numbering he nofun nofun nofun).2

/-- A commitment belongs to an account, and to an id that is in use. -/
theorem committed_of_reachable (h : Reachable host w) {id : Nat} {c : CommittedPost}
    (hc : w.store.posts.committedPost.get id = some c) :
    isZeroAddress c.author = false ∧ 0 < id := by
  revert id c
  refine h.store_invariant (I := fun s => ∀ {id : Nat} {c : CommittedPost},
    s.posts.committedPost.get id = some c → isZeroAddress c.author = false ∧ 0 < id) ?_ ?_
  · intro s env admin treasury feeBps hs id c hc
    obtain ⟨-, -, access, events, rfl⟩ := initializeContract_ok hs
    cases hc
  · intro w env call w' hw he id c hc
    by_cases hcommit : ∀ author contentHash revealTime,
        call ≠ .commitPost author contentHash revealTime
    · rw [exec_committed he hcommit] at hc
      exact hw hc
    · simp only [not_forall, not_not] at hcommit
      obtain ⟨author, contentHash, revealTime, rfl⟩ := hcommit
      obtain ⟨r, hr, hrs⟩ := Checked.map_eq_ok.mp (World.onStore_eq_ok.mp he).1
      obtain ⟨-, hzero, q, hq, rfl⟩ := commitPost_ok hr
      rw [← hrs] at hc
      have hc : (q.2.posts.committedPost.set q.1 _).get id = some c := hc
      rw [Store.get_set] at hc
      split at hc
      · rename_i hid
        rw [← Option.some.inj hc, hid, (insertPost_id hq).1]
        exact ⟨hzero, Nat.succ_pos _⟩
      · rw [insertPost_committed hq] at hc
        exact hw hc

end Commitments

/-! ## Contents -/

/-- A post that is held later, under an id that has been given out by now, has the content
it has now. -/
structure PostView.Reads (v v' : PostView) : Prop where
  lastId : v.posts.lastId ≤ v'.posts.lastId
  content : ∀ id post', id ≤ v.posts.lastId → v'.Holds id post' →
    ∃ post, v.Holds id post ∧ post'.content = post.content

theorem postRel_content : PostRel true fun post post' => post'.content = post.content where
  refl _ := rfl
  trans h h' := h'.trans h
  likeCount _ _ := rfl
  tipTotal _ _ _ := rfl

theorem PostView.Reads.of_run {σ : Type} {host : Host σ} {w w' : World σ}
    {acts : List (Action σ)} (hrun : Run (Step host) w acts w') :
    w.store.postView.Reads w'.store.postView := by
  obtain ⟨hlast, hholds⟩ := PostView.Carries.of_run postRel_content hrun
  exact ⟨hlast, hholds⟩

/-- An id stands for one post. -/
theorem PostsIndexed.held_unique {v : PostView} (h : PostsIndexed v) {id : Nat} {p p' : Post}
    (hp : v.Holds id p) (hp' : v.Holds id p') : p = p' := by
  rcases hp' with hstored | hremoved
  · exact h.eq_of_stored hstored hp
  · rcases hp with hstored | hremoved'
    · exact absurd rfl (h.ne_of_removed hstored hremoved)
    · exact Option.some.inj (hremoved'.symm.trans hremoved)

/-! ## Reveals -/

/-- A reveal succeeds exactly if it is allowed, and then it writes the content, drops the
commitment and changes nothing else of the posts. -/
structure RevealsIfAllowed {σ : Type} (host : Host σ) (env : Env) (w : World σ) (author : Address)
    (id : Nat) (content : Bytes) : Prop where
  succeeds_iff : (∃ w', exec host env w (.revealPost author id content) = .ok w') ↔
    RevealAllowed host env w.store author id content
  effect : ∀ w', exec host env w (.revealPost author id content) = .ok w' →
    ∃ post, w.store.posts.post.get id = some post ∧
      w'.store.posts = { w.store.posts with
        post := w.store.posts.post.set id { post with content }
        committedPost := w.store.posts.committedPost.remove id }

/-- In a reachable state a call of `reveal_post` does what it is for exactly if it is not
allowed: where every guard is met, and nowhere else, it aborts on the entry that it has
removed itself.  And whatever happens in between, a post that is stored or taken away by a
review has the content it had before. -/
theorem reveals_iff_not_allowed {σ : Type} {host : Host σ} {w : World σ} (h : Reachable host w) :
    (∀ env author id content,
      (RevealsIfAllowed host env w author id content ↔
        ¬RevealAllowed host env w.store author id content) ∧
      (exec host env w (.revealPost author id content) = .error .missingEntry ↔
        RevealAllowed host env w.store author id content)) ∧
    ∀ acts w', Run (Step host) w acts w' → ∀ id post post', w.store.postView.Holds id post →
      w'.store.postView.Holds id post' → post'.content = post.content := by
  refine ⟨fun env author id content => ⟨⟨fun hclaim hallowed => ?_, fun hnot => ⟨⟨?_, ?_⟩, ?_⟩⟩,
    ⟨fun hmissing => ?_, fun hallowed => ?_⟩⟩, fun acts w' hrun id post post' hp hp' => ?_⟩
  · obtain ⟨w', he⟩ := hclaim.succeeds_iff.mpr hallowed
    exact revealPost_ne_ok (World.onStore_eq_ok.mp he).1
  · rintro ⟨w', he⟩
    exact absurd (World.onStore_eq_ok.mp he).1 revealPost_ne_ok
  · exact fun hallowed => absurd hallowed hnot
  · exact fun w' he => absurd (World.onStore_eq_ok.mp he).1 revealPost_ne_ok
  · exact .of_missingEntry (Checked.map_eq_error.mp hmissing)
  · obtain ⟨c, hc, hauthor, -⟩ := hallowed.committed
    obtain ⟨hzero, hpos⟩ := committed_of_reachable h hc
    exact Checked.map_eq_error.mpr (hallowed.revealPost_eq (hauthor ▸ hzero) hpos)
  · have hix := PostsIndexed.of_reachable h
    obtain ⟨old, hold, hcontent⟩ :=
      (PostView.Reads.of_run hrun).content id post' (hix.known id post hp).2.1 hp'
    rw [hcontent, hix.held_unique hold hp]

/-- A post is committed, and revealed too early: the reveal is refused and changes nothing. -/
theorem reveals_iff_not_allowed_early :
    ∃ w : World Book, Reachable (bookHost linkora) w ∧
      RevealsIfAllowed (bookHost linkora) (signedAt 3) w carol 1 (asciiBytes "hello") := by
  have hdemo : (demo (fun _ _ _ => True) (fun _ _ => 0) [(signedAt 2, .commitPost carol 0 9)]).map
      (fun w => (w.store.posts.committedPost.get 1).map (·.revealTime)) = some (some 9) := by decide
  obtain ⟨w, hw, hsee⟩ := reachable_demo hdemo
  obtain ⟨c, hc, htime⟩ := Option.map_eq_some_iff.mp hsee
  refine ⟨w, hw.reachable,
    ((reveals_iff_not_allowed hw.reachable).1 (signedAt 3) carol 1 (asciiBytes "hello")).1.mpr ?_⟩
  intro hallowed
  obtain ⟨c', hc', -, hdue, -⟩ := hallowed.committed
  obtain rfl := Option.some.inj (hc.symm.trans hc')
  rw [htime] at hdue
  revert hdue
  decide

/-- The right content at the reveal time: every guard is met, and the reveal aborts. -/
theorem reveal_aborts_when_allowed :
    ¬∀ (w : World Book) (env : Env) (author : Address) (id : Nat) (content : Bytes),
      Reachable (bookHost linkora) w →
        RevealsIfAllowed (bookHost linkora) env w author id content := by
  intro hclaim
  have hdemo : (demo (fun _ _ _ => True) (fun _ _ => 0) [(signedAt 2, .commitPost carol 0 9)]).map
      (fun w => ((w.store.posts.committedPost.get 1).map fun c => (c.author, c.contentHash,
          c.revealTime), (w.store.posts.post.get 1).isSome, isPaused w.store,
        isModulePaused w.store .posts)) =
      some (some (carol, 0, 9), true, false, false) := by decide
  obtain ⟨w, hw, hsee⟩ := reachable_demo hdemo
  simp only [Prod.mk.injEq, Option.isSome_iff_exists] at hsee
  obtain ⟨hcommitted, hstored, hpaused, hmodule⟩ := hsee
  obtain ⟨c, hc, hfields⟩ := Option.map_eq_some_iff.mp hcommitted
  simp only [Prod.mk.injEq] at hfields
  obtain ⟨hauthor, hhash, htime⟩ := hfields
  have hallowed : RevealAllowed (bookHost linkora) (signedAt 9) w.store carol 1
      (asciiBytes "hello") := by
    refine ⟨by decide, ⟨hpaused, hmodule⟩, ⟨c, hc, hauthor, ?_, ?_⟩, by decide, hstored⟩
    · rw [htime]
      decide
    · rw [hhash]
      rfl
  have hreveals := hclaim w (signedAt 9) carol 1 (asciiBytes "hello") hw.reachable
  obtain ⟨w', he⟩ := hreveals.succeeds_iff.mpr hallowed
  exact revealPost_ne_ok (World.onStore_eq_ok.mp he).1

end Contract
end Linkora
