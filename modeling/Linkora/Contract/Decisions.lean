import Linkora.Contract.BlockedLikes

/-!
# Appeals against a decision

A decision of the moderators leaves a snapshot of the post and a record with the
deadline for an appeal.  All that is kept of a decision is keyed by the post alone,
and the appeal, unlike the other two, is never cleared.  The docket of a post is what
is stored about it; a call leaves it alone or takes one of four steps on it.
-/

namespace Linkora
namespace Contract

/-- What is stored about the decision on one post. -/
structure Docket where
  removed : Option Post
  record : Option ModerationRecord
  appeal : Option Appeal

def State.docket (s : State) (id : Nat) : Docket :=
  ⟨s.appeals.removedPost.get id, s.appeals.moderationRecord.get id, s.appeals.appeal.get id⟩

/-- The call files an appeal for the post. -/
def Call.filesAppeal (id : Nat) : Call → Bool
  | .appealModeration _ postId _ => postId == id
  | _ => false

/-- What a call does to the docket of one post. -/
inductive DocketStep (s : State) (id : Nat) : Call → Docket → Prop where
  | keep {c : Call} (silent : c.filesAppeal id = false) : DocketStep s id c (s.docket id)
  | remove {moderator : Address} {signers : List Address} {reporter : Address} (post : Post)
      (record : ModerationRecord) (stored : s.posts.post.get id = some post) :
      DocketStep s id (.reviewReport moderator signers id reporter .upheld)
        ⟨some post, some record, s.appeals.appeal.get id⟩
  | file {appellant : Address} {reasonHash : Bytes32} (filedLedger : Nat)
      (unfiled : s.appeals.appeal.get id = none) :
      DocketStep s id (.appealModeration appellant id reasonHash)
        { s.docket id with
          appeal := some ⟨id, appellant, reasonHash, filedLedger, .pending, [], []⟩ }
  | approve {reviewer : Address} {approve : Bool} (pool : Pool) (appeal : Appeal)
      (listed : s.pools.get modsPool = some pool) (admin : reviewer ∈ pool.admins)
      (filed : s.appeals.appeal.get id = some appeal) (pending : appeal.status = .pending)
      (reached : pool.threshold ≤ (recordReview appeal reviewer approve).approvers.length) :
      DocketStep s id (.reviewAppeal reviewer id approve)
        ⟨none, none, some { recordReview appeal reviewer approve with status := .approved }⟩
  | tally {reviewer : Address} {approve : Bool} (pool : Pool) (appeal : Appeal)
      (status : AppealStatus) (listed : s.pools.get modsPool = some pool)
      (admin : reviewer ∈ pool.admins) (filed : s.appeals.appeal.get id = some appeal)
      (pending : appeal.status = .pending) (undecided : status ≠ .approved) :
      DocketStep s id (.reviewAppeal reviewer id approve)
        { s.docket id with appeal := some { recordReview appeal reviewer approve with status } }

theorem recordReview_status (appeal : Appeal) (reviewer : Address) (approve : Bool) :
    (recordReview appeal reviewer approve).status = appeal.status := by
  unfold recordReview
  split
  · split
    · rfl
    · rfl
  · split
    · rfl
    · rfl

/-- The approvers after a vote are distinct if they were before, and whoever is new
among them has cast it in favour. -/
theorem recordReview_approvers (appeal : Appeal) (reviewer : Address) (approve : Bool) :
    (appeal.approvers.Nodup → (recordReview appeal reviewer approve).approvers.Nodup) ∧
      ∀ a ∈ (recordReview appeal reviewer approve).approvers,
        a ∈ appeal.approvers ∨ (a = reviewer ∧ approve = true) := by
  unfold recordReview
  split
  · rename_i happrove
    split
    · exact ⟨id, fun a ha => Or.inl ha⟩
    · rename_i hnew
      constructor
      · intro hnodup
        refine List.nodup_append.mpr ⟨hnodup, List.nodup_singleton _, ?_⟩
        intro a ha b hb e
        rw [List.mem_singleton.mp hb] at e
        exact hnew (e ▸ ha)
      · intro a ha
        rcases List.mem_append.mp ha with ha | ha
        · exact Or.inl ha
        · exact Or.inr ⟨List.mem_singleton.mp ha, happrove⟩
  · split
    · exact ⟨id, fun a ha => Or.inl ha⟩
    · exact ⟨id, fun a ha => Or.inl ha⟩

section Calls

variable {σ : Type} {host : Host σ} {env : Env} {w w' : World σ} {c : Call}

theorem reviewAppeal_docket {s s' : State} {reviewer : Address} {postId : Nat} {approve : Bool}
    (h : reviewAppeal env s reviewer postId approve = .ok s') (id : Nat) :
    DocketStep s id (.reviewAppeal reviewer postId approve) (s'.docket id) := by
  obtain ⟨-, pool, appeal, hpool, hadmin, happeal, hpending, rfl⟩ := reviewAppeal_eq h
  by_cases hid : id = postId
  · subst hid
    unfold settleAppeal
    split
    · rename_i hreached
      have hdocket := DocketStep.approve pool appeal hpool hadmin happeal hpending hreached
      simpa [State.docket, restoreModeratedPost, State.publish] using hdocket
    · have hrecord : ∀ status : AppealStatus, status ≠ .approved →
          DocketStep s id (.reviewAppeal reviewer id approve) { s.docket id with
            appeal := some { recordReview appeal reviewer approve with status } } :=
        fun status => DocketStep.tally pool appeal status hpool hadmin happeal hpending
      split
      · simpa [State.docket, State.publish] using hrecord .rejected (by decide)
      · have hsame := hrecord (recordReview appeal reviewer approve).status
          (by rw [recordReview_status, hpending]; decide)
        simpa [State.docket] using hsame
  · have hsame : ∀ s' : State, s'.docket id = s.docket id →
        DocketStep s id (.reviewAppeal reviewer postId approve) (s'.docket id) := by
      intro s' hs
      rw [hs]
      exact .keep rfl
    refine hsame _ ?_
    unfold settleAppeal
    split
    · simp [State.docket, restoreModeratedPost, State.publish, Store.get_remove_of_ne hid,
        Store.get_set_of_ne hid]
    · split
      · simp [State.docket, State.publish, Store.get_set_of_ne hid]
      · simp [State.docket, Store.get_set_of_ne hid]

theorem exec_docket (he : exec host env w c = .ok w') (id : Nat) :
    DocketStep w.store id c (w'.store.docket id) := by
  cases c with
  | reviewAppeal reviewer postId approve =>
    exact reviewAppeal_docket (World.onStore_eq_ok.mp he).1 id
  | appealModeration appellant postId reasonHash =>
    obtain ⟨-, -, -, record, -, removed, -, -, -, hfree, hs⟩ :=
      appealModeration_eq_ok.mp (World.onStore_eq_ok.mp he).1
    rw [Store.has_eq_false_iff] at hfree
    rw [← hs]
    by_cases hid : id = postId
    · subst hid
      have hdocket : DocketStep w.store id (.appealModeration appellant id reasonHash) _ :=
        .file env.sequence hfree
      simpa [State.docket, State.publish] using hdocket
    · have hkeep : DocketStep w.store id (.appealModeration appellant postId reasonHash)
          (w.store.docket id) := .keep (beq_eq_false_iff_ne.mpr (Ne.symm hid))
      simpa [State.docket, State.publish, Store.get_set_of_ne hid] using hkeep
  | reviewReport moderator signers postId reporter verdict =>
    obtain ⟨-, pool, report, v, -, -, -, -, hv, rfl⟩ := reviewReport_ok he
    obtain ⟨posts, appeals, events, hs, hcase⟩ := resolveReport_store hv
    have hdocket : DocketStep w.store id (.reviewReport moderator signers postId reporter verdict)
        ⟨appeals.removedPost.get id, appeals.moderationRecord.get id, appeals.appeal.get id⟩ := by
      rcases hcase with ⟨-, -, rfl⟩ | ⟨post, rfl, hpost, -, rfl⟩
      · exact .keep rfl
      · by_cases hid : id = postId
        · subst hid
          simpa [removePost] using DocketStep.remove post _ hpost
        · simpa [removePost, State.docket, Store.get_set_of_ne hid] using DocketStep.keep rfl
    show DocketStep _ _ _ (v.store.docket id)
    rw [hs]
    exact hdocket
  | _ =>
    have happeals : w'.store.appeals = w.store.appeals :=
      exec_frame (p := .appeals) he (by simp [Call.parts])
    rw [State.docket, happeals]
    exact .keep rfl

/-- An upheld report on a stored post opens the docket. -/
theorem reviewReport_docket {moderator reporter : Address} {signers : List Address} {id : Nat}
    {post : Post}
    (h : reviewReport host env w moderator signers id reporter .upheld = .ok w')
    (stored : w.store.posts.post.get id = some post) :
    ∃ record, w'.store.docket id = ⟨some post, some record, w.store.appeals.appeal.get id⟩ := by
  obtain ⟨-, pool, report, v, -, -, -, -, hv, rfl⟩ := reviewReport_ok h
  obtain ⟨posts, appeals, events, hs, hcase⟩ := resolveReport_store hv
  rcases hcase with ⟨hnot, -, -⟩ | ⟨taken, -, htaken, -, rfl⟩
  · exact absurd ⟨rfl, Store.has_of_get stored⟩ hnot
  · rw [stored, Option.some.injEq] at htaken
    subst htaken
    refine ⟨⟨id, report.reporter, env.sequence,
      min (env.sequence + APPEAL_WINDOW_LEDGERS) U32_MAX⟩, ?_⟩
    show v.store.docket id = _
    rw [hs]
    simp only [State.docket, removePost, Store.get_set_self]

/-- A post of which there is a snapshot is stored again by a vote that completes the
approvals, and by nothing else. -/
theorem exec_restores (hix : PostsIndexed w.store.postView) (he : exec host env w c = .ok w')
    {id : Nat} {post q : Post} (hsnap : w.store.appeals.removedPost.get id = some post)
    (hq : w'.store.posts.post.get id = some q) :
    q = post ∧ ∃ reviewer approve pool appeal, c = .reviewAppeal reviewer id approve ∧
      w.store.pools.get modsPool = some pool ∧ reviewer ∈ pool.admins ∧
      w.store.appeals.appeal.get id = some appeal ∧
      pool.threshold ≤ (recordReview appeal reviewer approve).approvers.length := by
  have hnone : w.store.posts.post.get id = none := hix.removed id post hsnap
  have hle : id ≤ w.store.posts.lastId := (hix.known id post (Or.inr hsnap)).2.1
  by_cases hc : ∃ reviewer i approve, c = .reviewAppeal reviewer i approve
  · obtain ⟨reviewer, i, approve, rfl⟩ := hc
    have hreview := (World.onStore_eq_ok.mp he).1
    obtain ⟨-, pool, appeal, hpool, hadmin, happeal, -, -⟩ := reviewAppeal_eq hreview
    rcases reviewAppeal_stored hreview hq with hstored | hback
    · rw [hnone] at hstored
      cases hstored
    · rw [restored, hpool, happeal] at hback
      have hback : (if pool.threshold ≤ (recordReview appeal reviewer approve).approvers.length then
          (w.store.appeals.removedPost.get i).map fun post => (i, post) else none) = some (id, q) :=
        hback
      split at hback
      · rename_i hreached
        obtain ⟨snap, hget, hpair⟩ := Option.map_eq_some_iff.mp hback
        obtain ⟨rfl, rfl⟩ := Prod.mk.inj hpair
        rw [hsnap, Option.some.injEq] at hget
        exact ⟨hget.symm, reviewer, approve, pool, appeal, rfl, hpool, hadmin, happeal, hreached⟩
      · cases hback
  · have hne : ∀ reviewer i approve, c ≠ .reviewAppeal reviewer i approve :=
      fun reviewer i approve e => hc ⟨reviewer, i, approve, e⟩
    rcases exec_stored hix he hne hq with ⟨old, hold, -⟩ | hlt
    · rw [hnone] at hold
      cases hold
    · omega

end Calls

/-! ## What follows a decision -/

section Decision

variable {σ : Type}

/-- The action files an appeal for the post. -/
def Action.filesAppeal (id : Nat) : Action σ → Bool
  | .call _ c => c.filesAppeal id
  | .others _ => false

/-- Among the actions is a vote by `a` in favour of an appeal for the post, cast while
`a` was an admin of the `mods` pool. -/
def Approved (host : Host σ) (w : World σ) (acts : List (Action σ)) (id : Nat) (a : Address) :
    Prop :=
  ∃ before env after v pool, acts = before ++ .call env (.reviewAppeal a id true) :: after ∧
    Run (Step host) w before v ∧ v.store.pools.get modsPool = some pool ∧ a ∈ pool.admins

variable {host : Host σ} {w v : World σ} {acts : List (Action σ)} {id : Nat} {a : Address}

theorem Approved.append (h : Approved host w acts id a) (more : List (Action σ)) :
    Approved host w (acts ++ more) id a := by
  obtain ⟨before, env, after, v, pool, rfl, hrun, hpool, hadmin⟩ := h
  refine ⟨before, env, after ++ more, v, pool, ?_, hrun, hpool, hadmin⟩
  rw [List.append_assoc, List.cons_append]

/-- The votes in favour after one more: each is in the run. -/
theorem Approved.recordReview {appeal : Appeal} {reviewer : Address} {approve : Bool} {env : Env}
    {pool : Pool} (h : ∀ a ∈ appeal.approvers, Approved host w acts id a)
    (hrun : Run (Step host) w acts v) (hpool : v.store.pools.get modsPool = some pool)
    (hadmin : reviewer ∈ pool.admins) :
    ∀ a ∈ (recordReview appeal reviewer approve).approvers,
      Approved host w (acts ++ [.call env (.reviewAppeal reviewer id approve)]) id a := by
  intro a ha
  rcases (recordReview_approvers appeal reviewer approve).2 a ha with ha | ⟨rfl, rfl⟩
  · exact (h a ha).append _
  · exact ⟨acts, env, [], v, pool, rfl, hrun, hpool, hadmin⟩

/-- Where an appeal against the decision stands after some actions. -/
inductive Pendency (host : Host σ) (w : World σ) (acts : List (Action σ)) (id : Nat) (post : Post)
    (record : ModerationRecord) : Docket → Prop where
  | unfiled (unfiled : acts.countP (Action.filesAppeal id) = 0) :
      Pendency host w acts id post record ⟨some post, some record, none⟩
  | filed (appeal : Appeal) (one : acts.countP (Action.filesAppeal id) = 1)
      (undecided : appeal.status ≠ .approved) (nodup : appeal.approvers.Nodup)
      (approved : ∀ a ∈ appeal.approvers, Approved host w acts id a) :
      Pendency host w acts id post record ⟨some post, some record, some appeal⟩
  | approved (removed : Option Post) (opened : Option ModerationRecord) (appeal : Appeal)
      (one : acts.countP (Action.filesAppeal id) = 1) (decided : appeal.status = .approved) :
      Pendency host w acts id post record ⟨removed, opened, some appeal⟩

theorem Pendency.silent {post : Post} {record : ModerationRecord} {d : Docket} {l : Action σ}
    (h : Pendency host w acts id post record d) (hl : l.filesAppeal id = false) :
    Pendency host w (acts ++ [l]) id post record d := by
  have hcount : (acts ++ [l]).countP (Action.filesAppeal id) =
      acts.countP (Action.filesAppeal id) := by
    rw [List.countP_append, List.countP_singleton, hl]
    rfl
  cases h with
  | unfiled hnone => exact .unfiled (hcount.trans hnone)
  | filed appeal hone hundecided hnodup happroved =>
    exact .filed appeal (hcount.trans hone) hundecided hnodup fun a ha => (happroved a ha).append _
  | approved removed opened appeal hone hdecided =>
    exact .approved removed opened appeal (hcount.trans hone) hdecided

theorem Pendency.call {post : Post} {record : ModerationRecord} {v' : World σ} {env : Env}
    {c : Call} (h : Pendency host w acts id post record (v.store.docket id))
    (hrun : Run (Step host) w acts v) (hix : PostsIndexed v.store.postView)
    (he : exec host env v c = .ok v') :
    Pendency host w (acts ++ [.call env c]) id post record (v'.store.docket id) := by
  have hstep := exec_docket he id
  generalize v'.store.docket id = d' at hstep ⊢
  generalize hd : v.store.docket id = d at h
  cases hstep with
  | keep silent =>
    rw [hd]
    exact h.silent silent
  | remove post' record' stored =>
    -- A post that is stored has no snapshot, so the appeal has been approved before.
    have hnone : v.store.appeals.removedPost.get id ≠ some post :=
      fun hsnap => hix.ne_of_removed stored hsnap rfl
    cases h with
    | unfiled => exact absurd (congrArg Docket.removed hd) hnone
    | filed => exact absurd (congrArg Docket.removed hd) hnone
    | approved removed opened appeal hone hdecided =>
      have hget : v.store.appeals.appeal.get id = some appeal := congrArg Docket.appeal hd
      rw [hget]
      exact (Pendency.approved _ _ appeal hone hdecided).silent rfl
  | @file appellant reasonHash filedLedger unfiled =>
    cases h with
    | unfiled hnone =>
      rw [hd]
      refine .filed _ ?_ nofun List.nodup_nil nofun
      have hfiles : Action.filesAppeal id (.call env (.appealModeration appellant id reasonHash) :
          Action σ) = true := beq_self_eq_true id
      rw [List.countP_append, List.countP_singleton, hfiles, hnone]
      rfl
    | filed | approved =>
      have hget := congrArg Docket.appeal hd
      exact absurd (unfiled.symm.trans hget) nofun
  | approve pool appeal listed admin filed pending reached =>
    have hget := filed.symm.trans (congrArg Docket.appeal hd)
    cases h with
    | unfiled => cases hget
    | filed appeal' hone hundecided hnodup happroved =>
      exact (Pendency.approved none none _ hone rfl).silent rfl
    | approved removed opened appeal' hone hdecided =>
      rw [Option.some.injEq] at hget
      rw [hget, hdecided] at pending
      cases pending
  | tally pool appeal status listed admin filed pending undecided =>
    have hget := filed.symm.trans (congrArg Docket.appeal hd)
    cases h with
    | unfiled => cases hget
    | filed appeal' hone hundecided hnodup happroved =>
      rw [Option.some.injEq] at hget
      subst hget
      rw [hd]
      refine .filed _ ?_ undecided ((recordReview_approvers _ _ _).1 hnodup) ?_
      · rw [List.countP_append, hone]
        rfl
      · exact Approved.recordReview happroved hrun listed admin
    | approved removed opened appeal' hone hdecided =>
      rw [Option.some.injEq] at hget
      rw [hget, hdecided] at pending
      cases pending

theorem Pendency.of_run {post : Post} {record : ModerationRecord} (hw : Reachable host w)
    (hd : w.store.docket id = ⟨some post, some record, none⟩)
    (hrun : Run (Step host) w acts v) :
    Pendency host w acts id post record (v.store.docket id) := by
  induction hrun with
  | nil =>
    rw [hd]
    exact .unfiled rfl
  | @snoc acts v v' l hrun hstep ih =>
    cases hstep with
    | call he => exact ih.call hrun (.of_reachable (hw.run hrun)) he
    | others => exact ih.silent rfl

/-- The decision that has just taken `post` away can be appealed by its author, at any
ledger up to the deadline and once in all; and a call that changes the post while the
appeal is pending puts the snapshot back, with the approval of as many distinct
admins of the `mods` pool as its threshold asks for. -/
structure Appealable (host : Host σ) (w : World σ) (id : Nat) (post : Post) : Prop where
  file : ∃ record, w.store.appeals.moderationRecord.get id = some record ∧
    ∀ acts v env reasonHash, Run (Step host) w acts v → acts.countP (Action.filesAppeal id) = 0 →
      env.auth post.author = true → env.sequence ≤ record.appealDeadline →
      ∃ v', exec host env v (.appealModeration post.author id reasonHash) = .ok v'
  once : ∀ acts v, Run (Step host) w acts v → acts.countP (Action.filesAppeal id) ≤ 1
  restore : ∀ acts v env c v' appeal, Run (Step host) w acts v →
    v.store.appeals.appeal.get id = some appeal → appeal.status = .pending →
    exec host env v c = .ok v' → v'.store.posts.post.get id ≠ v.store.posts.post.get id →
    v'.store.posts.post.get id = some post ∧
      ∃ (pool : Pool) (approvers : List Address), v.store.pools.get modsPool = some pool ∧
        pool.threshold ≤ approvers.length ∧ approvers.Nodup ∧
        ∀ a ∈ approvers, Approved host w (acts ++ [.call env c]) id a

theorem Appealable.of_docket {post : Post} {record : ModerationRecord} (hw : Reachable host w)
    (hd : w.store.docket id = ⟨some post, some record, none⟩) : Appealable host w id post where
  file := by
    refine ⟨record, congrArg Docket.record hd, ?_⟩
    intro acts v env reasonHash hrun hcount hauth hdue
    have hpend := Pendency.of_run hw hd hrun
    generalize hv : v.store.docket id = d at hpend
    cases hpend with
    | unfiled =>
      have hix := PostsIndexed.of_reachable (hw.run hrun)
      have hsnap : v.store.appeals.removedPost.get id = some post := congrArg Docket.removed hv
      obtain ⟨hpos, -, -, hzero⟩ := hix.known id post (Or.inr hsnap)
      have hfile : ∃ s', appealModeration env v.store post.author id reasonHash = .ok s' :=
        ⟨_, appealModeration_eq_ok.mpr ⟨hauth, hzero, hpos, record, congrArg Docket.record hv,
          post, hsnap, rfl, hdue, Store.has_eq_false_iff.mpr (congrArg Docket.appeal hv), rfl⟩⟩
      obtain ⟨s', hs'⟩ := hfile
      exact ⟨⟨s', v.tokens⟩, World.onStore_eq_ok.mpr ⟨hs', rfl⟩⟩
    | filed appeal hone => omega
    | approved removed opened appeal hone => omega
  once := by
    intro acts v hrun
    have hpend := Pendency.of_run hw hd hrun
    generalize v.store.docket id = d at hpend
    cases hpend with
    | unfiled hnone => omega
    | filed appeal hone => omega
    | approved removed opened appeal hone => omega
  restore := by
    intro acts v env c v' appeal hrun happeal hpending he hchanged
    have hpend := Pendency.of_run hw hd hrun
    have hix := PostsIndexed.of_reachable (hw.run hrun)
    generalize hv : v.store.docket id = d at hpend
    have hget := happeal.symm.trans (congrArg Docket.appeal hv)
    cases hpend with
    | unfiled => cases hget
    | approved removed opened appeal' hone hdecided =>
      rw [Option.some.injEq] at hget
      rw [hget, hdecided] at hpending
      cases hpending
    | filed appeal' hone hundecided hnodup happroved =>
      rw [Option.some.injEq] at hget
      subst hget
      have hsnap : v.store.appeals.removedPost.get id = some post := congrArg Docket.removed hv
      have hnone : v.store.posts.post.get id = none := hix.removed id post hsnap
      rw [hnone, Option.ne_none_iff_exists'] at hchanged
      obtain ⟨q, hq⟩ := hchanged
      obtain ⟨rfl, reviewer, approve, pool, filed, rfl, hpool, hadmin, hfiled, hreached⟩ :=
        exec_restores hix he hsnap hq
      rw [happeal, Option.some.injEq] at hfiled
      subst hfiled
      exact ⟨hq, pool, _, hpool, hreached, (recordReview_approvers _ _ _).1 hnodup,
        Approved.recordReview happroved hrun hpool hadmin⟩

/-- A decision that takes a stored post away can be appealed, once and with the effect
the threshold asks for, exactly when no appeal for the post has been filed before. -/
theorem decision_appealable_iff {w w₁ : World σ} {env : Env} {moderator reporter : Address}
    {signers : List Address} {id : Nat} {post : Post} (h : Reachable host w)
    (stored : w.store.posts.post.get id = some post)
    (he : exec host env w (.reviewReport moderator signers id reporter .upheld) = .ok w₁) :
    Appealable host w₁ id post ↔ w.store.appeals.appeal.has id = false := by
  obtain ⟨record, hd⟩ := reviewReport_docket he stored
  rw [Store.has_eq_false_iff]
  constructor
  · intro hfair
    -- The author could file at once.
    obtain ⟨record', hrecord, hfile⟩ := hfair.file
    obtain ⟨v, hv⟩ := hfile [] w₁ ⟨0, 0, fun _ => true⟩ 0 .nil rfl rfl (Nat.zero_le _)
    obtain ⟨-, -, -, -, -, -, -, -, -, hfree, -⟩ :=
      appealModeration_eq_ok.mp (World.onStore_eq_ok.mp hv).1
    rw [Store.has_eq_false_iff] at hfree
    exact (congrArg Docket.appeal hd).symm.trans hfree
  · intro hnone
    rw [hnone] at hd
    exact .of_docket (h.run (.single (.call he))) hd

end Decision

/-- The first decision on a post of `carol`'s. -/
theorem decision_appealable_first :
    ∃ (w w₁ : World Book) (env : Env) (post : Post), Reachable (bookHost linkora) w ∧
      w.store.posts.post.get 1 = some post ∧
      exec (bookHost linkora) env w (.reviewReport alice [alice] 1 bob .upheld) = .ok w₁ ∧
      Appealable (bookHost linkora) w₁ 1 post := by
  have hdemo : demoAround (fun _ _ _ => True) (fun _ _ => 100) (takedown.take 4)
      (signedAt 6, .reviewReport alice [alice] 1 bob .upheld) []
      (fun w _ _ => (w.store.posts.post.has 1, w.store.appeals.appeal.has 1)) =
      some (true, false) := by rfl
  obtain ⟨w, w₁, -, hw, he, -, hsee⟩ := run_demoAround hdemo
  obtain ⟨hhas, hfree⟩ := Prod.mk.inj hsee
  obtain ⟨post, hpost⟩ := Store.has_iff_exists.mp hhas
  exact ⟨w, w₁, _, post, hw, hpost, he, (decision_appealable_iff hw hpost he).mpr hfree⟩

/-- A post of `carol`'s comes back from an appeal and is taken away a second time, on a
report by `alice`: `carol` cannot appeal again. -/
theorem second_decision_not_appealable :
    ¬∀ (w w₁ : World Book) (env : Env) (moderator reporter : Address) (signers : List Address)
      (id : Nat) (post : Post), Reachable (bookHost linkora) w →
      w.store.posts.post.get id = some post →
      exec (bookHost linkora) env w (.reviewReport moderator signers id reporter .upheld) = .ok w₁ →
      Appealable (bookHost linkora) w₁ id post := by
  intro hclaim
  have hdemo : demoAround (fun _ _ _ => True) (fun _ _ => 100)
      (takedown ++ [(signedAt 7, .appealModeration carol 1 0),
        (signedAt 8, .reviewAppeal alice 1 true), (signedAt 9, .reportPost alice 1 coin 20 0)])
      (signedAt 10, .reviewReport alice [alice] 1 alice .upheld) []
      (fun w w₁ _ => ((w.store.posts.post.get 1).map (·.author),
        (w₁.store.appeals.moderationRecord.get 1).map (·.appealDeadline),
        w₁.store.appeals.appeal.has 1)) =
      some (some carol, some (min (10 + APPEAL_WINDOW_LEDGERS) U32_MAX), true) := by rfl
  obtain ⟨w, w₁, -, hw, he, -, hsee⟩ := run_demoAround hdemo
  simp only [Prod.mk.injEq] at hsee
  obtain ⟨hauthor, hdue, hfiled⟩ := hsee
  obtain ⟨post, hpost, hauthor⟩ := Option.map_eq_some_iff.mp hauthor
  obtain ⟨record, hrecord, hdue⟩ := Option.map_eq_some_iff.mp hdue
  obtain ⟨record', hrecord', hfile⟩ := (hclaim w w₁ _ _ _ _ 1 post hw hpost he).file
  rw [hrecord, Option.some.injEq] at hrecord'
  subst hrecord'
  have hauth : (signedAt 11).auth post.author = true := by
    rw [hauthor]
    rfl
  have hdue : 11 ≤ record.appealDeadline := by
    rw [hdue]
    decide
  obtain ⟨v, hv⟩ := hfile [] w₁ (signedAt 11) 0 .nil rfl hauth hdue
  obtain ⟨-, -, -, -, -, -, -, -, -, hfree, -⟩ :=
    appealModeration_eq_ok.mp (World.onStore_eq_ok.mp hv).1
  rw [hfiled] at hfree
  cases hfree

end Contract
end Linkora
