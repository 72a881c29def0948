import Linkora.Contract.Registration

/-!
# What the cleanups reach

The permissionless cleanups work through the lists of a removed post or user from
the end, each entry counted against the allowance of the call.  This module says
which reports a cleanup can take away, in terms of the state it starts from, and
from that what a call can do to the reports at all.
-/

namespace Linkora
namespace Contract
namespace Graph

/-! ## Nobody follows themselves

The two graph loops of `batch_cleanup_profile` run one after the other, and the
first would shorten the list of the second if the user were its own follower. -/

/-- No follower list names its owner, and there is no legacy list to migrate. -/
structure Loopless (g : Graph) : Prop where
  followers : g.followers.Within fun x v => v ≠ x
  legacyFollowing : ∀ user, g.legacyFollowing.get user = none
  legacyFollowers : ∀ user, g.legacyFollowers.get user = none

variable {g g' : Graph} {a b user : Address}

namespace Loopless

theorem link (h : g.Loopless) (hne : a ≠ b) (hok : g.link a b = .ok g') : g'.Loopless := by
  rcases link_cases hok with ⟨-, rfl⟩ | ⟨-, hok⟩
  · exact h
  · obtain rfl := addEdge_ok hok
    exact ⟨h.followers.append hne, h.legacyFollowing, h.legacyFollowers⟩

theorem unlink (h : g.Loopless) (hok : g.unlink a b = .ok g') : g'.Loopless := by
  rcases unlink_cases hok with ⟨-, rfl⟩ | ⟨-, ix, ix', -, hix', rfl⟩
  · exact h
  · exact ⟨h.followers.swapRemove hix', h.legacyFollowing, h.legacyFollowers⟩

theorem cleanupFollowOnBlock (h : g.Loopless) (hok : g.cleanupFollowOnBlock a b = .ok g') :
    g'.Loopless := by
  simp only [Graph.cleanupFollowOnBlock, Checked.bind_eq_ok] at hok
  obtain ⟨g₁, hg₁, hok⟩ := hok
  exact (h.unlink hg₁).unlink hok

/-- Without legacy lists a migration sets flags and no more. -/
theorem migrateUser_eq (h : g.Loopless) (hok : g.migrateUser user = .ok g') :
    ∃ graphMigrated, g' = { g with graphMigrated } := by
  have hfollowing : g.migrateFollowingList user = .ok g := by
    rw [migrateFollowingList, h.legacyFollowing user]
  have hfollowers : g.migrateFollowersList user = .ok g := by
    rw [migrateFollowersList, h.legacyFollowers user]
  rw [Graph.migrateUser] at hok
  split at hok
  · rw [Except.ok.injEq] at hok
    exact ⟨g.graphMigrated, hok.symm⟩
  · simp only [Checked.bind_eq_ok, Checked.pure_eq_ok] at hok
    obtain ⟨g₁, hg₁, g₂, hg₂, rfl⟩ := hok
    obtain rfl := Except.ok.inj (hfollowing.symm.trans hg₁)
    obtain rfl := Except.ok.inj (hfollowers.symm.trans hg₂)
    exact ⟨_, rfl⟩

theorem migrateUser (h : g.Loopless) (hok : g.migrateUser user = .ok g') : g'.Loopless := by
  obtain ⟨graphMigrated, rfl⟩ := h.migrateUser_eq hok
  exact ⟨h.followers, h.legacyFollowing, h.legacyFollowers⟩

theorem cleanupFollower {count : Nat} (h : g.Loopless)
    (hok : Graph.cleanupFollower user count g = .ok g') :
    g'.Loopless ∧ g'.following.size user = g.following.size user := by
  simp only [Graph.cleanupFollower, Checked.bind_eq_ok, Checked.pure_eq_ok] at hok
  obtain ⟨g₁, hg₁, rfl⟩ := hok
  rcases detachFollower_ok hg₁ with ⟨-, rfl⟩ | ⟨follower, ix, hslot, hix, rfl⟩
  · exact ⟨⟨h.followers.of_remove rfl, h.legacyFollowing, h.legacyFollowers⟩, rfl⟩
  · have hne : user ≠ follower := (h.followers user count follower hslot).symm
    exact ⟨⟨h.followers.of_remove rfl, h.legacyFollowing, h.legacyFollowers⟩,
      (Index.swapRemove_agreeAt hne hix).size_eq⟩

theorem cleanupFollowing {count : Nat} (h : g.Loopless)
    (hok : Graph.cleanupFollowing user count g = .ok g') : g'.Loopless := by
  simp only [Graph.cleanupFollowing, Checked.bind_eq_ok, Checked.pure_eq_ok] at hok
  obtain ⟨g₁, hg₁, rfl⟩ := hok
  rcases detachFollowee_ok hg₁ with ⟨-, rfl⟩ | ⟨followee, ix, -, hix, rfl⟩
  · exact ⟨h.followers, h.legacyFollowing, h.legacyFollowers⟩
  · exact ⟨h.followers.swapRemove hix, h.legacyFollowing, h.legacyFollowers⟩

/-- The two loops together use up as much of the allowance as the two lists are
long. -/
theorem cleanupUser (h : g.Loopless) {maxEntries : Nat} {r : Nat × Nat × Nat × Graph}
    (hok : g.cleanupUser user maxEntries = .ok r) :
    r.2.2.2.Loopless ∧
      r.2.2.1 = maxEntries - g.followers.size user - g.following.size user := by
  simp only [Graph.cleanupUser, Checked.bind_eq_ok, Checked.pure_eq_ok] at hok
  obtain ⟨⟨fCount, left, g₁⟩, hr₁, ⟨followingCount, left', g₂⟩, hr₂, rfl⟩ := hok
  have h₁ : g₁.Loopless ∧ g₁.following.size user = g.following.size user := by
    refine Checked.drain_invariant (P := fun _ (b : Graph) =>
      b.Loopless ∧ b.following.size user = g.following.size user) ?_ ⟨h, rfl⟩ hr₁
    rintro count b b' ⟨hb, hsize⟩ hb'
    obtain ⟨hloop, hkeep⟩ := hb.cleanupFollower hb'
    exact ⟨hloop, hkeep.trans hsize⟩
  have h₁' : (g₁.setFollowersCount user fCount).Loopless :=
    ⟨h₁.1.followers, h₁.1.legacyFollowing, h₁.1.legacyFollowers⟩
  have h₂ : g₂.Loopless := Checked.drain_invariant (P := fun _ (b : Graph) => b.Loopless)
    (fun count b b' hb hb' => hb.cleanupFollowing hb') h₁' hr₂
  have hc₁ := Checked.drain_counters hr₁
  have hc₂ := Checked.drain_counters hr₂
  have hsize : (g₁.setFollowersCount user fCount).following.size user =
      g.following.size user := h₁.2
  refine ⟨⟨h₂.followers, h₂.legacyFollowing, h₂.legacyFollowers⟩, ?_⟩
  show left' = _
  rw [hsize] at hc₂
  dsimp only at hc₁ hc₂
  omega

theorem of_reachable {σ : Type} {host : Host σ} {w : World σ} (h : Reachable host w) :
    w.store.graph.Loopless := by
  refine h.store_invariant (I := fun s => s.graph.Loopless) ?_ ?_
  · intro s env admin treasury feeBps hs
    obtain ⟨-, -, access, events, rfl⟩ := initializeContract_ok hs
    exact ⟨.empty, fun _ => rfl, fun _ => rfl⟩
  · intro w env c w' hw he
    cases exec_graphStep he with
    | same hg => exact hg ▸ hw
    | link a b hne hg => exact hw.link hne hg
    | unlink a b hg => exact hw.unlink hg
    | block a b hg => exact hw.cleanupFollowOnBlock hg
    | migrate users hg =>
      exact Checked.foldlM_invariant (fun _ _ _ _ hb hb' => hb.migrateUser hb') hw hg
    | cleanup user maxEntries r hloop hg => exact hg ▸ (hw.cleanupUser hloop).1
    | register user username creatorToken hcall hfresh hg =>
      exact hg ▸ ⟨hw.followers, hw.legacyFollowing, hw.legacyFollowers⟩

end Loopless
end Graph

/-! ## Pruned reports -/

namespace Reports

/-- `r'` is `r` less some entries, and every report that is gone is in `S`. -/
structure Pruned (r r' : Reports) (S : Nat × Address → Prop) : Prop where
  report : ∀ key, r'.report.get key = r.report.get key ∨ (r'.report.get key = none ∧ S key)
  idx : ∀ slot v, r'.reportersIdx.get slot = some v → r.reportersIdx.get slot = some v
  count : ∀ postId n, r'.reportCount.get postId = some n → r.reportCount.get postId = some n

/-- A slot of the post, from slot `first` on, names the reporter. -/
def Listed (r : Reports) (first : Nat) (key : Nat × Address) : Prop :=
  ∃ i, first ≤ i ∧ i < (r.reportCount.get key.1).getD 0 ∧
    r.reportersIdx.get (key.1, i) = some key.2

variable {r r' r'' : Reports} {S S' : Nat × Address → Prop}

namespace Pruned

theorem refl (r : Reports) (S : Nat × Address → Prop) : Pruned r r S :=
  ⟨fun _ => Or.inl rfl, fun _ _ h => h, fun _ _ h => h⟩

theorem trans (h : Pruned r r' S) (h' : Pruned r' r'' S') (hS : ∀ key, S' key → S key) :
    Pruned r r'' S where
  report key := by
    rcases h'.report key with hk | ⟨hk, hS'⟩
    · rw [hk]
      exact h.report key
    · exact Or.inr ⟨hk, hS key hS'⟩
  idx slot v hv := h.idx slot v (h'.idx slot v hv)
  count postId n hn := h.count postId n (h'.count postId n hn)

theorem mono (h : Pruned r r' S) (hS : ∀ key, S key → S' key) : Pruned r r' S' :=
  ⟨fun key => (h.report key).imp_right (And.imp_right (hS key)), h.idx, h.count⟩

/-- What is listed after a pruning was listed before it. -/
theorem listed (h : Pruned r r' S) {key : Nat × Address} (hk : r'.Listed 0 key) :
    r.Listed 0 key := by
  obtain ⟨i, -, hi, hslot⟩ := hk
  refine ⟨i, Nat.zero_le i, ?_, h.idx _ _ hslot⟩
  cases hn : r'.reportCount.get key.1 with
  | none =>
    rw [hn] at hi
    cases hi
  | some n =>
    rw [hn] at hi
    rw [h.count _ _ hn]
    exact hi

end Pruned

/-- One round of either sweep, on the slot that it looks at. -/
theorem pruned_slot (r : Reports) (postId i : Nat) {report : Store (Nat × Address) Report}
    {idx : Store (Nat × Nat) Address}
    (hreport : (∃ reporter, r.reportersIdx.get (postId, i) = some reporter ∧
      report = r.report.remove (postId, reporter)) ∨ report = r.report)
    (hidx : idx = r.reportersIdx.remove (postId, i) ∨ idx = r.reportersIdx) :
    Pruned r { r with report, reportersIdx := idx }
      fun key => key.1 = postId ∧ r.reportersIdx.get (postId, i) = some key.2 where
  report key := by
    rcases hreport with ⟨reporter, hslot, rfl⟩ | rfl
    · by_cases hk : key = (postId, reporter)
      · subst hk
        exact Or.inr ⟨Store.get_remove_self _ _, rfl, hslot⟩
      · exact Or.inl (Store.get_remove_of_ne hk)
    · exact Or.inl rfl
  idx slot v hv := by
    rcases hidx with rfl | rfl
    · exact Store.get_of_get_remove hv
    · exact hv
  count _ _ hn := hn

end Reports

/-- What the sweep of a whole post does with one slot. -/
def Reports.sweepSlot (postId : Nat) (r : Reports) (i : Nat) : Reports :=
  { r with
    report := match r.reportersIdx.get (postId, i) with
      | some reporter => r.report.remove (postId, reporter)
      | none => r.report
    reportersIdx := r.reportersIdx.remove (postId, i) }

/-- The sweep of a whole post takes the reports that its slots name. -/
theorem sweepReports_pruned (r : Reports) (postId : Nat) :
    r.Pruned (sweepReports r postId) fun key => key.1 = postId ∧ r.Listed 0 key := by
  have hfold : ∀ (slots : List Nat) (b : Reports),
      (∀ i ∈ slots, i < (r.reportCount.get postId).getD 0) →
      r.Pruned b (fun key => key.1 = postId ∧ r.Listed 0 key) →
      r.Pruned (slots.foldl (Reports.sweepSlot postId) b)
        (fun key => key.1 = postId ∧ r.Listed 0 key) := by
    intro slots
    induction slots with
    | nil => exact fun b _ hb => hb
    | cons i slots ih =>
      intro b hslots hb
      rw [List.foldl_cons]
      refine ih _ (fun j hj => hslots j (List.mem_cons_of_mem i hj)) ?_
      refine hb.trans (Reports.pruned_slot b postId i ?_ (Or.inl rfl)) ?_
      · cases hslot : b.reportersIdx.get (postId, i) with
        | none => exact Or.inr rfl
        | some reporter => exact Or.inl ⟨reporter, rfl, rfl⟩
      · rintro ⟨_, reporter⟩ ⟨rfl, hslot⟩
        exact ⟨rfl, i, Nat.zero_le i, hslots i List.mem_cons_self, hb.idx _ _ hslot⟩
  have h := hfold (List.range ((r.reportCount.get postId).getD 0)) r
    (fun i hi => List.mem_range.mp hi) (.refl r _)
  exact ⟨h.report, h.idx, fun p n hn => h.count p n (Store.get_of_get_remove hn)⟩

/-- The bounded sweep of a post takes the reports that its last slots name. -/
theorem drainReport_pruned {r : Reports} {postId left : Nat} {q : Nat × Nat × Reports}
    (h : Checked.drain (drainReport postId) ((r.reportCount.get postId).getD 0) left r = .ok q) :
    r.Pruned q.2.2 fun key =>
      key.1 = postId ∧ r.Listed ((r.reportCount.get postId).getD 0 - left) key := by
  have hq : q.1 ≤ (r.reportCount.get postId).getD 0 ∧
      r.Pruned q.2.2 fun key => key.1 = postId ∧ r.Listed q.1 key := by
    refine Checked.drain_invariant (P := fun count (b : Reports) =>
      count ≤ (r.reportCount.get postId).getD 0 ∧
        r.Pruned b fun key => key.1 = postId ∧ r.Listed count key) ?_ ⟨le_rfl, .refl r _⟩ h
    rintro count b b' ⟨hle, hb⟩ hb'
    refine ⟨by omega, ?_⟩
    have hb : r.Pruned b fun key => key.1 = postId ∧ r.Listed count key :=
      hb.mono fun key ⟨hk, i, hi, hslot⟩ => ⟨hk, i, by omega, hslot⟩
    have hreach : ∀ key : Nat × Address, key.1 = postId ∧
        b.reportersIdx.get (postId, count) = some key.2 → key.1 = postId ∧ r.Listed count key := by
      rintro ⟨_, reporter⟩ ⟨rfl, hslot⟩
      exact ⟨rfl, count, le_rfl, hle, hb.idx _ _ hslot⟩
    cases hslot : b.reportersIdx.get (postId, count) with
    | none =>
      rw [drainReport, hslot, Except.ok.injEq] at hb'
      exact hb' ▸ hb
    | some reporter =>
      rw [drainReport, hslot, Except.ok.injEq] at hb'
      subst hb'
      exact hb.trans (Reports.pruned_slot b postId count (Or.inl ⟨reporter, hslot, rfl⟩)
        (Or.inl rfl)) hreach
  obtain ⟨hsum, hleft, -⟩ := Checked.drain_counters h
  exact hq.2.mono fun key ⟨hk, i, hi, hslot⟩ => ⟨hk, i, by omega, hslot⟩

/-- The authored-posts loop takes the reports of the last posts of the list. -/
theorem drain_cleanupAuthorPost_pruned {ids : List Nat} {left : Nat} {s : State}
    {q : Nat × Nat × List Nat × State}
    (h : Checked.drain cleanupAuthorPost ids.length left (ids, s) = .ok q) :
    s.reports.Pruned q.2.2.2.reports fun key =>
      key.1 ∈ ids.drop (ids.length - left) ∧ s.reports.Listed 0 key := by
  have hq : q.2.2.1 = ids.take q.1 ∧
      s.reports.Pruned q.2.2.2.reports fun key =>
        key.1 ∈ ids.drop q.1 ∧ s.reports.Listed 0 key := by
    refine Checked.drain_invariant (P := fun count (b : List Nat × State) =>
      b.1 = ids.take count ∧ s.reports.Pruned b.2.reports fun key =>
        key.1 ∈ ids.drop count ∧ s.reports.Listed 0 key) ?_
      ⟨List.take_length.symm, .refl _ _⟩ h
    rintro count b b' ⟨hids, hb⟩ hb'
    obtain ⟨postId, hid, hids', hs'⟩ := cleanupAuthorPost_ok hb'
    have hget : ids[count]? = some postId := by
      rw [hids, List.getElem?_take_of_lt (Nat.lt_succ_self count)] at hid
      exact hid
    obtain ⟨hlt, -⟩ := List.getElem?_eq_some_iff.mp hget
    have hdrop : ids.drop count = postId :: ids.drop (count + 1) := by
      rw [List.drop_eq_getElem_cons hlt, List.getElem?_eq_some_iff.mp hget |>.2]
    have hb : s.reports.Pruned b.2.reports fun key =>
        key.1 ∈ ids.drop count ∧ s.reports.Listed 0 key := by
      refine hb.mono fun key ⟨hk, hl⟩ => ⟨?_, hl⟩
      rw [hdrop]
      exact List.mem_cons_of_mem _ hk
    constructor
    · rw [hids', hids, List.eraseIdx_eq_take_drop_succ, List.take_take, List.drop_take]
      simp
    · rw [hs']
      refine hb.trans (sweepReports_pruned b.2.reports postId) ?_
      rintro key ⟨rfl, hl⟩
      refine ⟨?_, hb.listed hl⟩
      rw [hdrop]
      exact List.mem_cons_self
  obtain ⟨hsum, hleft, -⟩ := Checked.drain_counters h
  refine hq.2.mono fun key ⟨hk, hl⟩ => ⟨?_, hl⟩
  exact List.drop_subset_drop_left ids (by omega) hk

/-! ## The reports a call takes away -/

/-- The reports that the slots of a post name, from slot `first` on. -/
def reportsFrom (r : Reports) (postId first : Nat) : List (Nat × Address) :=
  (List.range' first ((r.reportCount.get postId).getD 0 - first)).filterMap fun i =>
    (r.reportersIdx.get (postId, i)).map fun reporter => (postId, reporter)

/-- The reports that a cleanup reaches before its allowance is used up: the likes
of a post, or the edges of a user, are worked off before them. -/
def swept (s : State) : Call → List (Nat × Address)
  | .batchCleanupPost postId maxEntries =>
    reportsFrom s.reports postId ((s.reports.reportCount.get postId).getD 0 -
      (maxEntries - (s.likes.likersCount.get postId).getD 0))
  | .batchCleanupProfile user maxEntries =>
    let ids := (s.posts.authorPosts.get user).getD []
    (ids.drop (ids.length - (maxEntries - s.graph.followers.size user -
      s.graph.following.size user))).flatMap fun postId => reportsFrom s.reports postId 0
  | _ => []

theorem mem_reportsFrom {r : Reports} {postId first : Nat} {key : Nat × Address} :
    key ∈ reportsFrom r postId first ↔ key.1 = postId ∧ r.Listed first key := by
  obtain ⟨p, reporter⟩ := key
  simp only [reportsFrom, List.mem_filterMap, List.mem_range'_1, Option.map_eq_some_iff,
    Prod.mk.injEq, Reports.Listed]
  constructor
  · rintro ⟨i, ⟨hfirst, hi⟩, v, hv, rfl, rfl⟩
    exact ⟨rfl, i, hfirst, by omega, hv⟩
  · rintro ⟨rfl, i, hfirst, hi, hv⟩
    exact ⟨i, ⟨hfirst, by omega⟩, reporter, hv, rfl, rfl⟩

/-- The report that a call files. -/
def Call.filed : Call → Option (Nat × Address)
  | .reportPost reporter postId _ _ _ => some (postId, reporter)
  | _ => none

/-- The report that a call decides. -/
def Call.reviewed : Call → Option (Nat × Address)
  | .reviewReport _ _ postId reporter _ => some (postId, reporter)
  | _ => none

theorem Call.reviewed_of_filed {c : Call} {key : Nat × Address} (h : c.filed = some key) :
    c.reviewed = none := by
  cases c <;> first | rfl | cases h

/-- Every way a call can change the reports. -/
inductive ReportStep (s : State) (c : Call) (s' : State) : Prop where
  | prune (filed : c.filed = none) (reviewed : c.reviewed = none)
      (get : ∀ key, s'.reports.report.get key = s.reports.report.get key ∨
        (s'.reports.report.get key = none ∧ key ∈ swept s c))
  | file (key : Nat × Address) (report : Report) (filed : c.filed = some key)
      (free : s.reports.report.get key = none)
      (store : s'.reports.report = s.reports.report.set key report)
  | review (key : Nat × Address) (report : Report) (verdict : ReportStatus)
      (filed : c.filed = none) (reviewed : c.reviewed = some key)
      (stored : s.reports.report.get key = some report)
      (pending : report.status = .pending) (decided : verdict ≠ .pending)
      (store : s'.reports.report = s.reports.report.set key { report with status := verdict })

theorem batchCleanupPost_report {s s' : State} {postId maxEntries : Nat}
    (h : batchCleanupPost s postId maxEntries = .ok s') (key : Nat × Address) :
    s'.reports.report.get key = s.reports.report.get key ∨
      (s'.reports.report.get key = none ∧
        key ∈ swept s (.batchCleanupPost postId maxEntries)) := by
  obtain ⟨-, likes, reports, tips, deletedPost, hlikes, hreports, -, -, rfl⟩ :=
    batchCleanupPost_ok h
  obtain ⟨hsum, hleft, hstop⟩ := Checked.drain_counters hlikes
  have hbudget : likes.2.1 = maxEntries - (s.likes.likersCount.get postId).getD 0 := by omega
  refine ((drainReport_pruned hreports).report key).imp_right (And.imp_right fun hk => ?_)
  rw [hbudget] at hk
  exact mem_reportsFrom.mpr hk

theorem batchCleanupProfile_report {s s' : State} {user : Address} {maxEntries : Nat}
    (hloop : s.graph.Loopless) (h : batchCleanupProfile s user maxEntries = .ok s')
    (key : Nat × Address) :
    s'.reports.report.get key = s.reports.report.get key ∨
      (s'.reports.report.get key = none ∧
        key ∈ swept s (.batchCleanupProfile user maxEntries)) := by
  obtain ⟨-, fCount, followingCount, left, graph, r, authorPosts, deletedProfile, hgraph, hr, -,
    rfl⟩ := batchCleanupProfile_ok h
  have hleft := (hloop.cleanupUser hgraph).2
  refine ((drain_cleanupAuthorPost_pruned hr).report key).imp_right (And.imp_right fun hk => ?_)
  obtain ⟨hpost, hlisted⟩ := hk
  rw [show left = _ from hleft] at hpost
  exact List.mem_flatMap.mpr ⟨key.1, hpost, mem_reportsFrom.mpr ⟨rfl, hlisted⟩⟩

theorem exec_reportStep {σ : Type} {host : Host σ} {env : Env} {w w' : World σ} {c : Call}
    (hloop : w.store.graph.Loopless) (he : exec host env w c = .ok w') :
    ReportStep w.store c w'.store := by
  cases c with
  | batchCleanupPost postId maxEntries =>
    exact .prune rfl rfl (batchCleanupPost_report (World.onStore_eq_ok.mp he).1)
  | batchCleanupProfile user maxEntries =>
    exact .prune rfl rfl (batchCleanupProfile_report hloop (World.onStore_eq_ok.mp he).1)
  | reportPost reporter postId token stakeAmount reasonHash =>
    obtain ⟨-, -, -, hfree, weightBps, tokens, -, rfl⟩ := reportPost_ok he
    exact .file (postId, reporter) _ rfl hfree rfl
  | reviewReport moderator signers postId reporter verdict =>
    obtain ⟨hverdict, pool, report, v, -, -, hreport, hpending, hv, rfl⟩ := reviewReport_ok he
    obtain ⟨posts, appeals, events, hs, -⟩ := resolveReport_store hv
    refine .review (postId, reporter) report verdict rfl rfl hreport hpending hverdict ?_
    show v.store.reports.report.set _ _ = _
    rw [hs]
  | _ =>
    have hreports' : w'.store.reports = w.store.reports :=
      exec_frame (p := .reports) he (by simp [Call.parts])
    exact .prune rfl rfl fun key => Or.inl (by rw [hreports'])

end Contract
end Linkora
