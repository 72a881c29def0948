import Linkora.Contract.Sweeps
import Linkora.Contract.Parameters

/-!
# Report stakes

A stake is paid out by the review of its report, and the review needs the report.
The contract never pays a stake twice.  Whether it can still pay depends on the
cleanups: they take the reports of a removed post away, reviewed or not, and with a
pending report goes the record of its stake.
-/

namespace Linkora
namespace Contract

variable {σ : Type}

/-- Does the step file the report? -/
def Action.files (key : Nat × Address) : Action σ → Bool
  | .call _ c => c.filed == some key
  | .others _ => false

/-- Does the step decide the report? -/
def Action.reviews (key : Nat × Address) : Action σ → Bool
  | .call _ c => c.reviewed == some key
  | .others _ => false

/-- No cleanup reaches the report. -/
def SparesReport (key : Nat × Address) : Condition := fun s _ c => key ∉ swept s c

instance (key : Nat × Address) (s : State) (env : Env) (c : Call) :
    Decidable (SparesReport key s env c) :=
  inferInstanceAs (Decidable (key ∉ swept s c))

/-! ## One step and one report -/

section Step

variable {host : Host σ} {w w' : World σ} {a : Action σ} {key : Nat × Address}

/-- What a step can do to the entry of one report. -/
inductive EntryStep (w : World σ) (a : Action σ) (w' : World σ) (key : Nat × Address) : Prop where
  | same (reviews : a.reviews key = false)
      (get : w'.store.reports.report.get key = w.store.reports.report.get key)
  | swept (reviews : a.reviews key = false) (get : w'.store.reports.report.get key = none)
      (reached : ¬(SparesReport key).Met w a)
  | filed (files : a.files key = true) (free : w.store.reports.report.get key = none)
  | decided (report : Report) (verdict : ReportStatus) (reviews : a.reviews key = true)
      (stored : w.store.reports.report.get key = some report) (pending : report.status = .pending)
      (decided : verdict ≠ .pending)
      (get : w'.store.reports.report.get key = some { report with status := verdict })

theorem Step.entryStep (hloop : w.store.graph.Loopless) (h : Step host w a w')
    (key : Nat × Address) : EntryStep w a w' key := by
  cases h with
  | others h => exact .same rfl rfl
  | @call _ env c he =>
    cases exec_reportStep hloop he with
    | prune hfiled hreviewed hget =>
      have hrev : (Action.call env c : Action σ).reviews key = false := by
        rw [Action.reviews, hreviewed]
        rfl
      rcases hget key with hget | ⟨hget, hswept⟩
      · exact .same hrev hget
      · exact .swept hrev hget fun hmet => hmet hswept
    | file k report hfiled hfree hstore =>
      have hrev : (Action.call env c : Action σ).reviews key = false := by
        rw [Action.reviews, Call.reviewed_of_filed hfiled]
        rfl
      by_cases hk : key = k
      · subst hk
        refine .filed ?_ hfree
        rw [Action.files, hfiled]
        exact beq_self_eq_true _
      · refine .same hrev ?_
        rw [hstore, Store.get_set_of_ne hk]
    | review k report verdict hfiled hreviewed hstored hpending hdecided hstore =>
      by_cases hk : key = k
      · subst hk
        refine .decided report verdict ?_ hstored hpending hdecided ?_
        · rw [Action.reviews, hreviewed]
          exact beq_self_eq_true _
        · rw [hstore, Store.get_set_self]
      · refine .same ?_ ?_
        · rw [Action.reviews, hreviewed, beq_eq_false_iff_ne]
          exact fun h => hk (Option.some.inj h).symm
        · rw [hstore, Store.get_set_of_ne hk]

end Step

/-! ## Runs after a report -/

section Runs

variable {host : Host σ} {w₁ w₂ : World σ} {acts : List (Action σ)} {key : Nat × Address}
  {report : Report}

/-- As long as the report is not filed again, it is decided at most once, and what
is stored before the decision is the report that was filed. -/
theorem decided_at_most_once (hw : Reachable host w₁)
    (hfiled : w₁.store.reports.report.get key = some report)
    (hrun : Run (Step host) w₁ acts w₂) (hfiles : ∀ a ∈ acts, a.files key = false) :
    acts.countP (·.reviews key) ≤ 1 ∧
      ∀ q, w₂.store.reports.report.get key = some q → q.status = .pending →
        acts.countP (·.reviews key) = 0 ∧ q = report := by
  induction hrun with
  | nil => exact ⟨Nat.zero_le 1, fun q hq _ => ⟨rfl, Option.some.inj (hq.symm.trans hfiled)⟩⟩
  | @snoc acts w w' a hrun hstep ih =>
    obtain ⟨hle, hstored⟩ := ih fun b hb => hfiles b (List.mem_append_left _ hb)
    have hloop := Graph.Loopless.of_reachable (hw.run hrun)
    rw [List.countP_append, List.countP_singleton]
    cases hstep.entryStep hloop key with
    | same hrev hget =>
      rw [hrev, hget]
      exact ⟨hle, hstored⟩
    | swept hrev hget _ =>
      rw [hrev, hget]
      exact ⟨hle, fun q hq => nomatch hq⟩
    | filed hfile _ =>
      rw [hfiles a (List.mem_append_right _ (List.mem_singleton_self a))] at hfile
      cases hfile
    | decided q verdict hrev hq hpending hdecided hget =>
      -- A report that is still pending has not been decided so far.
      obtain ⟨hzero, -⟩ := hstored q hq hpending
      rw [hrev, hget, hzero]
      refine ⟨le_rfl, fun q' hq' hpending' => ?_⟩
      obtain rfl := Option.some.inj hq'
      exact absurd hpending' hdecided

/-- A report that no cleanup reaches and no review decides stays as it was filed. -/
theorem report_kept (hw : Reachable host w₁)
    (hfiled : w₁.store.reports.report.get key = some report)
    (hrun : Run (Run.Guarded (Step host) (SparesReport key).Met) w₁ acts w₂)
    (hreviews : ∀ a ∈ acts, a.reviews key = false) :
    w₂.store.reports.report.get key = some report := by
  induction hrun with
  | nil => exact hfiled
  | @snoc acts w w' a hrun hstep ih =>
    have hkept := ih fun b hb => hreviews b (List.mem_append_left _ hb)
    have hloop := Graph.Loopless.of_reachable (hw.run hrun.of_guarded)
    cases hstep.1.entryStep hloop key with
    | same _ hget => rw [hget, hkept]
    | swept _ _ hreached => exact absurd hstep.2 hreached
    | filed _ hfree =>
      rw [hkept] at hfree
      cases hfree
    | decided _ _ hrev _ _ _ _ =>
      rw [hreviews a (List.mem_append_right _ (List.mem_singleton_self a))] at hrev
      cases hrev

end Runs

/-! ## Paying a stake -/

/-- A moderator and enough admins of the moderator pool have signed. -/
structure Signed (env : Env) (s : State) (moderator : Address) (signers : List Address) : Prop where
  moderator_auth : env.auth moderator = true
  moderator_ne : isZeroAddress moderator = false
  role : hasRoleInternal s moderator .moderator = true
  signers_ne : signers ≠ [] ∧ ∀ a ∈ signers, isZeroAddress a = false
  pool : ∃ pool, s.pools.get modsPool = some pool ∧ requireSigners env pool signers = .ok ()

/-- A signed review of a pending report comes down to the payment. -/
theorem reviewReport_of_signed {host : Host σ} {env : Env} {w v : World σ} {moderator : Address}
    {signers : List Address} {postId : Nat} {reporter : Address} {report : Report}
    {verdict : ReportStatus} (hsigned : Signed env w.store moderator signers)
    (hreporter : isZeroAddress reporter = false) (hpost : 0 < postId)
    (hreport : w.store.reports.report.get (postId, reporter) = some report)
    (hpending : report.status = .pending) (hverdict : verdict ≠ .pending)
    (hv : resolveReport host env w postId report verdict = .ok v) :
    ∃ w', reviewReport host env w moderator signers postId reporter verdict = .ok w' ∧
      w'.tokens = v.tokens := by
  obtain ⟨pool, hpool, hsig⟩ := hsigned.pool
  have hok : reviewReport host env w moderator signers postId reporter verdict =
      .ok { v with store := { v.store with reports := { v.store.reports with
        report := v.store.reports.report.set (postId, reporter) { report with status := verdict }
        reputation := v.store.reports.reputation.set report.reporter
          (nextReputation ((v.store.reports.reputation.get report.reporter).getD 0)
            verdict) } } } := by
    simp only [reviewReport, Checked.bind_eq_ok, Checked.pure_eq_ok, requireAuth_eq_ok,
      validateNonDefaultAddress_eq_ok, requireRole_eq_ok, validateAddressList_eq_ok,
      validateReportVerdict_eq_ok, requireWithError_eq_ok, expect_eq_ok, exists_const]
    exact ⟨hsigned.moderator_auth, hsigned.moderator_ne, hsigned.role, hsigned.signers_ne,
      hreporter, hverdict, hpost, pool, hpool, (), hsig, report, hreport, hpending, v, hv, rfl⟩
  exact ⟨_, hok, rfl⟩

theorem reportPost_valid {host : Host σ} {env : Env} {w w' : World σ} {reporter : Address}
    {postId : Nat} {token : Address} {stakeAmount : Int} {reasonHash : Bytes32}
    (h : reportPost host env w reporter postId token stakeAmount reasonHash = .ok w') :
    isZeroAddress reporter = false ∧ 0 < postId := by
  simp only [reportPost, Checked.bind_eq_ok, validateNonDefaultAddress_eq_ok,
    requireWithError_eq_ok, exists_const] at h
  obtain ⟨-, -, hreporter, -, hpost, -⟩ := h
  exact ⟨hreporter, hpost⟩

/-- A signed review of the report pays the stake, to the reporter or to the treasury,
whenever the token contract carries the payment out. -/
def StakePayable (host : Host σ) (w : World σ) (postId : Nat) (reporter token : Address)
    (stakeAmount : Int) : Prop :=
  ∀ env moderator signers, Signed env w.store moderator signers →
    (∀ v tokens, upholdReport host env w postId reporter = .ok v →
      host.transfer v.tokens token host.self reporter stakeAmount = some tokens →
      ∃ w', exec host env w (.reviewReport moderator signers postId reporter .upheld) = .ok w' ∧
        w'.tokens = tokens) ∧
    ∃ treasury, w.store.params.treasury = some treasury ∧
      ∀ tokens, host.transfer w.tokens token host.self treasury stakeAmount = some tokens →
        ∃ w', exec host env w (.reviewReport moderator signers postId reporter .dismissed) =
          .ok w' ∧ w'.tokens = tokens

/-- A stake that a report has taken is paid out at most once, by a review that sends
it to the reporter or to the treasury.  Until then, as long as no cleanup reaches
the report, the report stays as it was filed and a signed review can pay. -/
theorem stakes_kept {host : Host σ} {env : Env} {w₀ w₁ w₂ : World σ} {reporter : Address}
    {postId : Nat} {token : Address} {stakeAmount : Int} {reasonHash : Bytes32}
    {acts : List (Action σ)} (hw : Reachable host w₀)
    (hreport : exec host env w₀ (.reportPost reporter postId token stakeAmount reasonHash) =
      .ok w₁)
    (hrun : Run (Step host) w₁ acts w₂) :
    ((∀ a ∈ acts, a.files (postId, reporter) = false) →
      acts.countP (·.reviews (postId, reporter)) ≤ 1 ∧
      ∀ env moderator signers verdict w₃,
        exec host env w₂ (.reviewReport moderator signers postId reporter verdict) = .ok w₃ →
        acts.countP (·.reviews (postId, reporter)) = 0 ∧
        ∃ v payee, host.transfer v token host.self payee stakeAmount = some w₃.tokens ∧
          ((verdict = .upheld ∧ payee = reporter) ∨
            (verdict = .dismissed ∧ w₂.store.params.treasury = some payee))) ∧
    (Run (Run.Guarded (Step host) (SparesReport (postId, reporter)).Met) w₁ acts w₂ →
      (∀ a ∈ acts, a.reviews (postId, reporter) = false) →
      (∃ report, w₂.store.reports.report.get (postId, reporter) = some report ∧
        report.status = .pending ∧ report.stakeAmount = stakeAmount ∧ report.token = token) ∧
      StakePayable host w₂ postId reporter token stakeAmount) := by
  have hw₁ : Reachable host w₁ := hw.run (.single (.call hreport))
  obtain ⟨hreporter, hpost⟩ := reportPost_valid hreport
  obtain ⟨-, -, -, -, weightBps, tokens₁, -, hs₁⟩ := reportPost_ok hreport
  have hfiled : w₁.store.reports.report.get (postId, reporter) = some ⟨postId, reporter,
      stakeAmount, token, reasonHash, env.sequence, .pending, weightBps⟩ := by
    rw [hs₁]
    exact Store.get_set_self _ _ _
  constructor
  · intro hfiles
    obtain ⟨hle, hstored⟩ := decided_at_most_once hw₁ hfiled hrun hfiles
    refine ⟨hle, fun env' moderator signers verdict w₃ he => ?_⟩
    obtain ⟨-, -, report, v, -, -, hget, hpending, hv, rfl⟩ := reviewReport_ok he
    obtain ⟨hzero, rfl⟩ := hstored report hget hpending
    obtain ⟨u, payee, event, ht, -, hcase⟩ := resolveReport_ok hv
    refine ⟨hzero, u.tokens, payee, ht, ?_⟩
    rcases hcase with ⟨hup, hpayee, -⟩ | ⟨hdis, htreasury, -⟩
    · exact Or.inl ⟨hup, hpayee⟩
    · exact Or.inr ⟨hdis, htreasury⟩
  · intro hspared hreviews
    have hkept := report_kept hw₁ hfiled hspared hreviews
    refine ⟨⟨_, hkept, rfl, rfl, rfl⟩, fun env' moderator signers hsigned => ⟨?_, ?_⟩⟩
    · intro v tokens hv ht
      exact reviewReport_of_signed hsigned hreporter hpost hkept rfl (by decide)
        (resolveReport_upheld hv ht)
    · obtain ⟨treasury, htreasury, -⟩ :=
        (ParametersInRange.of_reachable (hw₁.run hrun)).treasury
      refine ⟨treasury, htreasury, fun tokens ht => ?_⟩
      exact reviewReport_of_signed hsigned hreporter hpost hkept rfl (by decide)
        (resolveReport_dismissed htreasury ht)

/-- A reporter is refunded although the author has deleted the post. -/
theorem stakes_kept_after_deletion :
    ∃ w₀ w₁ w₂ w₃ : World Book, ∃ acts : List (Action Book), Reachable (bookHost linkora) w₀ ∧
      exec (bookHost linkora) (signedAt 5) w₀ (.reportPost carol 1 coin 20 0) = .ok w₁ ∧
      Run (Step (bookHost linkora)) w₁ acts w₂ ∧ w₂.store.posts.post.get 1 = none ∧
      exec (bookHost linkora) (signedAt 8) w₂ (.reviewReport alice [alice] 1 carol .upheld) =
        .ok w₃ ∧ w₃.tokens coin carol = 100 := by
  have hdemo : demoAround (SparesReport (1, carol)) (fun _ _ => 100)
      [(signedAt 2, .createPool alice "mods" coin [alice] 1),
        (signedAt 3, .grantRole alice alice .moderator),
        (signedAt 4, .createPost alice (asciiBytes "hello"))]
      (signedAt 5, .reportPost carol 1 coin 20 0)
      [(signedAt 6, .deletePost alice 1), (signedAt 7, .batchCleanupPost 1 0)]
      (fun _ _ w₂ => (w₂.store.posts.post.has 1, hasRoleInternal w₂.store alice .moderator,
        w₂.store.pools.get modsPool, w₂.tokens coin linkora, w₂.tokens coin carol)) =
      some (false, true, some ⟨coin, 0, [alice], 1⟩, 120, 80) := by rfl
  obtain ⟨w₀, w₁, w₂, hw, hreport, hrun, hsee⟩ := run_demoAround hdemo
  simp only [Prod.mk.injEq] at hsee
  obtain ⟨hdeleted, hrole, hpool, hlinkora, hcarol⟩ := hsee
  have hnone : w₂.store.posts.post.get 1 = none := Store.has_eq_false_iff.mp hdeleted
  have hsigned : Signed (signedAt 8) w₂.store alice [alice] :=
    ⟨by decide, by decide, hrole, by decide, _, hpool, by decide⟩
  have huphold : upholdReport (bookHost linkora) (signedAt 8) w₂ 1 carol = .ok w₂ := by
    rw [upholdReport, hnone]
  have htransfer : (bookHost linkora).transfer w₂.tokens coin linkora carol 20 =
      some (w₂.tokens.move coin linkora carol 20) := by
    refine if_pos ⟨by decide, ?_⟩
    rw [hlinkora]
    decide
  obtain ⟨-, hkept⟩ := stakes_kept hw hreport hrun.of_guarded
  obtain ⟨-, hpayable⟩ := hkept hrun (by decide)
  obtain ⟨w₃, hw₃, htokens⟩ := (hpayable _ alice [alice] hsigned).1 w₂ _ huphold htransfer
  refine ⟨w₀, w₁, w₂, w₃, _, hw, hreport, hrun.of_guarded, hnone, hw₃, ?_⟩
  rw [htokens, Book.move, if_pos rfl, hcarol]
  decide

/-- Anybody can sweep a pending report of a deleted post, and the stake is gone. -/
theorem stake_lost_in_cleanup :
    ¬∀ (w₀ w₁ w₂ : World Book) (acts : List (Action Book)), Reachable (bookHost linkora) w₀ →
      exec (bookHost linkora) (signedAt 5) w₀ (.reportPost carol 1 coin 20 0) = .ok w₁ →
      Run (Step (bookHost linkora)) w₁ acts w₂ →
      (∀ a ∈ acts, a.reviews (1, carol) = false) →
      ∃ report, w₂.store.reports.report.get (1, carol) = some report ∧
        report.status = .pending ∧ report.stakeAmount = 20 ∧ report.token = coin := by
  intro hclaim
  have hdemo : demoAround (fun _ _ _ => True) (fun _ _ => 100)
      [(signedAt 4, .createPost alice (asciiBytes "hello"))]
      (signedAt 5, .reportPost carol 1 coin 20 0)
      [(signedAt 6, .deletePost alice 1), (signedAt 7, .batchCleanupPost 1 10)]
      (fun _ _ w₂ => w₂.store.reports.report.has (1, carol)) = some false := by decide
  obtain ⟨w₀, w₁, w₂, hw, hreport, hrun, hgone⟩ := run_demoAround hdemo
  obtain ⟨report, hget, -⟩ := hclaim w₀ w₁ w₂ _ hw hreport hrun.of_guarded (by decide)
  rw [Store.has_eq_false_iff.mp hgone] at hget
  cases hget

end Contract
end Linkora
