import Linkora.Contract.Governance

/-!
# Reports, reviews and appeals

A reporter stakes tokens on a post.  The stake sits in the contract's own account
until the `mods` pool reviews the report and sends it back, or to the treasury.
An upheld report takes the post away and opens a window for an appeal.
-/

namespace Linkora
namespace Contract

def clampInt (n lo hi : Int) : Int := max lo (min n hi)

def I32_MAX : Int := 2 ^ 31 - 1
def I32_MIN : Int := -2 ^ 31

def i32 (n : Int) : Except Panic Int :=
  if I32_MIN ≤ n ∧ n ≤ I32_MAX then .ok n else .error .overflow

def reportWeightBps (reputation : Int) : Except Panic Nat := do
  let sum ← i32 (10000 + clampInt (reputation * 50) I32_MIN I32_MAX)
  return (clampInt sum 5000 15000).toNat

def reportPost {σ : Type} (host : Host σ) (env : Env) (w : World σ) (reporter : Address)
    (postId : Nat) (token : Address) (stakeAmount : Int) (reasonHash : Bytes32) :
    Except Panic (World σ) := do
  let s := w.store
  requireAuth env reporter
  validateNonDefaultAddress "reporter" reporter
  validateNonDefaultAddress "token" token
  requireWithError (0 < postId) "post id must be positive"
  validateAmount "stake amount" stakeAmount
  let post ← expect (s.posts.post.get postId) "post does not exist"
  requireWithError (reporter ≠ post.author) "cannot report own post"
  requireWithError (s.reports.report.has (postId, reporter) = false) "already reported"
  requireWithError (0 < stakeAmount) "stake amount must be positive"
  let tokens ← tokenCall (host.transfer w.tokens token reporter host.self stakeAmount)
  let count := (s.reports.reportCount.get postId).getD 0
  let next ← u32 (count + 1)
  let weightBps ← reportWeightBps ((s.reports.reputation.get reporter).getD 0)
  let report : Report :=
    { postId, reporter, stakeAmount, token, reasonHash
      createdLedger := env.sequence
      status := .pending
      weightBps }
  let reports := { s.reports with
    reportersIdx := s.reports.reportersIdx.set (postId, count) reporter
    reportCount := s.reports.reportCount.set postId next
    report := s.reports.report.set (postId, reporter) report }
  return { store := { s with reports }.publish (.postReported postId reporter stakeAmount), tokens }

def modsPool : Symbol := "mods"

/-- Burn the slashed share of the author's creator tokens, where the author has
granted the contract the allowance for it. -/
def slashAuthor {σ : Type} (host : Host σ) (s : State) (tokens : σ) (author : Address) :
    Except Panic σ :=
  let slashBps := s.params.moderationSlashBps.getD 0
  if 0 < slashBps then
    match s.profiles.profile.get author with
    | some profile => do
      let (balance, tokens) ← tokenCall (host.balance tokens profile.creatorToken author)
      let product ← i128 (balance * slashBps)
      let slashAmount := product.tdiv 10000
      if 0 < slashAmount then do
        let (allowance, tokens) ←
          tokenCall (host.allowance tokens profile.creatorToken author host.self)
        if slashAmount ≤ allowance then
          tokenCall (host.burnFrom tokens profile.creatorToken host.self author slashAmount)
        else .ok tokens
      else .ok tokens
    | none => .ok tokens
  else .ok tokens

/-- Take a post away: the snapshot, the appeal window, and the author's list. -/
def removePost (env : Env) (s : State) (post : Post) (postId : Nat) (reporter : Address) : State :=
  let record : ModerationRecord :=
    { postId, reporter
      removedLedger := env.sequence
      appealDeadline := min (env.sequence + APPEAL_WINDOW_LEDGERS) U32_MAX }
  { s with
    appeals := { s.appeals with
      removedPost := s.appeals.removedPost.set postId post
      moderationRecord := s.appeals.moderationRecord.set postId record }
    posts := { s.posts with
      post := s.posts.post.remove postId
      authorPosts := unlinkAuthorPost s.posts.authorPosts post.author postId } }

/-- The `Upheld` branch up to the refund. -/
def upholdReport {σ : Type} (host : Host σ) (env : Env) (w : World σ) (postId : Nat)
    (reporter : Address) : Except Panic (World σ) :=
  match w.store.posts.post.get postId with
  | some post => do
    let s := removePost env w.store post postId reporter
    let tokens ← slashAuthor host s w.tokens post.author
    return { store := s, tokens }
  | none => .ok w

def nextReputation (current : Int) (status : ReportStatus) : Int :=
  let next := match status with
    | .upheld => clampInt (current + 1) I32_MIN I32_MAX
    | .dismissed => clampInt (current - 1) I32_MIN I32_MAX
    | .pending => current
  clampInt next (-100) 100

/-- Who is paid, and the storage when the payment is due. -/
def resolveReport {σ : Type} (host : Host σ) (env : Env) (w : World σ) (postId : Nat)
    (report : Report) (verdict : ReportStatus) : Except Panic (World σ) :=
  match verdict with
  | .upheld => do
    let w ← upholdReport host env w postId report.reporter
    let tokens ← tokenCall
      (host.transfer w.tokens report.token host.self report.reporter report.stakeAmount)
    return { store := w.store.publish (.postRemovedByModeration postId report.reporter), tokens }
  | .dismissed => do
    let treasury ← expect w.store.params.treasury "treasury not set"
    let tokens ← tokenCall
      (host.transfer w.tokens report.token host.self treasury report.stakeAmount)
    return { store := w.store.publish (.reportDismissed postId report.reporter), tokens }
  | .pending => .error (.message "verdict must be upheld or dismissed")

def reviewReport {σ : Type} (host : Host σ) (env : Env) (w : World σ) (moderator : Address)
    (signers : List Address) (postId : Nat) (reporter : Address) (verdict : ReportStatus) :
    Except Panic (World σ) := do
  requireAuth env moderator
  validateNonDefaultAddress "moderator" moderator
  requireRole w.store moderator .moderator
  validateAddressList "signers" signers
  validateNonDefaultAddress "reporter" reporter
  validateReportVerdict verdict
  requireWithError (0 < postId) "post id must be positive"
  let pool ← expect (w.store.pools.get modsPool) "moderator pool 'mods' not found"
  requireSigners env pool signers
  let report ← expect (w.store.reports.report.get (postId, reporter)) "report not found"
  requireWithError (report.status = .pending) "report already resolved"
  let w ← resolveReport host env w postId report verdict
  let s := w.store
  let current := (s.reports.reputation.get report.reporter).getD 0
  let reports := { s.reports with
    report := s.reports.report.set (postId, reporter) { report with status := verdict }
    reputation := s.reports.reputation.set report.reporter (nextReputation current verdict) }
  return { w with store := { s with reports } }

/-! ## Appeals -/

def appealModeration (env : Env) (s : State) (appellant : Address) (postId : Nat)
    (reasonHash : Bytes32) : Except Panic State := do
  requireAuth env appellant
  validateNonDefaultAddress "appellant" appellant
  requireWithError (0 < postId) "post id must be positive"
  let record ← expect (s.appeals.moderationRecord.get postId) "no moderation decision to appeal"
  let removedPost ← expect (s.appeals.removedPost.get postId) "removed post not found"
  requireWithError (removedPost.author = appellant) "only the post author can appeal"
  requireWithError (env.sequence ≤ record.appealDeadline) "appeal window has closed"
  requireWithError (s.appeals.appeal.has postId = false) "appeal already filed"
  let appeal : Appeal :=
    { postId, appellant, reasonHash
      filedLedger := env.sequence
      status := .pending
      approvers := []
      rejecters := [] }
  let appeals := { s.appeals with appeal := s.appeals.appeal.set postId appeal }
  return { s with appeals }.publish (.appealFiled postId appellant)

def restoreModeratedPost (s : State) (postId : Nat) : State :=
  let posts := match s.appeals.removedPost.get postId with
    | some post =>
      let ids := (s.posts.authorPosts.get post.author).getD []
      { s.posts with
        post := s.posts.post.set postId post
        authorPosts :=
          if postId ∈ ids then s.posts.authorPosts
          else s.posts.authorPosts.set post.author (ids ++ [postId]) }
    | none => s.posts
  { s with
    posts
    appeals := { s.appeals with
      removedPost := s.appeals.removedPost.remove postId
      moderationRecord := s.appeals.moderationRecord.remove postId } }

/-- A reviewer is entered once on the side it votes for. -/
def recordReview (appeal : Appeal) (reviewer : Address) (approve : Bool) : Appeal :=
  if approve then
    if reviewer ∈ appeal.approvers then appeal
    else { appeal with approvers := appeal.approvers ++ [reviewer] }
  else
    if reviewer ∈ appeal.rejecters then appeal
    else { appeal with rejecters := appeal.rejecters ++ [reviewer] }

/-- Close an appeal once one of its sides has reached the threshold. -/
def settleAppeal (s : State) (threshold postId : Nat) (appeal : Appeal) : State × Appeal :=
  if threshold ≤ appeal.approvers.length then
    ((restoreModeratedPost s postId).publish (.appealResolved postId true),
      { appeal with status := .approved })
  else if threshold ≤ appeal.rejecters.length then
    (s.publish (.appealResolved postId false), { appeal with status := .rejected })
  else (s, appeal)

def reviewAppeal (env : Env) (s : State) (reviewer : Address) (postId : Nat) (approve : Bool) :
    Except Panic State := do
  requireAuth env reviewer
  validateNonDefaultAddress "reviewer" reviewer
  requireWithError (0 < postId) "post id must be positive"
  let pool ← expect (s.pools.get modsPool) "moderator pool 'mods' not found"
  requireWithError (reviewer ∈ pool.admins) "unauthorized reviewer"
  let appeal ← expect (s.appeals.appeal.get postId) "appeal not found"
  requireWithError (appeal.status = .pending) "appeal already resolved"
  let (s, appeal) := settleAppeal s pool.threshold postId (recordReview appeal reviewer approve)
  return { s with appeals := { s.appeals with appeal := s.appeals.appeal.set postId appeal } }

/-! ## What a successful call says -/

theorem reportPost_ok {σ : Type} {host : Host σ} {env : Env} {w w' : World σ}
    {reporter : Address} {postId : Nat} {token : Address} {stakeAmount : Int}
    {reasonHash : Bytes32}
    (h : reportPost host env w reporter postId token stakeAmount reasonHash = .ok w') :
    env.auth reporter = true ∧ 0 < stakeAmount ∧ w.store.posts.post.has postId = true ∧
    w.store.reports.report.get (postId, reporter) = none ∧
    ∃ weightBps tokens,
      host.transfer w.tokens token reporter host.self stakeAmount = some tokens ∧
      w' = ⟨{ w.store with reports := { w.store.reports with
        reportersIdx := w.store.reports.reportersIdx.set
          (postId, (w.store.reports.reportCount.get postId).getD 0) reporter
        reportCount := w.store.reports.reportCount.set postId
          ((w.store.reports.reportCount.get postId).getD 0 + 1)
        report := w.store.reports.report.set (postId, reporter)
          ⟨postId, reporter, stakeAmount, token, reasonHash, env.sequence, .pending,
            weightBps⟩ } }.publish (.postReported postId reporter stakeAmount), tokens⟩ := by
  simp only [reportPost, Checked.bind_eq_ok, Checked.pure_eq_ok, requireAuth_eq_ok,
    validateAmount_eq_ok, requireWithError_eq_ok, expect_eq_ok, tokenCall_eq_ok, u32_eq_ok,
    Store.has_eq_false_iff, exists_const] at h
  obtain ⟨hauth, -, -, -, -, -, ⟨hpos, -⟩, post, hpost, -, hfree, -, tokens, ht, -, ⟨-, rfl⟩,
    weightBps, -, rfl⟩ := h
  exact ⟨hauth, hpos, Store.has_of_get hpost, hfree, weightBps, tokens, ht, rfl⟩

/-- The slash never touches the storage, and reaches the token contracts only
through calls on the author's creator token. -/
theorem upholdReport_ok {σ : Type} {host : Host σ} {env : Env} {w w' : World σ} {postId : Nat}
    {reporter : Address} (h : upholdReport host env w postId reporter = .ok w') :
    (w.store.posts.post.get postId = none ∧ w' = w) ∨
    ∃ post, w.store.posts.post.get postId = some post ∧
      w'.store = removePost env w.store post postId reporter ∧
      slashAuthor host w'.store w.tokens post.author = .ok w'.tokens := by
  unfold upholdReport at h
  split at h
  · rename_i post hpost
    simp only [Checked.bind_eq_ok, Checked.pure_eq_ok] at h
    obtain ⟨tokens, ht, rfl⟩ := h
    exact Or.inr ⟨post, hpost, rfl, ht⟩
  · rename_i hnone
    rw [Except.ok.injEq] at h
    exact Or.inl ⟨hnone, h.symm⟩

/-- The payment a verdict makes, and to whom. -/
theorem resolveReport_ok {σ : Type} {host : Host σ} {env : Env} {w w' : World σ} {postId : Nat}
    {report : Report} {verdict : ReportStatus}
    (h : resolveReport host env w postId report verdict = .ok w') :
    ∃ v payee event, host.transfer v.tokens report.token host.self payee report.stakeAmount =
        some w'.tokens ∧ w'.store = v.store.publish event ∧
      ((verdict = .upheld ∧ payee = report.reporter ∧
          upholdReport host env w postId report.reporter = .ok v) ∨
        (verdict = .dismissed ∧ w.store.params.treasury = some payee ∧ v = w)) := by
  unfold resolveReport at h
  cases verdict with
  | upheld =>
    simp only [Checked.bind_eq_ok, Checked.pure_eq_ok, tokenCall_eq_ok] at h
    obtain ⟨v, hv, tokens, ht, rfl⟩ := h
    exact ⟨v, report.reporter, _, ht, rfl, Or.inl ⟨rfl, rfl, hv⟩⟩
  | dismissed =>
    simp only [Checked.bind_eq_ok, Checked.pure_eq_ok, tokenCall_eq_ok, expect_eq_ok] at h
    obtain ⟨treasury, htreasury, tokens, ht, rfl⟩ := h
    exact ⟨w, treasury, _, ht, rfl, Or.inr ⟨rfl, htreasury, rfl⟩⟩
  | pending => cases h

/-! Where the payment goes through, so does the verdict. -/

theorem resolveReport_upheld {σ : Type} {host : Host σ} {env : Env} {w v : World σ} {postId : Nat}
    {report : Report} {tokens : σ} (hv : upholdReport host env w postId report.reporter = .ok v)
    (ht : host.transfer v.tokens report.token host.self report.reporter report.stakeAmount =
      some tokens) :
    resolveReport host env w postId report .upheld =
      .ok ⟨v.store.publish (.postRemovedByModeration postId report.reporter), tokens⟩ := by
  simp only [resolveReport, Checked.bind_eq_ok, Checked.pure_eq_ok, tokenCall_eq_ok]
  exact ⟨v, hv, tokens, ht, rfl⟩

theorem resolveReport_dismissed {σ : Type} {host : Host σ} {env : Env} {w : World σ} {postId : Nat}
    {report : Report} {treasury : Address} {tokens : σ}
    (htreasury : w.store.params.treasury = some treasury)
    (ht : host.transfer w.tokens report.token host.self treasury report.stakeAmount =
      some tokens) :
    resolveReport host env w postId report .dismissed =
      .ok ⟨w.store.publish (.reportDismissed postId report.reporter), tokens⟩ := by
  simp only [resolveReport, Checked.bind_eq_ok, Checked.pure_eq_ok, tokenCall_eq_ok, expect_eq_ok]
  exact ⟨treasury, htreasury, tokens, ht, rfl⟩

theorem reviewReport_ok {σ : Type} {host : Host σ} {env : Env} {w w' : World σ}
    {moderator : Address} {signers : List Address} {postId : Nat} {reporter : Address}
    {verdict : ReportStatus}
    (h : reviewReport host env w moderator signers postId reporter verdict = .ok w') :
    verdict ≠ .pending ∧
    ∃ pool report v, w.store.pools.get modsPool = some pool ∧
      requireSigners env pool signers = .ok () ∧
      w.store.reports.report.get (postId, reporter) = some report ∧ report.status = .pending ∧
      resolveReport host env w postId report verdict = .ok v ∧
      w' = { v with store := { v.store with reports := { v.store.reports with
        report := v.store.reports.report.set (postId, reporter) { report with status := verdict }
        reputation := v.store.reports.reputation.set report.reporter
          (nextReputation ((v.store.reports.reputation.get report.reporter).getD 0)
            verdict) } } } := by
  simp only [reviewReport, Checked.bind_eq_ok, Checked.pure_eq_ok, validateReportVerdict_eq_ok,
    requireWithError_eq_ok, expect_eq_ok, exists_const] at h
  obtain ⟨-, -, -, -, -, -, -, -, -, -, hverdict, -, pool, hpool, _, hsig, report, hreport, hpend,
    v, hv, rfl⟩ := h
  exact ⟨hverdict, pool, report, v, hpool, hsig, hreport, hpend, hv, rfl⟩

/-- Up to its payment, a review leaves everything but the post and the appeal
record in place; these change only when it upholds a report on a stored post. -/
theorem resolveReport_store {σ : Type} {host : Host σ} {env : Env} {w w' : World σ} {postId : Nat}
    {report : Report} {verdict : ReportStatus}
    (h : resolveReport host env w postId report verdict = .ok w') :
    ∃ posts appeals events, w'.store = { w.store with posts, appeals, events } ∧
      ((¬(verdict = .upheld ∧ w.store.posts.post.has postId = true) ∧
          posts = w.store.posts ∧ appeals = w.store.appeals) ∨
        ∃ post, verdict = .upheld ∧ w.store.posts.post.get postId = some post ∧
          posts = (removePost env w.store post postId report.reporter).posts ∧
          appeals = (removePost env w.store post postId report.reporter).appeals) := by
  obtain ⟨v, payee, event, -, hstore, hcase⟩ := resolveReport_ok h
  rw [hstore]
  rcases hcase with ⟨hupheld, -, hv⟩ | ⟨hdismissed, -, rfl⟩
  · rcases upholdReport_ok hv with ⟨hnone, rfl⟩ | ⟨post, hpost, hvs, -⟩
    · refine ⟨_, _, _, rfl, Or.inl ⟨fun hall => ?_, rfl, rfl⟩⟩
      rw [Store.has_eq, hnone] at hall
      cases hall.2
    · rw [hvs]
      exact ⟨_, _, _, rfl, Or.inr ⟨post, hupheld, hpost, rfl, rfl⟩⟩
  · refine ⟨_, _, _, rfl, Or.inl ⟨fun hall => ?_, rfl, rfl⟩⟩
    rw [hdismissed] at hall
    cases hall.1

/-- An appeal is filed exactly when its author asks for it in time and for the first
time. -/
theorem appealModeration_eq_ok {env : Env} {s s' : State} {appellant : Address} {postId : Nat}
    {reasonHash : Bytes32} :
    appealModeration env s appellant postId reasonHash = .ok s' ↔
      env.auth appellant = true ∧ isZeroAddress appellant = false ∧ 0 < postId ∧
      ∃ record, s.appeals.moderationRecord.get postId = some record ∧
      ∃ removedPost, s.appeals.removedPost.get postId = some removedPost ∧
        removedPost.author = appellant ∧ env.sequence ≤ record.appealDeadline ∧
        s.appeals.appeal.has postId = false ∧
        { s with appeals := { s.appeals with
            appeal := s.appeals.appeal.set postId
              (Appeal.mk postId appellant reasonHash env.sequence .pending [] []) } }.publish
          (.appealFiled postId appellant) = s' := by
  simp only [appealModeration, Checked.bind_eq_ok, Checked.pure_eq_ok, requireAuth_eq_ok,
    validateNonDefaultAddress_eq_ok, requireWithError_eq_ok, expect_eq_ok, exists_const]

theorem appealModeration_ok {env : Env} {s s' : State} {appellant : Address} {postId : Nat}
    {reasonHash : Bytes32} (h : appealModeration env s appellant postId reasonHash = .ok s') :
    ∃ appeal events, s' = { s with appeals := { s.appeals with appeal }, events } := by
  obtain ⟨-, -, -, -, -, -, -, -, -, -, rfl⟩ := appealModeration_eq_ok.mp h
  exact ⟨_, _, rfl⟩

/-- A vote on an appeal: who may cast it, and what it does. -/
theorem reviewAppeal_eq {env : Env} {s s' : State} {reviewer : Address} {postId : Nat}
    {approve : Bool} (h : reviewAppeal env s reviewer postId approve = .ok s') :
    env.auth reviewer = true ∧ ∃ pool appeal, s.pools.get modsPool = some pool ∧
      reviewer ∈ pool.admins ∧ s.appeals.appeal.get postId = some appeal ∧
      appeal.status = .pending ∧
      s' =
        let r := settleAppeal s pool.threshold postId (recordReview appeal reviewer approve)
        { r.1 with appeals := { r.1.appeals with
          appeal := r.1.appeals.appeal.set postId r.2 } } := by
  simp only [reviewAppeal, Checked.bind_eq_ok, Checked.pure_eq_ok, requireAuth_eq_ok,
    requireWithError_eq_ok, expect_eq_ok, exists_const] at h
  obtain ⟨hauth, -, -, -, pool, hpool, hadmin, appeal, happeal, hpending, rfl⟩ := h
  exact ⟨hauth, pool, appeal, hpool, hadmin, happeal, hpending, rfl⟩

/-- A review of an appeal either only records a vote, or also restores the post. -/
theorem reviewAppeal_ok {env : Env} {s s' : State} {reviewer : Address} {postId : Nat}
    {approve : Bool} (h : reviewAppeal env s reviewer postId approve = .ok s') :
    ∃ appeal events, s' = { s with appeals := { s.appeals with appeal }, events } ∨
      s' = { restoreModeratedPost s postId with
        appeals := { (restoreModeratedPost s postId).appeals with appeal }, events } := by
  obtain ⟨-, pool, appeal, -, -, -, -, rfl⟩ := reviewAppeal_eq h
  unfold settleAppeal
  split
  · exact ⟨_, _, Or.inr rfl⟩
  · split
    · exact ⟨_, _, Or.inl rfl⟩
    · exact ⟨_, _, Or.inl rfl⟩

end Contract
end Linkora
