import Linkora.Contract.Stakes
import Linkora.Contract.Tombstones

/-!
# Solvency

Pool deposits and report stakes share the contract's own account in each token.
For a token that is an exact ledger, what the account holds covers the balances of
the pools and the stakes of the pending reports, whoever is paid: the treasury, a
recipient or an author may be the contract itself.
-/

namespace Linkora
namespace Contract

variable {σ : Type} {host : Host σ} {T : Address}

/-! ## What the contract owes -/

def poolShare (T : Address) (_ : Symbol) (pool : Pool) : Int :=
  if pool.token = T then pool.balance else 0

def stakeShare (T : Address) (_ : Nat × Address) (report : Report) : Int :=
  if report.status = .pending ∧ report.token = T then report.stakeAmount else 0

/-- What the contract owes in `T`: the balances of the pools and the stakes of the
pending reports. -/
noncomputable def owed (T : Address) (s : State) : Int :=
  s.pools.total (poolShare T) + s.reports.report.total (stakeShare T)

/-- What `report_post` has checked of a report. -/
structure Filed (key : Nat × Address) (report : Report) : Prop where
  stake : 0 < report.stakeAmount
  post : 0 < key.1
  reporter_ne : isZeroAddress key.2 = false
  reporter : report.reporter = key.2

/-- The books are in order, and the account covers them. -/
structure Solvent (L : ExactLedger host T) (w : World σ) : Prop where
  balances : ∀ poolId pool, w.store.pools.get poolId = some pool →
    0 ≤ pool.balance ∧ pool.balance ≤ I128_MAX
  filed : ∀ key report, w.store.reports.report.get key = some report → Filed key report
  covered : owed T w.store ≤ L.held w.tokens

namespace Solvent

variable {L : ExactLedger host T} {w w' : World σ}

theorem poolShare_nonneg (h : Solvent L w) (poolId : Symbol) (pool : Pool)
    (hpool : w.store.pools.get poolId = some pool) : 0 ≤ poolShare T poolId pool := by
  rw [poolShare]
  split
  · exact (h.balances poolId pool hpool).1
  · exact le_rfl

theorem stakeShare_nonneg (h : Solvent L w) (key : Nat × Address) (report : Report)
    (hreport : w.store.reports.report.get key = some report) : 0 ≤ stakeShare T key report := by
  rw [stakeShare]
  split
  · exact (h.filed key report hreport).stake.le
  · exact le_rfl

/-- A pool of `T` is covered by itself. -/
theorem pool_covered (h : Solvent L w) {poolId : Symbol} {pool : Pool}
    (hpool : w.store.pools.get poolId = some pool) (htoken : pool.token = T) :
    pool.balance ≤ L.held w.tokens := by
  have hone := Store.contribution_le_total h.poolShare_nonneg poolId
  rw [Store.contribution_of_get hpool, poolShare, if_pos htoken] at hone
  have hrest : 0 ≤ w.store.reports.report.total (stakeShare T) :=
    Finset.sum_nonneg fun key _ => Store.contribution_nonneg h.stakeShare_nonneg key
  have hcovered := h.covered
  rw [owed] at hcovered
  omega

/-- So is a pending stake in `T`. -/
theorem stake_covered (h : Solvent L w) {key : Nat × Address} {report : Report}
    (hreport : w.store.reports.report.get key = some report) (hpending : report.status = .pending)
    (htoken : report.token = T) : report.stakeAmount ≤ L.held w.tokens := by
  have hone := Store.contribution_le_total h.stakeShare_nonneg key
  rw [Store.contribution_of_get hreport, stakeShare, if_pos ⟨hpending, htoken⟩] at hone
  have hrest : 0 ≤ w.store.pools.total (poolShare T) :=
    Finset.sum_nonneg fun poolId _ => Store.contribution_nonneg h.poolShare_nonneg poolId
  have hcovered := h.covered
  rw [owed] at hcovered
  omega

/-! ### Steps

Each call falls under one of three rules: reports may go and nothing else changes,
one pool is written, or one report is written.  What is left to a call is to account
for the difference in the contract's account. -/

theorem prune (h : Solvent L w) (hpools : w'.store.pools = w.store.pools)
    (hreports : ∀ key, w'.store.reports.report.get key = w.store.reports.report.get key ∨
      w'.store.reports.report.get key = none)
    (hheld : L.held w.tokens ≤ L.held w'.tokens) : Solvent L w' where
  balances := by
    rw [hpools]
    exact h.balances
  filed key report hreport := by
    rcases hreports key with hkey | hkey
    · rw [hkey] at hreport
      exact h.filed key report hreport
    · rw [hkey] at hreport
      cases hreport
  covered := by
    have hle := Store.total_le_of_pruned h.stakeShare_nonneg hreports
    have hcovered := h.covered
    rw [owed] at hcovered ⊢
    rw [hpools]
    omega

/-- The books stay and the account does not shrink. -/
theorem keep (h : Solvent L w) (hpools : w'.store.pools = w.store.pools)
    (hreports : w'.store.reports = w.store.reports)
    (hheld : L.held w.tokens ≤ L.held w'.tokens) : Solvent L w' :=
  h.prune hpools (fun key => Or.inl (by rw [hreports])) hheld

theorem writePool (h : Solvent L w) {poolId : Symbol} {pool : Pool}
    (hpools : w'.store.pools = w.store.pools.set poolId pool)
    (hreports : w'.store.reports = w.store.reports)
    (hbalance : 0 ≤ pool.balance ∧ pool.balance ≤ I128_MAX)
    (hheld : L.held w.tokens + poolShare T poolId pool ≤
      L.held w'.tokens + w.store.pools.contribution (poolShare T) poolId) : Solvent L w' where
  balances x q hq := by
    rw [hpools, Store.get_set] at hq
    split at hq
    · obtain rfl := Option.some.inj hq
      exact hbalance
    · exact h.balances x q hq
  filed := by
    rw [hreports]
    exact h.filed
  covered := by
    have hset := Store.total_set w.store.pools poolId pool (poolShare T)
    have hcovered := h.covered
    rw [owed] at hcovered ⊢
    rw [hpools, hreports]
    omega

/-- A pool is written that has been stored before, in the same token. -/
theorem updatePool (h : Solvent L w) {poolId : Symbol} {pool : Pool} (pool' : Pool)
    (hpool : w.store.pools.get poolId = some pool) (htoken : pool'.token = pool.token)
    (hpools : w'.store.pools = w.store.pools.set poolId pool')
    (hreports : w'.store.reports = w.store.reports)
    (hbalance : 0 ≤ pool'.balance ∧ pool'.balance ≤ I128_MAX)
    (hheld : L.held w.tokens + (if pool.token = T then pool'.balance else 0) ≤
      L.held w'.tokens + (if pool.token = T then pool.balance else 0)) : Solvent L w' := by
  refine h.writePool hpools hreports hbalance ?_
  rw [Store.contribution_of_get hpool, poolShare, poolShare, htoken]
  exact hheld

theorem writeReport (h : Solvent L w) (key : Nat × Address) (report : Report)
    (hpools : w'.store.pools = w.store.pools)
    (hreports : w'.store.reports.report = w.store.reports.report.set key report)
    (hfiled : Filed key report)
    (hheld : L.held w.tokens + stakeShare T key report ≤
      L.held w'.tokens + w.store.reports.report.contribution (stakeShare T) key) :
    Solvent L w' where
  balances := by
    rw [hpools]
    exact h.balances
  filed k q hq := by
    rw [hreports, Store.get_set] at hq
    split at hq
    · rename_i hk
      obtain rfl := Option.some.inj hq
      exact hk ▸ hfiled
    · exact h.filed k q hq
  covered := by
    have hset := Store.total_set w.store.reports.report key report (stakeShare T)
    have hcovered := h.covered
    rw [owed] at hcovered ⊢
    rw [hpools, hreports]
    omega

end Solvent

/-! ## The contract has no profile

The contract's address authorises no call, so it never registers, and the slash of
an author's creator tokens cannot burn what the contract holds. -/

/-- The contract's own address has not authorised the call. -/
def SelfSilent (host : Host σ) : Condition := fun _ env _ => env.auth host.self = false

instance (host : Host σ) (s : State) (env : Env) (c : Call) :
    Decidable (SelfSilent host s env c) :=
  inferInstanceAs (Decidable (env.auth host.self = false))

theorem ne_self {env : Env} {a : Address} (hsilent : env.auth host.self = false)
    (hauth : env.auth a = true) : a ≠ host.self := by
  rintro rfl
  rw [hsilent] at hauth
  cases hauth

theorem exec_registers {env : Env} {w w' : World σ} {c : Call} {user : Address}
    (he : exec host env w c = .ok w') (hc : c.registers = some user) : env.auth user = true := by
  cases c with
  | setProfile =>
    obtain rfl := Option.some.inj hc
    exact (setProfile_ok (World.onStore_eq_ok.mp he).1).1
  | _ => cases hc

theorem profile_self {w : World σ} (hw : ReachableUnder host (SelfSilent host) w) :
    w.store.profiles.profile.get host.self = none := by
  refine hw.store_invariant (I := fun s => s.profiles.profile.get host.self = none) ?_ ?_
  · intro s env admin treasury feeBps hs
    obtain ⟨-, -, access, events, rfl⟩ := initializeContract_ok hs
    rfl
  · intro w env c w' hnone hsilent he
    cases exec_profileStep he with
    | same hprofile _ => rw [hprofile, hnone]
    | register user entry hcall hprofile _ =>
      have hne : host.self ≠ user := (ne_self hsilent (exec_registers he hcall)).symm
      rw [hprofile, Store.get_set_of_ne hne, hnone]
    | delete user hprofile _ =>
      rw [hprofile, Store.get_remove]
      split
      · rfl
      · exact hnone
    | sweep user hprofile _ => rw [hprofile, hnone]

theorem slashAuthor_keeps (L : ExactLedger host T) {s : State} {tokens tokens' : σ}
    {author : Address} (hself : s.profiles.profile.get host.self = none)
    (h : slashAuthor host s tokens author = .ok tokens') : L.held tokens ≤ L.held tokens' := by
  unfold slashAuthor at h
  dsimp only at h
  split at h
  · cases hprofile : s.profiles.profile.get author with
    | none =>
      rw [hprofile, Except.ok.injEq] at h
      exact h ▸ le_rfl
    | some profile =>
      have hauthor : author ≠ host.self := by
        rintro rfl
        rw [hself] at hprofile
        cases hprofile
      simp only [hprofile, Checked.bind_eq_ok, tokenCall_eq_ok] at h
      obtain ⟨⟨balance, t₁⟩, hbalance, product, -, h⟩ := h
      have h₁ : L.held tokens ≤ L.held t₁ := L.query_balance hbalance
      split at h
      · simp only [Checked.bind_eq_ok, tokenCall_eq_ok] at h
        obtain ⟨⟨allowance, t₂⟩, hallowance, h⟩ := h
        have h₂ : L.held t₁ ≤ L.held t₂ := L.query_allowance hallowance
        split at h
        · exact (h₁.trans h₂).trans (L.burn_keeps hauthor (tokenCall_eq_ok.mp h))
        · rw [Except.ok.injEq] at h
          subst h
          exact h₁.trans h₂
      · rw [Except.ok.injEq] at h
        subst h
        exact h₁
  · rw [Except.ok.injEq] at h
    exact h ▸ le_rfl

theorem upholdReport_keeps (L : ExactLedger host T) {env : Env} {w v : World σ} {postId : Nat}
    {reporter : Address} (hself : w.store.profiles.profile.get host.self = none)
    (h : upholdReport host env w postId reporter = .ok v) :
    L.held w.tokens ≤ L.held v.tokens := by
  rcases upholdReport_ok h with ⟨-, rfl⟩ | ⟨post, -, hstore, hslash⟩
  · exact le_rfl
  · refine slashAuthor_keeps L ?_ hslash
    rw [hstore]
    exact hself

/-! ## Every call -/

namespace Solvent

variable {L : ExactLedger host T} {w w' : World σ} {env : Env}

theorem tip {tipper token : Address} {postId : Nat} {amount : Int} (h : Solvent L w)
    (hsilent : env.auth host.self = false) (hfee : getFeeBps w.store ≤ 10000)
    (he : Contract.tip host env w tipper postId token amount = .ok w') : Solvent L w' := by
  obtain ⟨hauth, hpos, post, tips, feeAmount, tipTotal, paid, tokens, -, hfeeAmount, -, hpaid,
    ht, rfl⟩ := tip_ok he
  have hne : tipper ≠ host.self := ne_self hsilent hauth
  obtain ⟨hnonneg, hle⟩ := tipFee_bounds hpos hfee hfeeAmount
  have h₁ : L.held w.tokens ≤ L.held paid := by
    rcases hpaid with rfl | ⟨treasury, hpaid⟩
    · exact le_rfl
    · exact L.transfer_keeps hne hnonneg hpaid
  have h₂ : L.held paid ≤ L.held tokens := L.transfer_keeps hne (by omega) ht
  exact h.keep rfl rfl (h₁.trans h₂)

theorem payRent {user token : Address} {amount : Int} (h : Solvent L w)
    (hsilent : env.auth host.self = false)
    (he : Contract.payRent host env w user token amount = .ok w') : Solvent L w' := by
  obtain ⟨hauth, hpos, decimals, asked, treasury, tokens, event, hdecimals, ht, rfl⟩ :=
    payRent_ok he
  have hne : user ≠ host.self := ne_self hsilent hauth
  have h₁ : L.held w.tokens ≤ L.held asked := L.query_decimals hdecimals
  have h₂ : L.held asked ≤ L.held tokens := L.transfer_keeps hne hpos.le ht
  exact h.keep rfl rfl (h₁.trans h₂)

theorem createPool {admin token : Address} {poolId : Symbol} {initialAdmins : List Address}
    {threshold : Nat} (h : Solvent L w) (htokens : w'.tokens = w.tokens)
    (he : Contract.createPool env w.store admin poolId token initialAdmins threshold =
      .ok w'.store) : Solvent L w' := by
  obtain ⟨hfree, -, -, hs⟩ := createPool_ok he
  refine h.writePool (by rw [hs]; rfl) (by rw [hs]; rfl)
    ⟨le_rfl, show (0 : Int) ≤ I128_MAX by decide⟩ ?_
  rw [Store.contribution, hfree, Option.elim_none, poolShare, htokens]
  show L.held w.tokens + (if token = T then 0 else 0) ≤ L.held w.tokens + 0
  rw [ite_self]

/-- The admins and the threshold of a pool are changed. -/
theorem reformPool {poolId : Symbol} {pool : Pool} {admins : List Address} {threshold : Nat}
    (h : Solvent L w) (hpool : w.store.pools.get poolId = some pool)
    (hpools : w'.store.pools = w.store.pools.set poolId { pool with admins, threshold })
    (hreports : w'.store.reports = w.store.reports) (htokens : w'.tokens = w.tokens) :
    Solvent L w' := by
  refine h.updatePool { pool with admins, threshold } hpool rfl hpools hreports
    (h.balances poolId pool hpool) ?_
  rw [htokens]

theorem poolDeposit {depositor token : Address} {poolId : Symbol} {amount : Int}
    (h : Solvent L w) (hsilent : env.auth host.self = false)
    (he : Contract.poolDeposit host env w depositor poolId token amount = .ok w') :
    Solvent L w' := by
  obtain ⟨hauth, hpos, pool, tokens, hpool, rfl, hmax, ht, rfl⟩ := poolDeposit_ok he
  have hne : depositor ≠ host.self := ne_self hsilent hauth
  have hbalance := h.balances poolId pool hpool
  have hheld := L.receive hne rfl ht
  refine h.updatePool { pool with balance := pool.balance + amount } hpool rfl rfl rfl
    ⟨by show 0 ≤ pool.balance + amount; omega, hmax⟩ ?_
  show _ + (if pool.token = T then pool.balance + amount else 0) ≤ L.held tokens + _
  by_cases htoken : pool.token = T
  · rw [if_pos htoken] at hheld ⊢
    rw [if_pos htoken]
    omega
  · rw [if_neg htoken] at hheld ⊢
    rw [if_neg htoken]
    omega

theorem poolWithdraw {signers : List Address} {recipient : Address} {poolId : Symbol}
    {amount : Int} {minOutAmount : Option Int} {deadline : Option Nat} (h : Solvent L w)
    (he : Contract.poolWithdraw host env w signers poolId amount recipient minOutAmount deadline =
      .ok w') : Solvent L w' := by
  obtain ⟨hpos, pool, tokens, hpool, -, hle, ht, rfl⟩ := poolWithdraw_ok he
  have hbalance := h.balances poolId pool hpool
  have hheld := L.spend hpos.le ht
  refine h.updatePool { pool with balance := pool.balance - amount } hpool rfl rfl rfl
    ⟨by show 0 ≤ pool.balance - amount; omega, by show pool.balance - amount ≤ _; omega⟩ ?_
  show _ + (if pool.token = T then pool.balance - amount else 0) ≤ L.held tokens + _
  by_cases htoken : pool.token = T
  · rw [if_pos htoken] at hheld ⊢
    rw [if_pos htoken]
    omega
  · rw [if_neg htoken] at hheld ⊢
    rw [if_neg htoken]
    omega

theorem reportPost {reporter token : Address} {postId : Nat} {stakeAmount : Int}
    {reasonHash : Bytes32} (h : Solvent L w) (hsilent : env.auth host.self = false)
    (he : Contract.reportPost host env w reporter postId token stakeAmount reasonHash = .ok w') :
    Solvent L w' := by
  obtain ⟨hreporter, hpost⟩ := reportPost_valid he
  obtain ⟨hauth, hpos, -, hfree, weightBps, tokens, ht, rfl⟩ := reportPost_ok he
  have hne : reporter ≠ host.self := ne_self hsilent hauth
  have hheld := L.receive hne rfl ht
  refine h.writeReport _ _ rfl rfl ⟨hpos, hpost, hreporter, rfl⟩ ?_
  rw [Store.contribution, hfree, Option.elim_none, stakeShare]
  simp only [true_and, add_zero]
  exact hheld

theorem reviewReport {moderator reporter : Address} {signers : List Address} {postId : Nat}
    {verdict : ReportStatus} (h : Solvent L w)
    (hself : w.store.profiles.profile.get host.self = none)
    (he : Contract.reviewReport host env w moderator signers postId reporter verdict = .ok w') :
    Solvent L w' := by
  obtain ⟨hverdict, pool, report, v, -, -, hreport, hpending, hv, rfl⟩ := reviewReport_ok he
  obtain ⟨posts, appeals, events, hstore, -⟩ := resolveReport_store hv
  obtain ⟨u, payee, event, ht, -, hcase⟩ := resolveReport_ok hv
  have hfiled := h.filed _ report hreport
  have hu : L.held w.tokens ≤ L.held u.tokens := by
    rcases hcase with ⟨-, -, hu⟩ | ⟨-, -, rfl⟩
    · exact upholdReport_keeps L hself hu
    · exact le_rfl
  have hheld := L.spend hfiled.stake.le ht
  refine h.writeReport (postId, reporter) { report with status := verdict } ?_ ?_
    ⟨hfiled.stake, hfiled.post, hfiled.reporter_ne, hfiled.reporter⟩ ?_
  · rw [hstore]
  · rw [hstore]
  · rw [Store.contribution_of_get hreport, stakeShare, if_neg (fun hand => hverdict hand.1),
      stakeShare]
    simp only [hpending, true_and, add_zero]
    exact hu.trans hheld

/-- A call of a reachable contract keeps it solvent. -/
theorem exec {c : Call} (h : Solvent L w) (hw : ReachableUnder host (SelfSilent host) w)
    (hsilent : env.auth host.self = false) (he : exec host env w c = .ok w') : Solvent L w' := by
  cases c with
  | tip tipper postId token amount =>
    refine h.tip hsilent ?_ he
    obtain ⟨n, hn, hle⟩ := (ParametersInRange.of_reachable hw.reachable).fee
    rw [getFeeBps, hn]
    exact hle
  | payRent user token amount => exact h.payRent hsilent he
  | createPool admin poolId token initialAdmins threshold =>
    obtain ⟨hs, htokens⟩ := World.onStore_eq_ok.mp he
    exact h.createPool htokens hs
  | poolDeposit depositor poolId token amount => exact h.poolDeposit hsilent he
  | poolWithdraw signers poolId amount recipient minOutAmount deadline => exact h.poolWithdraw he
  | addPoolAdmin signers poolId newAdmin =>
    obtain ⟨hok, htokens⟩ := World.onStore_eq_ok.mp he
    obtain ⟨pool, hpool, -, -, hs⟩ := addPoolAdmin_ok hok
    exact h.reformPool hpool (by rw [hs]; rfl) (by rw [hs]; rfl) htokens
  | removePoolAdmin signers poolId admin =>
    obtain ⟨hok, htokens⟩ := World.onStore_eq_ok.mp he
    obtain ⟨pool, hpool, -, -, hs⟩ := removePoolAdmin_ok hok
    exact h.reformPool hpool (by rw [hs]; rfl) (by rw [hs]; rfl) htokens
  | updatePoolThreshold signers poolId threshold =>
    obtain ⟨hok, htokens⟩ := World.onStore_eq_ok.mp he
    obtain ⟨pool, hpool, -, -, -, hs⟩ := updatePoolThreshold_ok hok
    exact h.reformPool hpool (by rw [hs]; rfl) (by rw [hs]; rfl) htokens
  | reportPost reporter postId token stakeAmount reasonHash => exact h.reportPost hsilent he
  | reviewReport moderator signers postId reporter verdict =>
    exact h.reviewReport (profile_self hw) he
  | batchCleanupPost postId maxEntries =>
    obtain ⟨hok, htokens⟩ := World.onStore_eq_ok.mp he
    have hpools : w.store.SameOn w'.store .pools := exec_frame he (by simp [Call.parts])
    exact h.prune hpools (fun key => (batchCleanupPost_report hok key).imp_right And.left)
      (by rw [htokens])
  | batchCleanupProfile user maxEntries =>
    obtain ⟨hok, htokens⟩ := World.onStore_eq_ok.mp he
    have hpools : w.store.SameOn w'.store .pools := exec_frame he (by simp [Call.parts])
    have hloop := Graph.Loopless.of_reachable hw.reachable
    exact h.prune hpools
      (fun key => (batchCleanupProfile_report hloop hok key).imp_right And.left) (by rw [htokens])
  | batchBumpUserGraph admin user =>
    obtain ⟨-, -, rfl⟩ := Checked.map_eq_ok.mp he
    exact h
  | _ =>
    -- No other call has to do with the pools, the reports or a token.
    have hpools : w.store.SameOn w'.store .pools := exec_frame he (by simp [Call.parts])
    have hreports : w.store.SameOn w'.store .reports := exec_frame he (by simp [Call.parts])
    obtain ⟨-, htokens⟩ := World.onStore_eq_ok.mp he
    exact h.keep hpools hreports (by rw [htokens])

end Solvent

theorem Solvent.of_reachable (L : ExactLedger host T) {w : World σ}
    (hw : ReachableUnder host (SelfSilent host) w) : Solvent L w := by
  have hboth : ReachableUnder host (SelfSilent host) w ∧ Solvent L w := by
    refine hw.invariant (I := fun w => ReachableUnder host (SelfSilent host) w ∧ Solvent L w)
      ?_ ?_ ?_
    · intro w hstart
      refine ⟨⟨w, [], hstart, .nil⟩, ?_⟩
      obtain ⟨env, admin, treasury, feeBps, hs⟩ := hstart
      obtain ⟨-, -, access, events, hs⟩ := initializeContract_ok hs
      have hpools : w.store.pools = ∅ := by rw [hs]; rfl
      have hreports : w.store.reports.report = ∅ := by rw [hs]; rfl
      refine ⟨?_, ?_, ?_⟩
      · intro poolId pool hpool
        rw [hpools] at hpool
        cases hpool
      · intro key report hreport
        rw [hreports] at hreport
        cases hreport
      · rw [owed, hpools, hreports, Store.total_empty, Store.total_empty, add_zero]
        exact L.bal_nonneg w.tokens host.self
    · rintro w env c w' ⟨hw, h⟩ hsilent he
      exact ⟨hw.call hsilent he, h.exec hw hsilent he⟩
    · rintro w tokens ⟨hw, h⟩ hothers
      exact ⟨hw.others hothers, h.keep rfl rfl (L.others_keep hothers)⟩
  exact hboth.2

/-! ## Payments -/

/-- Everything that `pool_withdraw` checks, the balance of the pool apart. -/
structure WithdrawalInOrder (env : Env) (s : State) (signers : List Address) (pool : Pool)
    (amount : Int) (recipient : Address) (minOutAmount : Option Int) (deadline : Option Nat) :
    Prop where
  running : Running s .pools
  signers_ne : signers ≠ [] ∧ ∀ a ∈ signers, isZeroAddress a = false
  recipient_ne : isZeroAddress recipient = false
  amount_in_range : 0 < amount ∧ amount ≤ MAX_PROTOCOL_AMOUNT
  in_time : ∀ d ∈ deadline, env.timestamp ≤ d
  signed : requireSigners env pool signers = .ok ()
  min_out : ∀ minOut ∈ minOutAmount, minOut ≤ amount

theorem poolWithdraw_of_inOrder {env : Env} {w : World σ} {signers : List Address}
    {poolId : Symbol} {pool : Pool} {amount : Int} {recipient : Address}
    {minOutAmount : Option Int} {deadline : Option Nat} {tokens : σ}
    (h : WithdrawalInOrder env w.store signers pool amount recipient minOutAmount deadline)
    (hpool : w.store.pools.get poolId = some pool) (hle : amount ≤ pool.balance)
    (hmax : pool.balance ≤ I128_MAX)
    (ht : host.transfer w.tokens pool.token host.self recipient amount = some tokens) :
    ∃ w', poolWithdraw host env w signers poolId amount recipient minOutAmount deadline =
      .ok w' := by
  obtain ⟨hpos, hprotocol⟩ := h.amount_in_range
  have hmin : I128_MIN ≤ 0 := by decide
  have hreceived : poolWithdrawReceivedAmount amount = .ok amount :=
    poolWithdrawReceivedAmount_eq (by omega) (by omega)
  simp only [poolWithdraw, Checked.bind_eq_ok, Checked.pure_eq_ok, requireNotPaused_eq_ok,
    validateAddressList_eq_ok, validateNonDefaultAddress_eq_ok, validateAmount_eq_ok,
    expect_eq_ok, requireWithError_eq_ok, i128_eq_ok, tokenCall_eq_ok, exists_const]
  exact ⟨_, h.running, h.signers_ne, h.recipient_ne, h.amount_in_range, h.in_time, pool, hpool, (),
    h.signed, hle, amount, hreceived, h.min_out, _, ⟨⟨by omega, by omega⟩, rfl⟩, tokens, ht, rfl⟩

/-- In every state that the contract can reach, what it holds in an exact ledger
covers what it owes there: a withdrawal within the balance of its pool and the
review of any pending report can be paid. -/
theorem solvency (L : ExactLedger host T) {w : World σ}
    (hw : ReachableUnder host (SelfSilent host) w) :
    owed T w.store ≤ L.held w.tokens ∧
    (∀ env signers poolId pool amount recipient minOutAmount deadline,
      w.store.pools.get poolId = some pool → pool.token = T → amount ≤ pool.balance →
      WithdrawalInOrder env w.store signers pool amount recipient minOutAmount deadline →
      ∃ w', exec host env w
        (.poolWithdraw signers poolId amount recipient minOutAmount deadline) = .ok w') ∧
    ∀ env moderator signers postId reporter report,
      w.store.reports.report.get (postId, reporter) = some report → report.status = .pending →
      report.token = T → Signed env w.store moderator signers →
      (∃ w', exec host env w (.reviewReport moderator signers postId reporter .dismissed) =
        .ok w') ∧
      ∀ v, upholdReport host env w postId reporter = .ok v →
        ∃ w', exec host env w (.reviewReport moderator signers postId reporter .upheld) =
          .ok w' := by
  have h := Solvent.of_reachable L hw
  refine ⟨h.covered, ?_, ?_⟩
  · intro env signers poolId pool amount recipient minOutAmount deadline hpool htoken hle horder
    subst htoken
    obtain ⟨tokens, ht⟩ := L.transfer_covered w.tokens recipient amount horder.amount_in_range.1
      (hle.trans (h.pool_covered hpool rfl))
    exact poolWithdraw_of_inOrder horder hpool hle (h.balances poolId pool hpool).2 ht
  · intro env moderator signers postId reporter report hreport hpending htoken hsigned
    subst htoken
    have hfiled := h.filed _ report hreport
    have hcovered := h.stake_covered hreport hpending rfl
    have hreporter : report.reporter = reporter := hfiled.reporter
    constructor
    · obtain ⟨treasury, htreasury, -⟩ := (ParametersInRange.of_reachable hw.reachable).treasury
      obtain ⟨tokens, ht⟩ := L.transfer_covered w.tokens treasury _ hfiled.stake hcovered
      obtain ⟨w', hw', -⟩ := reviewReport_of_signed hsigned hfiled.reporter_ne hfiled.post hreport
        hpending (by decide) (resolveReport_dismissed htreasury ht)
      exact ⟨w', hw'⟩
    · intro v hv
      have hkeeps := upholdReport_keeps L (profile_self hw) hv
      obtain ⟨tokens, ht⟩ := L.transfer_covered v.tokens report.reporter _ hfiled.stake
        (hcovered.trans hkeeps)
      obtain ⟨w', hw', -⟩ := reviewReport_of_signed hsigned hfiled.reporter_ne hfiled.post hreport
        hpending (by decide) (resolveReport_upheld (hreporter ▸ hv) ht)
      exact ⟨w', hw'⟩

/-- A pool of 50 and a stake of 20, with nothing else in the account. -/
theorem solvency_of_pool_and_stake :
    ∃ w : World Book, ReachableUnder (bookHost linkora) (SelfSilent (bookHost linkora)) w ∧
      w.tokens coin linkora = 70 ∧ owed coin w.store ≤ 70 ∧
      (∃ w', exec (bookHost linkora) (signedAt 7) w
        (.poolWithdraw [alice] "mods" 50 bob none none) = .ok w') ∧
      ∃ w', exec (bookHost linkora) (signedAt 7) w
        (.reviewReport alice [alice] 1 carol .dismissed) = .ok w' := by
  have hdemo : (demo (SelfSilent (bookHost linkora)) (fun _ a => if a = linkora then 0 else 100)
      [(signedAt 2, .createPool alice "mods" coin [alice] 1),
        (signedAt 3, .grantRole alice alice .moderator),
        (signedAt 4, .createPost alice (asciiBytes "hello")),
        (signedAt 5, .poolDeposit bob "mods" coin 50),
        (signedAt 6, .reportPost carol 1 coin 20 0)]).map
        (fun w => (w.tokens coin linkora, w.store.pools.get "mods",
          (isPaused w.store, isModulePaused w.store .pools),
          hasRoleInternal w.store alice .moderator,
          w.store.reports.report.get (1, carol))) =
      some (70, some ⟨coin, 50, [alice], 1⟩, (false, false), true,
        some ⟨1, carol, 20, coin, 0, 6, .pending, 10000⟩) := by rfl
  obtain ⟨w, hw, hsee⟩ := reachable_demo hdemo
  simp only [Prod.mk.injEq] at hsee
  obtain ⟨hheld, hpool, hrunning, hrole, hreport⟩ := hsee
  have hsigned : Signed (signedAt 7) w.store alice [alice] :=
    ⟨by decide, by decide, hrole, by decide, _, hpool, by decide⟩
  obtain ⟨hcovered, hwithdraw, hreview⟩ := solvency (bookLedger linkora coin) hw
  refine ⟨w, hw, hheld, ?_, ?_, ?_⟩
  · have hbal : (bookLedger linkora coin).held w.tokens = 70 := by
      show ((w.tokens coin linkora : Nat) : Int) = 70
      rw [hheld]
      rfl
    rwa [hbal] at hcovered
  · exact hwithdraw (signedAt 7) [alice] "mods" _ 50 bob none none hpool rfl (by decide)
      ⟨hrunning, by decide, by decide, by decide, by decide, by decide, by decide⟩
  · exact (hreview (signedAt 7) alice [alice] 1 carol _ hreport rfl rfl hsigned).1

end Contract
end Linkora
