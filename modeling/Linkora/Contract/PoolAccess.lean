import Linkora.Contract.Solvency

/-!
# The money of a pool stays within reach

Admins come and go and the threshold moves, but no call leaves a pool that its admins cannot
open together, and what the contract holds covers what they take out.
-/

namespace Linkora
namespace Contract

variable {σ : Type} {host : Host σ} {T : Address}

/-- The admins meet the threshold when all of them sign. -/
structure Pool.Operable (pool : Pool) : Prop where
  pos : 0 < pool.threshold
  le : pool.threshold ≤ pool.admins.length
  admins : ∀ a ∈ pool.admins, isZeroAddress a = false

theorem Pool.Operable.admins_ne {pool : Pool} (h : pool.Operable) : pool.admins ≠ [] := by
  intro hnil
  have hpos := h.pos
  have hle := h.le
  rw [hnil, List.length_nil] at hle
  omega

theorem Pool.Operable.signed {pool : Pool} (h : pool.Operable) {env : Env}
    (hauth : ∀ a ∈ pool.admins, env.auth a = true) :
    requireSigners env pool pool.admins = .ok () :=
  requireSigners_eq_ok.mpr ⟨h.le, fun a ha => ⟨ha, hauth a ha⟩⟩

def AllOperable (pools : Store Symbol Pool) : Prop :=
  ∀ poolId pool, pools.get poolId = some pool → pool.Operable

theorem AllOperable.set {pools : Store Symbol Pool} (h : AllOperable pools) {pool : Pool}
    (hpool : pool.Operable) (poolId : Symbol) : AllOperable (pools.set poolId pool) := by
  intro x q hq
  rw [Store.get_set] at hq
  split at hq
  · obtain rfl := Option.some.inj hq
    exact hpool
  · exact h x q hq

theorem createPool_admins {env : Env} {s s' : State} {admin : Address} {poolId : Symbol}
    {token : Address} {initialAdmins : List Address} {threshold : Nat}
    (h : createPool env s admin poolId token initialAdmins threshold = .ok s') :
    ∀ a ∈ initialAdmins, isZeroAddress a = false := by
  simp only [createPool, Checked.bind_eq_ok, validateAddressList_eq_ok, exists_const] at h
  obtain ⟨-, -, -, -, -, -, -, -, ⟨-, hadmins⟩, -⟩ := h
  exact hadmins

theorem addPoolAdmin_admin {env : Env} {s s' : State} {signers : List Address} {poolId : Symbol}
    {newAdmin : Address} (h : addPoolAdmin env s signers poolId newAdmin = .ok s') :
    isZeroAddress newAdmin = false := by
  simp only [addPoolAdmin, Checked.bind_eq_ok, validateNonDefaultAddress_eq_ok, exists_const] at h
  obtain ⟨-, -, -, -, hnew, -⟩ := h
  exact hnew

theorem exec_allOperable {env : Env} {w w' : World σ} {c : Call} (h : AllOperable w.store.pools)
    (he : exec host env w c = .ok w') : AllOperable w'.store.pools := by
  cases c with
  | createPool admin poolId token initialAdmins threshold =>
    have hok := (World.onStore_eq_ok.mp he).1
    obtain ⟨-, hpos, hle, hs⟩ := createPool_ok hok
    rw [hs]
    refine h.set ?_ poolId
    exact ⟨hpos, hle, createPool_admins hok⟩
  | poolDeposit depositor poolId token amount =>
    obtain ⟨-, -, pool, tokens, hpool, -, -, -, rfl⟩ := poolDeposit_ok he
    have hop := h poolId pool hpool
    refine h.set ?_ poolId
    exact ⟨hop.pos, hop.le, hop.admins⟩
  | poolWithdraw signers poolId amount recipient minOutAmount deadline =>
    obtain ⟨-, pool, tokens, hpool, -, -, -, rfl⟩ := poolWithdraw_ok he
    have hop := h poolId pool hpool
    refine h.set ?_ poolId
    exact ⟨hop.pos, hop.le, hop.admins⟩
  | addPoolAdmin signers poolId newAdmin =>
    have hok := (World.onStore_eq_ok.mp he).1
    obtain ⟨pool, hpool, -, -, hs⟩ := addPoolAdmin_ok hok
    have hop := h poolId pool hpool
    have hle : pool.threshold ≤ (pool.admins ++ [newAdmin]).length := by
      rw [List.length_append]
      exact hop.le.trans (Nat.le_add_right _ _)
    have hadmins : ∀ a ∈ pool.admins ++ [newAdmin], isZeroAddress a = false := by
      intro a ha
      rcases List.mem_append.mp ha with ha | ha
      · exact hop.admins a ha
      · obtain rfl := List.mem_singleton.mp ha
        exact addPoolAdmin_admin hok
    rw [hs]
    refine h.set ?_ poolId
    exact ⟨hop.pos, hle, hadmins⟩
  | removePoolAdmin signers poolId admin =>
    obtain ⟨pool, hpool, -, hle, hs⟩ := removePoolAdmin_ok (World.onStore_eq_ok.mp he).1
    have hop := h poolId pool hpool
    rw [hs]
    refine h.set ?_ poolId
    exact ⟨hop.pos, hle, fun a ha => hop.admins a (List.mem_of_mem_filter ha)⟩
  | updatePoolThreshold signers poolId threshold =>
    obtain ⟨pool, hpool, -, hone, hle, hs⟩ :=
      updatePoolThreshold_ok (World.onStore_eq_ok.mp he).1
    rw [hs]
    refine h.set ?_ poolId
    exact ⟨hone, hle, (h poolId pool hpool).admins⟩
  | _ =>
    have hpools' : w'.store.pools = w.store.pools :=
      exec_frame (p := .pools) he (by simp [Call.parts])
    rw [hpools']
    exact h

theorem AllOperable.of_reachable {w : World σ} (hw : Reachable host w) :
    AllOperable w.store.pools := by
  refine hw.store_invariant (I := fun s => AllOperable s.pools) ?_ ?_
  · intro s env admin treasury feeBps hs
    obtain ⟨-, -, access, events, rfl⟩ := initializeContract_ok hs
    intro poolId pool hpool
    cases hpool
  · intro w env c w' hw he
    exact exec_allOperable hw he

/-! ## Withdrawals by all of the admins -/

/-- Every admin of the pool signs, in a call that the contract itself is not the source of. -/
structure SignedByAll (host : Host σ) (env : Env) (pool : Pool) : Prop where
  auth : ∀ a ∈ pool.admins, env.auth a = true
  silent : env.auth host.self = false

theorem poolWithdraw_of_signedByAll (L : ExactLedger host T) {w : World σ}
    (hw : ReachableUnder host (SelfSilent host) w) {env : Env} {poolId : Symbol} {pool : Pool}
    {recipient : Address} (amount : Int) (hpool : w.store.pools.get poolId = some pool)
    (htoken : pool.token = T) (hrunning : Running w.store .pools) (hall : SignedByAll host env pool)
    (hrecipient : isZeroAddress recipient = false)
    (hrange : 0 < amount ∧ amount ≤ MAX_PROTOCOL_AMOUNT) (hle : amount ≤ pool.balance) :
    ∃ w', exec host env w (.poolWithdraw pool.admins poolId amount recipient none none) = .ok w' ∧
      ReachableUnder host (SelfSilent host) w' ∧ Running w'.store .pools ∧
      w'.store.pools.get poolId = some { pool with balance := pool.balance - amount } := by
  subst htoken
  have hsolvent := Solvent.of_reachable L hw
  have hop := AllOperable.of_reachable hw.reachable poolId pool hpool
  obtain ⟨tokens, ht⟩ := L.transfer_covered w.tokens recipient amount hrange.1
    (hle.trans (hsolvent.pool_covered hpool rfl))
  have horder : WithdrawalInOrder env w.store pool.admins pool amount recipient none none :=
    { running := hrunning
      signers_ne := ⟨hop.admins_ne, hop.admins⟩
      recipient_ne := hrecipient
      amount_in_range := hrange
      in_time := by simp
      signed := hop.signed hall.auth
      min_out := by simp }
  obtain ⟨w', he⟩ := poolWithdraw_of_inOrder horder hpool hle
    (hsolvent.balances poolId pool hpool).2 ht
  obtain ⟨-, q, tokens', hq, -, -, -, hw'⟩ := poolWithdraw_ok he
  obtain rfl := Option.some.inj (hpool.symm.trans hq)
  have hcall : exec host env w (.poolWithdraw pool.admins poolId amount recipient none none) =
      .ok w' := he
  refine ⟨w', hcall, hw.call hall.silent hcall, ?_, ?_⟩
  · rw [hw']
    exact hrunning
  · rw [hw']
    exact Store.get_set_self ..

/-- From every state that the contract can reach, the admins of a pool can take all of its money
out, however often the admins and the threshold have been changed. -/
theorem pool_can_be_emptied (L : ExactLedger host T) {w : World σ}
    (hw : ReachableUnder host (SelfSilent host) w) (env : Env) (recipient : Address)
    {poolId : Symbol} {pool : Pool} (hpool : w.store.pools.get poolId = some pool)
    (htoken : pool.token = T) (hrunning : Running w.store .pools) (hall : SignedByAll host env pool)
    (hrecipient : isZeroAddress recipient = false) :
    ∃ acts w', Run (Step host) w acts w' ∧
      (∀ act ∈ acts, ∃ amount, act =
        .call env (.poolWithdraw pool.admins poolId amount recipient none none)) ∧
      w'.store.pools.get poolId = some { pool with balance := 0 } := by
  -- on what is left in the pool, in withdrawals as large as the contract allows
  induction hleft : pool.balance.toNat using Nat.strong_induction_on generalizing w pool with
  | _ left ih =>
    have hbalance := ((Solvent.of_reachable L hw).balances poolId pool hpool).1
    rcases Int.lt_or_eq_of_le hbalance with hpos | hzero
    · have hmax : (0 : Int) < MAX_PROTOCOL_AMOUNT := by decide
      obtain ⟨w₁, he, hw₁, hrunning₁, hpool₁⟩ := poolWithdraw_of_signedByAll L hw
        (min pool.balance MAX_PROTOCOL_AMOUNT) hpool htoken hrunning hall hrecipient
        ⟨lt_min hpos hmax, min_le_right _ _⟩ (min_le_left _ _)
      obtain ⟨acts, w', hrun, hacts, hempty⟩ := ih _ (by
        rw [← hleft]
        show (pool.balance - min pool.balance MAX_PROTOCOL_AMOUNT).toNat < pool.balance.toNat
        omega) hw₁ hpool₁ htoken hrunning₁ ⟨hall.auth, hall.silent⟩ rfl
      refine ⟨_, w', (Run.single (.call he)).trans hrun, ?_, hempty⟩
      intro act hact
      rcases List.mem_append.mp hact with hact | hact
      · exact ⟨_, List.mem_singleton.mp hact⟩
      · exact hacts act hact
    · refine ⟨[], w, .nil, fun act hact => absurd hact List.not_mem_nil, ?_⟩
      rw [hpool, hzero]

/-- A pool of two that has taken in a third admin and asks for all of them. -/
theorem pool_emptied_by_three :
    ∃ (w w' : World Book) (acts : List (Action Book)),
      ReachableUnder (bookHost linkora) (SelfSilent (bookHost linkora)) w ∧
      w.store.pools.get "dao" = some ⟨coin, 50, [alice, carol, bob], 3⟩ ∧
      Run (Step (bookHost linkora)) w acts w' ∧
      w'.store.pools.get "dao" = some ⟨coin, 0, [alice, carol, bob], 3⟩ := by
  have hdemo : (demo (SelfSilent (bookHost linkora)) (fun _ a => if a = linkora then 0 else 100)
      [(signedAt 2, .createPool alice "dao" coin [alice, carol] 2),
        (signedAt 3, .poolDeposit bob "dao" coin 50),
        (signedAt 4, .addPoolAdmin [alice, carol] "dao" bob),
        (signedAt 5, .updatePoolThreshold [alice, carol] "dao" 3)]).map
        (fun w => (w.store.pools.get "dao", (isPaused w.store, isModulePaused w.store .pools))) =
      some (some ⟨coin, 50, [alice, carol, bob], 3⟩, (false, false)) := by rfl
  obtain ⟨w, hw, hsee⟩ := reachable_demo hdemo
  simp only [Prod.mk.injEq] at hsee
  obtain ⟨hpool, hrunning⟩ := hsee
  obtain ⟨acts, w', hrun, -, hempty⟩ := pool_can_be_emptied (bookLedger linkora coin) hw
    (signedAt 6) bob hpool rfl hrunning ⟨by decide, by decide⟩ (by decide)
  exact ⟨w, w', acts, hw, hpool, hrun, hempty⟩

end Contract
end Linkora
