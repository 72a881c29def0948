import Mathlib.Data.Finset.Card
import Mathlib.Data.Finset.Dedup
import Linkora.Contract.Entry

/-!
# The thresholds of pools

A pool releases what it guards against the signatures of `threshold` of its admins.
The contract counts the entries of the two lists, of signers and of admins, so the
count is one of distinct admins only as far as no entry is repeated.
-/

namespace Linkora
namespace Contract

/-- The signers that a call presents, and the pool that it presents them to. -/
def Call.guard : Call → Option (List Address × Symbol)
  | .poolWithdraw signers poolId _ _ _ _ => some (signers, poolId)
  | .addPoolAdmin signers poolId _ => some (signers, poolId)
  | .removePoolAdmin signers poolId _ => some (signers, poolId)
  | .updatePoolThreshold signers poolId _ => some (signers, poolId)
  | .govVeto signers poolId _ => some (signers, poolId)
  | .reviewReport _ signers _ _ _ => some (signers, modsPool)
  | _ => none

/-- The admins that a new pool starts with. -/
def Call.founders : Call → Option (List Address)
  | .createPool _ _ _ initialAdmins _ => some initialAdmins
  | _ => none

/-- A guarded call succeeds only past the signer loop. -/
theorem exec_guard {σ : Type} {host : Host σ} {env : Env} {w w' : World σ} {c : Call}
    {signers : List Address} {poolId : Symbol} (hguard : c.guard = some (signers, poolId))
    (he : exec host env w c = .ok w') :
    ∃ pool, w.store.pools.get poolId = some pool ∧ requireSigners env pool signers = .ok () := by
  cases c with
  | poolWithdraw =>
    obtain ⟨-, pool, -, hpool, hsig, -⟩ := poolWithdraw_ok he
    obtain ⟨rfl, rfl⟩ := Prod.mk.inj (Option.some.inj hguard)
    exact ⟨pool, hpool, hsig⟩
  | addPoolAdmin =>
    obtain ⟨pool, hpool, hsig, -⟩ := addPoolAdmin_ok (World.onStore_eq_ok.mp he).1
    obtain ⟨rfl, rfl⟩ := Prod.mk.inj (Option.some.inj hguard)
    exact ⟨pool, hpool, hsig⟩
  | removePoolAdmin =>
    obtain ⟨pool, hpool, hsig, -⟩ := removePoolAdmin_ok (World.onStore_eq_ok.mp he).1
    obtain ⟨rfl, rfl⟩ := Prod.mk.inj (Option.some.inj hguard)
    exact ⟨pool, hpool, hsig⟩
  | updatePoolThreshold =>
    obtain ⟨pool, hpool, hsig, -⟩ := updatePoolThreshold_ok (World.onStore_eq_ok.mp he).1
    obtain ⟨rfl, rfl⟩ := Prod.mk.inj (Option.some.inj hguard)
    exact ⟨pool, hpool, hsig⟩
  | govVeto =>
    obtain ⟨-, -, -, _, -, _, -, -, -, -, -, pool, hpool, hsig, -⟩ :=
      govVeto_eq_ok.mp (World.onStore_eq_ok.mp he).1
    obtain ⟨rfl, rfl⟩ := Prod.mk.inj (Option.some.inj hguard)
    exact ⟨pool, hpool, hsig⟩
  | reviewReport =>
    obtain ⟨-, pool, _, _, hpool, hsig, -⟩ := reviewReport_ok he
    obtain ⟨rfl, rfl⟩ := Prod.mk.inj (Option.some.inj hguard)
    exact ⟨pool, hpool, hsig⟩
  | _ => cases hguard

/-- The admins of a pool who have authorised the call. -/
def Pool.authorised (pool : Pool) (env : Env) : Finset Address :=
  pool.admins.toFinset.filter fun a => env.auth a = true

/-- Past the signer loop, the distinct signers are admins who have authorised. -/
theorem signers_subset_authorised {env : Env} {pool : Pool} {signers : List Address}
    (h : requireSigners env pool signers = .ok ()) :
    signers.toFinset ⊆ pool.authorised env := by
  intro a ha
  obtain ⟨-, hall⟩ := requireSigners_eq_ok.mp h
  obtain ⟨hadmin, hauth⟩ := hall a (List.mem_toFinset.mp ha)
  exact Finset.mem_filter.mpr ⟨List.mem_toFinset.mpr hadmin, hauth⟩

/-- With the check that the contract has for it, and makes nowhere, the signer loop
would count distinct admins. -/
theorem threshold_le_authorised {env : Env} {pool : Pool} {signers : List Address}
    (h : requireSigners env pool signers = .ok ())
    (hunique : validateUniqueSigners "signers" signers = .ok ()) :
    pool.threshold ≤ (pool.authorised env).card := by
  simp only [validateUniqueSigners, Checked.bind_eq_ok, requireWithError_eq_ok,
    exists_const] at hunique
  obtain ⟨-, hnodup⟩ := hunique
  have hcount : pool.threshold ≤ signers.length := (requireSigners_eq_ok.mp h).1
  rw [← List.toFinset_card_of_nodup hnodup] at hcount
  exact hcount.trans (Finset.card_le_card (signers_subset_authorised h))

/-! ## The admins of a pool -/

/-- A pool whose admins are listed once each and can reach the threshold. -/
structure Pool.Manned (pool : Pool) : Prop where
  nodup : pool.admins.Nodup
  pos : 1 ≤ pool.threshold
  le : pool.threshold ≤ pool.admins.length

theorem Pool.Manned.le_card {pool : Pool} (h : pool.Manned) :
    pool.threshold ≤ pool.admins.toFinset.card := by
  rw [List.toFinset_card_of_nodup h.nodup]
  exact h.le

/-- Every stored pool is manned. -/
def AllManned (pools : Store Symbol Pool) : Prop :=
  ∀ poolId pool, pools.get poolId = some pool → pool.Manned

theorem AllManned.set {pools : Store Symbol Pool} (h : AllManned pools) {pool : Pool}
    (hpool : pool.Manned) (poolId : Symbol) : AllManned (pools.set poolId pool) := by
  intro x q hq
  rw [Store.get_set] at hq
  split at hq
  · obtain rfl := Option.some.inj hq
    exact hpool
  · exact h x q hq

/-- No pool is founded with an admin listed twice. -/
def DistinctFounders : Condition := fun _ _ c => ∀ admins ∈ c.founders, admins.Nodup

instance (s : State) (env : Env) (c : Call) : Decidable (DistinctFounders s env c) :=
  inferInstanceAs (Decidable (∀ admins ∈ c.founders, admins.Nodup))

theorem exec_allManned {σ : Type} {host : Host σ} {env : Env} {w w' : World σ} {c : Call}
    (he : exec host env w c = .ok w') (hc : DistinctFounders w.store env c)
    (h : AllManned w.store.pools) : AllManned w'.store.pools := by
  cases c with
  | createPool admin poolId token initialAdmins threshold =>
    obtain ⟨-, hpos, hle, hs⟩ := createPool_ok (World.onStore_eq_ok.mp he).1
    rw [hs]
    refine h.set ?_ poolId
    exact ⟨hc initialAdmins rfl, hpos, hle⟩
  | poolDeposit depositor poolId token amount =>
    obtain ⟨-, -, pool, tokens, hpool, -, -, -, rfl⟩ := poolDeposit_ok he
    have hm := h poolId pool hpool
    refine h.set ?_ poolId
    exact ⟨hm.nodup, hm.pos, hm.le⟩
  | poolWithdraw signers poolId amount recipient minOutAmount deadline =>
    obtain ⟨-, pool, tokens, hpool, -, -, -, rfl⟩ := poolWithdraw_ok he
    have hm := h poolId pool hpool
    refine h.set ?_ poolId
    exact ⟨hm.nodup, hm.pos, hm.le⟩
  | addPoolAdmin signers poolId newAdmin =>
    obtain ⟨pool, hpool, -, hnew, hs⟩ := addPoolAdmin_ok (World.onStore_eq_ok.mp he).1
    have hm := h poolId pool hpool
    have hnodup : (pool.admins ++ [newAdmin]).Nodup := by
      rw [← List.concat_eq_append]
      exact hm.nodup.concat hnew
    have hle : pool.threshold ≤ (pool.admins ++ [newAdmin]).length := by
      rw [List.length_append]
      exact hm.le.trans (Nat.le_add_right _ _)
    rw [hs]
    refine h.set ?_ poolId
    exact ⟨hnodup, hm.pos, hle⟩
  | removePoolAdmin signers poolId admin =>
    obtain ⟨pool, hpool, -, hle, hs⟩ := removePoolAdmin_ok (World.onStore_eq_ok.mp he).1
    have hm := h poolId pool hpool
    rw [hs]
    refine h.set ?_ poolId
    exact ⟨hm.nodup.filter _, hm.pos, hle⟩
  | updatePoolThreshold signers poolId threshold =>
    obtain ⟨pool, hpool, -, hone, hle, hs⟩ :=
      updatePoolThreshold_ok (World.onStore_eq_ok.mp he).1
    rw [hs]
    refine h.set ?_ poolId
    exact ⟨(h poolId pool hpool).nodup, hone, hle⟩
  | _ =>
    have hpools' : w'.store.pools = w.store.pools :=
      exec_frame (p := .pools) he (by simp [Call.parts])
    rw [hpools']
    exact h

/-- In every state reached without founding a pool on a repeated admin, every
threshold is within the number of distinct admins, and a guarded call that
succeeds with enough distinct signers was authorised by that many distinct admins
of the pool. -/
theorem thresholds_sound {σ : Type} {host : Host σ} {w : World σ}
    (hw : ReachableUnder host DistinctFounders w) :
    (∀ poolId pool, w.store.pools.get poolId = some pool →
      1 ≤ pool.threshold ∧ pool.threshold ≤ pool.admins.toFinset.card) ∧
    ∀ env c w' signers poolId pool, c.guard = some (signers, poolId) →
      w.store.pools.get poolId = some pool → exec host env w c = .ok w' →
      pool.threshold ≤ signers.toFinset.card → pool.threshold ≤ (pool.authorised env).card := by
  have hmanned : AllManned w.store.pools := by
    refine hw.store_invariant (I := fun s => AllManned s.pools) ?_ ?_
    · intro s env admin treasury feeBps hs
      obtain ⟨-, -, access, events, rfl⟩ := initializeContract_ok hs
      intro poolId pool hpool
      cases hpool
    · intro w env c w' hw hc he
      exact exec_allManned he hc hw
  refine ⟨fun poolId pool hpool => ?_, ?_⟩
  · exact ⟨(hmanned poolId pool hpool).pos, (hmanned poolId pool hpool).le_card⟩
  · intro env c w' signers poolId pool hguard hpool he hcount
    obtain ⟨q, hq, hsig⟩ := exec_guard hguard he
    obtain rfl := Option.some.inj (hpool.symm.trans hq)
    exact hcount.trans (Finset.card_le_card (signers_subset_authorised hsig))

/-- A pool of two that a withdrawal is signed for by both. -/
theorem thresholds_sound_for_withdrawal :
    ∃ (w w' : World Book) (pool : Pool), ReachableUnder (bookHost linkora) DistinctFounders w ∧
      w.store.pools.get "dao" = some pool ∧ pool.threshold = 2 ∧
      exec (bookHost linkora) (signedAt 4) w
        (.poolWithdraw [alice, carol] "dao" 40 bob none none) = .ok w' ∧
      2 ≤ pool.admins.toFinset.card ∧ 2 ≤ (pool.authorised (signedAt 4)).card := by
  have hdemo : (demo DistinctFounders (fun _ _ => 100)
      [(signedAt 2, .createPool alice "dao" coin [alice, carol] 2),
        (signedAt 3, .poolDeposit bob "dao" coin 50)]).map
        (fun w => ((w.store.pools.get "dao").map (·.threshold),
          (exec (bookHost linkora) (signedAt 4) w
            (.poolWithdraw [alice, carol] "dao" 40 bob none none)).toOption.isSome)) =
      some (some 2, true) := by decide
  obtain ⟨w, hw, hsee⟩ := reachable_demo hdemo
  simp only [Prod.mk.injEq, Option.map_eq_some_iff, Option.isSome_iff_exists,
    toOption_eq_some] at hsee
  obtain ⟨⟨pool, hpool, htwo⟩, w', he⟩ := hsee
  obtain ⟨hpools, hguard⟩ := thresholds_sound hw
  have hle := (hpools "dao" pool hpool).2
  have hauth := hguard _ _ w' [alice, carol] "dao" pool rfl hpool he (by rw [htwo]; decide)
  rw [htwo] at hle hauth
  exact ⟨w, w', pool, hw, hpool, htwo, he, hle, hauth⟩

/-- A call that nobody but `alice` has authorised. -/
def signedByAlice (ledger : Nat) : Env := { signedAt ledger with auth := fun a => a == alice }

/-- Repeated entries count as often as they are written: a withdrawal from a pool
with threshold 2 goes through on the authorisation of one admin named twice, and a
pool with threshold 2 is founded on one admin listed twice. -/
theorem thresholds_count_repetitions :
    (¬∀ (w w' : World Book) (env : Env) (c : Call) (signers : List Address) (poolId : Symbol)
      (pool : Pool), Reachable (bookHost linkora) w → c.guard = some (signers, poolId) →
      w.store.pools.get poolId = some pool → exec (bookHost linkora) env w c = .ok w' →
      pool.threshold ≤ (pool.authorised env).card) ∧
    ¬∀ (w : World Book) (poolId : Symbol) (pool : Pool), Reachable (bookHost linkora) w →
      w.store.pools.get poolId = some pool → pool.threshold ≤ pool.admins.toFinset.card := by
  constructor
  · intro hclaim
    have hdemo : (demo (fun _ _ _ => True) (fun _ _ => 100)
        [(signedAt 2, .createPool alice "dao" coin [alice, carol] 2),
          (signedAt 3, .poolDeposit bob "dao" coin 50)]).map
          (fun w => ((w.store.pools.get "dao").map fun pool =>
              (pool.threshold, (pool.authorised (signedByAlice 4)).card),
            (exec (bookHost linkora) (signedByAlice 4) w
              (.poolWithdraw [alice, alice] "dao" 40 bob none none)).toOption.isSome)) =
        some (some (2, 1), true) := by decide
    obtain ⟨w, hw, hsee⟩ := reachable_demo hdemo
    simp only [Prod.mk.injEq, Option.map_eq_some_iff, Option.isSome_iff_exists,
      toOption_eq_some] at hsee
    obtain ⟨⟨pool, hpool, htwo, hone⟩, w', he⟩ := hsee
    have hle := hclaim w w' _ _ [alice, alice] "dao" pool hw.reachable rfl hpool he
    omega
  · intro hclaim
    have hdemo : (demo (fun _ _ _ => True) (fun _ _ => 0)
        [(signedAt 2, .createPool alice "dao" coin [alice, alice] 2)]).map
          (fun w => (w.store.pools.get "dao").map fun pool =>
            (pool.threshold, pool.admins.toFinset.card)) =
        some (some (2, 1)) := by decide
    obtain ⟨w, hw, hsee⟩ := reachable_demo hdemo
    obtain ⟨pool, hpool, hcounts⟩ := Option.map_eq_some_iff.mp hsee
    obtain ⟨htwo, hone⟩ := Prod.mk.inj hcounts
    have hle := hclaim w "dao" pool hw.reachable hpool
    omega

end Contract
end Linkora
