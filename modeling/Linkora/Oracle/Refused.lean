import Linkora.Oracle.Windows

/-!
# The contract refuses what the oracle submits

The window of a report is a pair of ledger numbers.  `verify_analytics_attestation` compares
it with the close time of the ledger, in seconds, and the window that the oracle computes ends
with the latest ledger.  A ledger's close time is later than its number, so the call panics
whenever it is included, and no window with a creator in it is ever completed.
-/

namespace Linkora
namespace Oracle

open Contract (Address Bytes Bytes32 Bytes64 Book Call Env Host Symbol World alice exec linkora
  signedAt)

variable {σ : Type} {host : Host σ} {d : Deployment} {s s' : Service} {a : Action}

/-! ## One call -/

/-- The window of a pass ends before any later ledger closes. -/
theorem call_refused {windowStart windowEnd : Nat} {env : Env} (h : windowEnd < env.timestamp)
    (w : World σ) (name : Symbol) (reportCbor : Bytes) (signature : Bytes64) (creator : Address)
    (w' : World σ) :
    exec host env w (.verifyAnalyticsAttestation name reportCbor signature creator windowStart
      windowEnd) ≠ .ok w' := by
  intro he
  obtain ⟨-, -, hend, -⟩ :=
    Contract.verifyAnalyticsAttestation_checks (World.onStore_eq_ok.mp he).1
  omega

theorem scheduled_refused {last : Int} {ledger : Nat} {closeTime : Nat} {window : ReportWindow}
    (hclose : ledger < closeTime)
    (hwindow : scheduleWindow d.windowLedgers last ledger = some window) {env : Env}
    (henv : closeTime ≤ env.timestamp) (w : World σ) (name : Symbol) (reportCbor : Bytes)
    (signature : Bytes64) (creator : Address) (w' : World σ) :
    exec host env w (.verifyAnalyticsAttestation name reportCbor signature creator
      window.windowStart.toNat window.windowEnd.toNat) ≠ .ok w' := by
  apply call_refused
  rw [(scheduleWindow_eq hwindow).1, Int.toNat_natCast]
  omega

/-! ## Runs of the service -/

/-- The RPC server reports that a transaction has succeeded only if the contract has executed
its call without a panic, in a ledger that closed after the one that the window ends with. -/
def Honest (host : Host σ) (d : Deployment) (s : Service) (a : Action) : Prop :=
  ∀ i replies p rows x rest failed, a = .submitted i replies →
    s.ticks[i]? = some (.submission p rows x rest failed) →
    ∀ k hash, replies k = .polled hash (some .success) →
      ∃ env w creator w', p.window.windowEnd.toNat < env.timestamp ∧
        exec host env w (.verifyAnalyticsAttestation d.oracleName x.reportCbor x.signature creator
          p.window.windowStart.toNat p.window.windowEnd.toNat) = .ok w'

/-- No submission returns. -/
theorem Honest.submission_fails {i : Nat} {replies : Nat → Reply} {p : Pass} {x : Submission}
    {rows rest : List CreatorStats} {failed : List String}
    (h : Honest host d s (.submitted i replies))
    (htick : s.ticks[i]? = some (.submission p rows x rest failed)) (txHash : String) :
    submitAttestation replies ≠ .ok txHash := by
  intro hok
  obtain ⟨k, hk⟩ := withRetry_ok hok
  obtain ⟨env, w, creator, w', hlater, he⟩ := h i replies p rows x rest failed rfl htick k txHash hk
  exact call_refused hlater w _ _ _ _ w' he

/-- When no creator is left to be submitted and none has failed, all addresses are invalid. -/
theorem signNext_finished {lib : Libraries} {signer : RotatingSigner} {window : ReportWindow}
    {rest : List CreatorStats} {failed : List String}
    (h : signNext lib signer window rest failed = .finished []) :
    ∀ row ∈ rest, lib.rawPublicKey row.creatorAddress = none := by
  induction rest generalizing failed with
  | nil => exact fun row hrow => absurd hrow List.not_mem_nil
  | cons row rest ih =>
    have hall := h
    rw [signNext] at h
    split at h
    · rename_i hnone
      intro row' hrow
      rcases List.mem_cons.mp hrow with rfl | hrest
      · exact hnone
      · exact ih h row' hrest
    · -- The creator fails, or is submitted.
      dsimp only at h
      split at h
      · simpa using signNext_failed h
      · split at h
        · simpa using signNext_failed h
        · cases h

/-- No window is completed that has a creator in it, and nothing is in the cache. -/
structure Idle (d : Deployment) (s : Service) : Prop where
  creators : ∀ x ∈ s.completed, ∀ row ∈ x.2, d.lib.rawPublicKey row.creatorAddress = none
  cache : s.cache.All fun _ _ => False

namespace Idle

theorem same (h : Idle d s) (hs : SameWindows s s') (hcache : s'.cache.All fun _ _ => False) :
    Idle d s' where
  creators x hx := by
    rw [hs.completed] at hx
    exact h.creators x hx
  cache := hcache

theorem beginAttempt_cache (h : Idle d s) (i : Nat) (p : Pass) :
    (s.beginAttempt i p).cache.All fun _ _ => False := by
  unfold Service.beginAttempt
  split
  · exact h.cache
  · rename_i cache hcache
    exact h.cache.beginWindow hcache

theorem runRows_cache (h : Idle d s) (i : Nat) (p : Pass) (rows rest : List CreatorStats)
    (failed : List String) : (s.runRows d i p rows rest failed).cache.All fun _ _ => False := by
  unfold Service.runRows
  split
  · exact h.cache
  · exact h.cache
  · exact h.cache

theorem next (h : Idle d s) (hC : Honest host d s a) (hnext : s.next d a = some s') :
    Idle d s' := by
  cases a with
  | creatorStats i rows =>
    simp only [Service.next] at hnext
    split at hnext
    · rename_i p htick
      split at hnext
      · obtain rfl := Option.some.inj hnext
        exact h.same (failAttempt_same s i p) h.cache
      · rename_i rows
        obtain rfl := Option.some.inj hnext
        rcases runRows_windows d s i p rows rows [] with ⟨hdone, hs⟩ | ⟨-, hs⟩
        · refine ⟨?_, h.runRows_cache i p rows rows []⟩
          rw [hs]
          intro x hx
          rcases List.mem_append.mp hx with hold | hnew
          · exact h.creators x hold
          · rw [List.mem_singleton.mp hnew]
            exact signNext_finished hdone
        · exact h.same hs (h.runRows_cache i p rows rows [])
    · cases hnext
  | submitted i replies =>
    simp only [Service.next] at hnext
    split at hnext
    · rename_i p rows x rest failed htick
      split at hnext
      · obtain rfl := Option.some.inj hnext
        refine h.same ?_ (h.runRows_cache i p rows rest _)
        rcases runRows_windows d s i p rows rest (failed ++ [x.stats.creatorAddress])
          with ⟨hdone, -⟩ | ⟨-, hs⟩
        · simpa using signNext_failed hdone
        · exact hs
      · rename_i txHash hsubmit
        exact absurd hsubmit (hC.submission_fails htick txHash)
    · cases hnext
  | latestLedger i sequence =>
    simp only [Service.next] at hnext
    split at hnext
    · split at hnext
      · obtain rfl := Option.some.inj hnext
        exact h.same (setTick_same s i _) h.cache
      · obtain rfl := Option.some.inj hnext
        refine h.same (scheduleLoop_same d s i _) ?_
        unfold Service.scheduleLoop
        split
        · exact h.cache
        · exact h.beginAttempt_cache i _
    · cases hnext
  | retry i =>
    simp only [Service.next] at hnext
    split at hnext
    · obtain rfl := Option.some.inj hnext
      exact h.same (beginAttempt_same s i _) (h.beginAttempt_cache i _)
    · cases hnext
  | rotateKey req =>
    obtain rfl := Option.some.inj hnext
    refine h.same (rotateKey_same d s req) ?_
    rcases s.rotateKey_cases d req with hs | ⟨newSeed, hs⟩
    · rw [hs]
      exact h.cache
    · rw [hs]
      exact h.cache.setSignerId _
  | timer =>
    simp only [Service.next] at hnext
    split at hnext
    · obtain rfl := Option.some.inj hnext
      exact ⟨h.creators, h.cache⟩
    · cases hnext
  | lookup creator =>
    obtain rfl := Option.some.inj hnext
    exact ⟨h.creators, h.cache.get s.now creator⟩
  | purge =>
    obtain rfl := Option.some.inj hnext
    exact ⟨h.creators, h.cache.purgeExpired s.now⟩
  | clock | signal =>
    obtain rfl := Option.some.inj hnext
    exact ⟨h.creators, h.cache⟩

end Idle

/-- No window that the oracle computes from a ledger is accepted in a ledger that closes later
than the number of the first.  So a window in which a creator with a valid address was active
is never completed, and no attestation is ever served. -/
theorem attestations_never_accepted (host : Host σ) (d : Deployment) :
    (∀ (last : Int) (ledger closeTime : Nat) (window : ReportWindow), ledger < closeTime →
      scheduleWindow d.windowLedgers last ledger = some window →
      ∀ env : Env, closeTime ≤ env.timestamp → ∀ w name reportCbor signature creator w',
        exec host env w (.verifyAnalyticsAttestation name reportCbor signature creator
          window.windowStart.toNat window.windowEnd.toNat) ≠ .ok w') ∧
    ∀ seed maxSize ttlMs hsize now acts s,
      Run (Run.Guarded (Service.Step d) (Honest host d))
        (Service.start d seed maxSize ttlMs hsize now) acts s →
      (∀ x ∈ s.completed, ∀ row ∈ x.2, d.lib.rawPublicKey row.creatorAddress = none) ∧
      ∀ creator, (s.cache.get s.now creator).1 = none := by
  constructor
  · intro last ledger closeTime window hclose hwindow env henv w name reportCbor signature creator w'
    exact scheduled_refused hclose hwindow henv w name reportCbor signature creator w'
  · intro seed maxSize ttlMs hsize now acts s hrun
    have hidle : Idle d s := by
      have hempty : (AttestationCache.new maxSize ttlMs hsize : Attestations).All
        fun _ _ => False := AttestationCache.all_new maxSize ttlMs hsize _
      exact hrun.invariant (fun x a y hx hxy => hx.next hxy.2 hxy.1)
        ⟨fun x hx => absurd hx List.not_mem_nil, hempty.setSignerId _⟩
    refine ⟨hidle.creators, fun creator => ?_⟩
    cases hget : (s.cache.get s.now creator).1 with
    | none => rfl
    | some att => exact (AttestationCache.of_get hidle.cache hget).elim

/-! ## The report of a creator -/

/-- A report is signed for the window that ends with ledger 15, and its transaction fails. -/
def refusedTick : List Action :=
  [.latestLedger 0 (some 15), .creatorStats 0 (some [statsOfAlice]),
    .submitted 0 fun _ => .polled "tx" (some .failed)]

/-- A chain whose signatures are those of the demonstration. -/
def demoHost : Host Book :=
  { Contract.bookHost linkora with
    sha256 := Sha256.digest
    ed25519Verify := fun pubkey digest signature =>
      signature == (pubkey ++ digest : BitVec (256 + 256)) }

/-- The key of the oracle is registered. -/
def registered : Option (World Book) :=
  (Contract.start (signedAt 1) alice Contract.bob 250 (fun _ _ => 0)).bind fun w =>
    (exec demoHost (signedAt 2) w (.registerOracle alice "analytics" (Sha256.digest [3]))).toOption

/-- What the first submission ends with in a ledger that closes at `closeTime`: the panic, or
nothing. -/
def submittedAt (closeTime : Nat) : Option (Option Contract.Panic) :=
  (demoRun (refusedTick.take 2)).bind fun s =>
    registered.bind fun w =>
      match (s.ticks[0]? : Option Tick) with
      | some (.submission p _ x _ _) =>
        match exec demoHost { signedAt 16 with timestamp := closeTime } w
          (.verifyAnalyticsAttestation "analytics" x.reportCbor x.signature alice
            p.window.windowStart.toNat p.window.windowEnd.toNat) with
        | .error panic => some (some panic)
        | .ok _ => some none
      | _ => none

/-- The report meets every other check: it would be accepted if the chain were 10 seconds old. -/
theorem honest_attestation_refused :
    submittedAt 1700000000 = some (some (.message "attestation outside time window")) ∧
    submittedAt 10 = some none := by
  simp only [submittedAt, registered, demoHost, demoRun, demoStart, demoDeployment, demoLibraries,
    Sha256.digest_eq_eager]
  decide +kernel

theorem attestations_never_accepted_alice :
    (∀ w reportCbor signature w',
      exec demoHost { signedAt 16 with timestamp := 1700000000 } w
        (.verifyAnalyticsAttestation "analytics" reportCbor signature alice 5 15) ≠ .ok w') ∧
    ∃ s, Run (Service.Step demoDeployment) demoStart refusedTick s ∧ s.lastWindowEnd = 0 ∧
      (s.cache.get s.now (Indexer.strkey alice)).1 = none := by
  have hnever := attestations_never_accepted demoHost demoDeployment
  refine ⟨fun w reportCbor signature w' => ?_, ?_⟩
  · exact hnever.1 0 15 1600000000 ⟨5, 15⟩ (by decide) (by decide)
      { signedAt 16 with timestamp := 1700000000 } (by decide) w "analytics" reportCbor signature
      alice w'
  · have hsome : (demoRun refusedTick).map (·.lastWindowEnd) = some 0 := by decide +kernel
    obtain ⟨s, hs, hlast⟩ := Option.map_eq_some_iff.mp hsome
    have hrun := run_of_walk hs
    have hguarded : Run (Run.Guarded (Service.Step demoDeployment)
        (Honest demoHost demoDeployment)) demoStart refusedTick s := by
      refine hrun.guarded_of_forall fun a ha x i replies p rows y rest failed hsubmitted _ k hash hk =>
        ?_
      -- The only submission of the run fails.
      rw [hsubmitted] at ha
      simp only [refusedTick, List.mem_cons, List.not_mem_nil, or_false, reduceCtorEq, false_or,
        Action.submitted.injEq] at ha
      rw [ha.2] at hk
      simp at hk
    exact ⟨s, hrun, hlast, (hnever.2 _ _ _ _ _ _ s hguarded).2 _⟩

end Oracle
end Linkora
