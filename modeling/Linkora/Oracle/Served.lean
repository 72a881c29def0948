import Linkora.Oracle.Service

/-!
# The attestations that the oracle serves

A report is signed before its submission, and the attestation that is cached names the
signer's key as it is after the submission.  Every lookup returns an attestation of the
current key and the current window, signed with that key, just when every submission
returns while the key and the window are still those of the report.
-/

namespace Linkora
namespace Oracle

open Contract (Bytes Bytes32 Bytes64)

/-! ## What is promised of an attestation -/

/-- The signature of the report was made with a key that has this fingerprint. -/
def Libraries.SignedUnder (lib : Libraries) (fingerprint : Bytes32) (reportCbor : Bytes)
    (signature : Bytes64) : Prop :=
  ∃ seed, lib.getPublicKey seed = fingerprint ∧ signature = lib.sign (lib.sha256 reportCbor) seed

/-- A signature is of one key only. -/
def Libraries.SignsApart (lib : Libraries) : Prop :=
  ∀ digest seed seed', lib.sign digest seed = lib.sign digest seed' →
    lib.getPublicKey seed = lib.getPublicKey seed'

def AnalyticsReport.window (report : AnalyticsReport) : ReportWindow :=
  ⟨report.windowStart, report.windowEnd⟩

/-- The attestation is signed with the key that it names, which is the current key, and its
window is the current one. -/
structure Authentic (lib : Libraries) (fingerprint : Bytes32) (windowKey : Option ReportWindow)
    (att : SignedAttestation) : Prop where
  signed : lib.SignedUnder att.signerKey att.reportCbor att.signature
  key : att.signerKey = fingerprint
  window : windowKey = some att.report.window

/-- Whatever is looked up is authentic. -/
def Service.ServesAuthentic (d : Deployment) (s : Service) : Prop :=
  ∀ creator att, (s.cache.get s.now creator).1 = some att →
    Authentic d.lib (s.signer.fingerprint d.lib) s.cache.windowKey att

/-- The submission whose attestation is stored in this step. -/
def Service.storing (s : Service) : Action → Option Submission
  | .submitted i replies =>
    match s.ticks[i]? with
    | some (.submission _ _ x _ _) =>
      match submitAttestation replies with
      | .ok _ => some x
      | .error _ => none
    | _ => none
  | _ => none

/-- When a submission returns, the signer's key is the one that signed the report, and the
window announced last is the report's. -/
def Unchanged (d : Deployment) (s : Service) (a : Action) : Prop :=
  ∀ x, s.storing a = some x →
    x.signedBy = s.signer.fingerprint d.lib ∧ s.cache.windowKey = some x.report.window

instance (d : Deployment) (s : Service) (a : Action) : Decidable (Unchanged d s a) :=
  inferInstanceAs (Decidable (∀ x ∈ s.storing a,
    x.signedBy = s.signer.fingerprint d.lib ∧ s.cache.windowKey = some x.report.window))

/-! ## What is known of the submissions and the cache -/

/-- A submission is of a report that was signed with the key it names. -/
def Tick.Signed (lib : Libraries) : Tick → Prop
  | .submission _ _ x _ _ => lib.SignedUnder x.signedBy x.reportCbor x.signature
  | _ => True

structure Traceable (d : Deployment) (s : Service) : Prop where
  signed : ∀ t ∈ s.ticks, t.Signed d.lib
  bound : s.cache.signerId = some (s.signer.fingerprint d.lib)
  cached : s.cache.All fun _ att =>
    Authentic d.lib (s.signer.fingerprint d.lib) s.cache.windowKey att

variable {d : Deployment} {s s' : Service} {a : Action} {i : Nat} {p : Pass}
  {rows rest rest' : List CreatorStats} {failed failed' : List String} {x : Submission}

theorem signNext_signed {lib : Libraries} {signer : RotatingSigner} {window : ReportWindow}
    (h : signNext lib signer window rest failed = .submit x rest' failed') :
    lib.SignedUnder x.signedBy x.reportCbor x.signature := by
  induction rest generalizing failed with
  | nil => cases h
  | cons row rest ih =>
    rw [signNext] at h
    split at h
    · exact ih h
    · dsimp only at h
      split at h
      · exact ih h
      · split at h
        · exact ih h
        · rename_i reportCbor _ out hout
          injection h with hx
          subst hx
          refine ⟨signer.seed, rfl, ?_⟩
          unfold Signer.signReport at hout
          split at hout
          · cases hout
          · obtain rfl := Except.ok.inj hout
            rfl

namespace Traceable

theorem setTick (h : Traceable d s) {t : Tick} (ht : t.Signed d.lib) (i : Nat) :
    Traceable d (s.setTick i t) where
  signed t' ht' := by
    rcases List.mem_or_eq_of_mem_set ht' with hold | rfl
    · exact h.signed t' hold
    · exact ht
  bound := h.bound
  cached := h.cached

theorem failAttempt (h : Traceable d s) (i : Nat) (p : Pass) :
    Traceable d (s.failAttempt i p) := by
  refine h.setTick ?_ i
  split
  · trivial
  · trivial

theorem beginAttempt (h : Traceable d s) (i : Nat) (p : Pass) :
    Traceable d (s.beginAttempt i p) := by
  unfold Service.beginAttempt
  split
  · exact h.failAttempt i p
  · rename_i cache hcache
    have hcached : Traceable d { s with cache } := by
      obtain ⟨-, -, ⟨rfl, -⟩ | rfl⟩ := AttestationCache.beginWindow_cases hcache
      · exact h
      · -- The new window leaves nothing in the cache.
        exact ⟨h.signed, h.bound, AttestationCache.all_clear _ _⟩
    exact hcached.setTick (t := .creatorStats p) trivial i

theorem complete (h : Traceable d s) (i : Nat) (p : Pass) (rows : List CreatorStats) :
    Traceable d (s.complete i p rows) :=
  setTick (s := { s with
      lastWindowEnd := p.window.windowEnd
      completed := s.completed ++ [(p.window, rows)] })
    (t := .ended) ⟨h.signed, h.bound, h.cached⟩ trivial i

theorem runRows (h : Traceable d s) (i : Nat) (p : Pass) (rows rest : List CreatorStats)
    (failed : List String) : Traceable d (s.runRows d i p rows rest failed) := by
  unfold Service.runRows
  split
  · rename_i x _ _ hx
    exact h.setTick (t := .submission p rows x _ _) (signNext_signed hx) i
  · exact h.complete i p rows
  · exact h.failAttempt i p

theorem rotate (h : Traceable d s) (newSeed : Bytes) : Traceable d (s.rotate d newSeed) := by
  refine ⟨h.signed, AttestationCache.setSignerId_signerId _ _, ?_⟩
  show (s.cache.setSignerId (some (d.lib.getPublicKey newSeed))).All _
  rcases s.cache.setSignerId_cases (some (d.lib.getPublicKey newSeed)) with ⟨hsame, hs⟩ | hs
  · -- The key is the one that the cache is bound to.
    have hkey : d.lib.getPublicKey newSeed = s.signer.fingerprint d.lib :=
      Option.some.inj (hsame.trans h.bound)
    rw [Service.rotate, hs]
    show s.cache.All fun _ att =>
      Authentic d.lib (d.lib.getPublicKey newSeed) s.cache.windowKey att
    rw [hkey]
    exact h.cached
  · rw [hs]
    exact AttestationCache.all_clear _ _

/-- What is stored is authentic if neither the key nor the window has changed. -/
theorem attestation_authentic (h : x.signedBy = s.signer.fingerprint d.lib ∧
      s.cache.windowKey = some x.report.window)
    (hx : d.lib.SignedUnder x.signedBy x.reportCbor x.signature) (txHash : String) :
    Authentic d.lib (s.signer.fingerprint d.lib) s.cache.windowKey (s.attestation d x txHash) where
  signed := by
    show d.lib.SignedUnder (s.signer.fingerprint d.lib) x.reportCbor x.signature
    rw [← h.1]
    exact hx
  key := rfl
  window := h.2

theorem store (h : Traceable d s) (hx : d.lib.SignedUnder x.signedBy x.reportCbor x.signature)
    (hC : x.signedBy = s.signer.fingerprint d.lib ∧ s.cache.windowKey = some x.report.window)
    (txHash : String) : Traceable d (s.store d x txHash) where
  signed := h.signed
  bound := h.bound
  cached := h.cached.set (attestation_authentic hC hx txHash)

theorem next (h : Traceable d s) (hC : Unchanged d s a) (hnext : s.next d a = some s') :
    Traceable d s' := by
  cases a with
  | timer =>
    simp only [Service.next] at hnext
    split at hnext
    · obtain rfl := Option.some.inj hnext
      refine ⟨fun t ht => ?_, h.bound, h.cached⟩
      rcases List.mem_append.mp ht with hold | hnew
      · exact h.signed t hold
      · rw [List.mem_singleton.mp hnew]
        trivial
    · cases hnext
  | latestLedger i sequence =>
    simp only [Service.next] at hnext
    split at hnext
    · split at hnext
      · obtain rfl := Option.some.inj hnext
        exact h.setTick (t := .ended) trivial i
      · obtain rfl := Option.some.inj hnext
        unfold Service.scheduleLoop
        split
        · exact h.setTick (t := .ended) trivial i
        · exact h.beginAttempt i _
    · cases hnext
  | creatorStats i rows =>
    simp only [Service.next] at hnext
    split at hnext
    · split at hnext
      · obtain rfl := Option.some.inj hnext
        exact h.failAttempt i _
      · obtain rfl := Option.some.inj hnext
        exact h.runRows i _ _ _ _
    · cases hnext
  | submitted i replies =>
    simp only [Service.next] at hnext
    split at hnext
    · rename_i p rows x rest failed htick
      have hx : d.lib.SignedUnder x.signedBy x.reportCbor x.signature :=
        h.signed _ (List.mem_of_getElem? htick)
      split at hnext
      · obtain rfl := Option.some.inj hnext
        exact h.runRows i _ _ _ _
      · rename_i txHash hsubmit
        obtain rfl := Option.some.inj hnext
        have hstoring : s.storing (.submitted i replies) = some x := by
          simp [Service.storing, htick, hsubmit]
        exact (h.store hx (hC x hstoring) txHash).runRows i _ _ _ _
    · cases hnext
  | retry i =>
    simp only [Service.next] at hnext
    split at hnext
    · obtain rfl := Option.some.inj hnext
      exact h.beginAttempt i _
    · cases hnext
  | rotateKey req =>
    obtain rfl := Option.some.inj hnext
    rcases s.rotateKey_cases d req with hs | ⟨newSeed, hs⟩
    · rw [hs]
      exact h
    · rw [hs]
      exact h.rotate newSeed
  | lookup creator =>
    obtain rfl := Option.some.inj hnext
    obtain ⟨hsigner, hwindow⟩ := s.cache.get_scope s.now creator
    refine ⟨h.signed, hsigner.trans h.bound, ?_⟩
    show (s.cache.get s.now creator).2.All fun _ att =>
      Authentic d.lib _ (s.cache.get s.now creator).2.windowKey att
    rw [hwindow]
    exact h.cached.get s.now creator
  | purge =>
    obtain rfl := Option.some.inj hnext
    exact ⟨h.signed, h.bound, h.cached.purgeExpired s.now⟩
  | clock | signal =>
    obtain rfl := Option.some.inj hnext
    exact ⟨h.signed, h.bound, h.cached⟩

theorem serves (h : Traceable d s) : s.ServesAuthentic d :=
  fun _ _ hget => AttestationCache.of_get (P := fun _ att =>
    Authentic d.lib (s.signer.fingerprint d.lib) s.cache.windowKey att) h.cached hget

end Traceable

theorem traceable_start (d : Deployment) (seed : Bytes) (maxSize ttlMs : Nat) (h : 0 < maxSize)
    (now : Int) : Traceable d (Service.start d seed maxSize ttlMs h now) where
  signed t ht := by
    rw [List.mem_singleton.mp ht]
    trivial
  bound := AttestationCache.setSignerId_signerId _ _
  cached := (AttestationCache.all_new maxSize ttlMs h _).setSignerId _

/-! ## Steps after which something else is served -/

theorem runRows_cache (d : Deployment) (s : Service) (i : Nat) (p : Pass)
    (rows rest : List CreatorStats) (failed : List String) :
    (s.runRows d i p rows rest failed).cache = s.cache ∧
      (s.runRows d i p rows rest failed).signer = s.signer ∧
      (s.runRows d i p rows rest failed).now = s.now := by
  unfold Service.runRows
  split
  · exact ⟨rfl, rfl, rfl⟩
  · exact ⟨rfl, rfl, rfl⟩
  · exact ⟨rfl, rfl, rfl⟩

/-- If lookups are authentic after a step, then the step stored what it may store. -/
theorem Traceable.unchanged_of (hsign : d.lib.SignsApart) (h : Traceable d s)
    (hnext : s.next d a = some s') (hs' : s'.ServesAuthentic d) : Unchanged d s a := by
  intro x hstoring
  cases a with
  | submitted i replies =>
    simp only [Service.next] at hnext
    simp only [Service.storing] at hstoring
    split at hnext
    · rename_i p rows x' rest failed htick
      rw [htick] at hstoring
      dsimp only at hstoring
      split at hnext
      · rename_i hsubmit
        rw [hsubmit] at hstoring
        cases hstoring
      · rename_i txHash hsubmit
        rw [hsubmit] at hstoring
        obtain rfl := Option.some.inj hstoring
        obtain rfl := Option.some.inj hnext
        obtain ⟨hcache, hsigner, hnow⟩ :=
          runRows_cache d (s.store d x' txHash) i p rows rest failed
        -- The attestation that was just stored is returned.
        have hserved := hs' x'.stats.creatorAddress (s.attestation d x' txHash) (by
          rw [hcache, hnow]
          exact AttestationCache.get_set _ _ _ _)
        rw [hcache, hsigner] at hserved
        obtain ⟨⟨seed, hseed, hsignature⟩, -, hwindow⟩ := hserved
        obtain ⟨seed', hseed', hsignature'⟩ : d.lib.SignedUnder x'.signedBy x'.reportCbor
          x'.signature := h.signed _ (List.mem_of_getElem? htick)
        have hsame : d.lib.getPublicKey seed = d.lib.getPublicKey seed' :=
          hsign _ _ _ (hsignature.symm.trans hsignature')
        refine ⟨?_, hwindow⟩
        rw [← hseed', ← hsame, hseed]
        rfl
    · cases hnext
  | _ => cases hstoring

/-- Every lookup in a run returns an attestation that is signed with the key it names, which
is the signer's, and that is of the window announced last, if every submission returns while
key and window are those of the report; if signatures of different keys differ, in no other
run. -/
theorem served_authentic_iff {seed : Bytes} {maxSize ttlMs : Nat} {hsize : 0 < maxSize} {now : Int}
    {acts : List Action}
    (h : Run (Service.Step d) (Service.start d seed maxSize ttlMs hsize now) acts s) :
    (Run (Run.Guarded (Service.Step d) (Unchanged d))
        (Service.start d seed maxSize ttlMs hsize now) acts s →
      Throughout (Service.next d) (Service.ServesAuthentic d)
        (Service.start d seed maxSize ttlMs hsize now) acts) ∧
    (d.lib.SignsApart →
      Throughout (Service.next d) (Service.ServesAuthentic d)
        (Service.start d seed maxSize ttlMs hsize now) acts →
      Run (Run.Guarded (Service.Step d) (Unchanged d))
        (Service.start d seed maxSize ttlMs hsize now) acts s) := by
  have hstart := traceable_start d seed maxSize ttlMs hsize now
  constructor
  · intro hg
    exact (throughout_of_guarded hstart (fun _ _ _ hx hC hxy => hx.next hC hxy) hg).mono
      fun _ hx => hx.serves
  · intro hsign hall
    exact guarded_of_throughout hstart (fun _ _ _ hx hC hxy => hx.next hC hxy)
      (fun _ _ _ hx hxy hy => hx.unchanged_of hsign hxy hy) h hall

/-! ## Two runs -/

theorem append_left_inj {a b c : Bytes32} (h : (a ++ c : BitVec (256 + 256)) = b ++ c) : a = b := by
  calc a
    _ = (a ++ c).extractLsb' 256 256 := BitVec.extractLsb'_append_eq_left.symm
    _ = (b ++ c).extractLsb' 256 256 := by rw [h]
    _ = b := BitVec.extractLsb'_append_eq_left

theorem demo_signsApart : demoLibraries.SignsApart :=
  fun _ _ _ h => append_left_inj h

/-- A report is signed, submitted and served. -/
def servedTick : List Action :=
  [.latestLedger 0 (some 15), .creatorStats 0 (some [statsOfAlice]), .submitted 0 confirmed]

/-- The key is rotated while the report is being submitted. -/
def rotatedTick : List Action :=
  [.latestLedger 0 (some 15), .creatorStats 0 (some [statsOfAlice]),
    .rotateKey ⟨true, true, some [4]⟩, .submitted 0 confirmed]

theorem served_authentic_iff_tick : ∃ s,
    Run (Service.Step demoDeployment) demoStart servedTick s ∧
    ((s.cache.get s.now (Indexer.strkey Contract.alice)).1.map (·.signerKey)) =
      some (Sha256.digest [3]) ∧
    Throughout (Service.next demoDeployment) (Service.ServesAuthentic demoDeployment) demoStart
      servedTick ∧
    Run (Run.Guarded (Service.Step demoDeployment) (Unchanged demoDeployment)) demoStart servedTick
      s := by
  have hsome : (walk (restrict (Service.next demoDeployment) (Unchanged demoDeployment))
      servedTick demoStart).map (fun s =>
        (s.cache.get s.now (Indexer.strkey Contract.alice)).1.map (·.signerKey)) =
      some (some (Sha256.digest [3])) := by
    rw [demoStart, demoDeployment, demoLibraries, Sha256.digest_eq_eager]
    decide +kernel
  obtain ⟨s, hs, hkey⟩ := Option.map_eq_some_iff.mp hsome
  have hg := guarded_of_walk hs
  have hiff := served_authentic_iff hg.of_guarded
  exact ⟨s, hg.of_guarded, hkey, hiff.1 hg, hiff.2 demo_signsApart (hiff.1 hg)⟩

theorem stale_key_served : ∃ s att,
    Run (Service.Step demoDeployment) demoStart rotatedTick s ∧
    (s.cache.get s.now (Indexer.strkey Contract.alice)).1 = some att ∧
    att.signerKey = s.signer.fingerprint demoLibraries ∧
    ¬ demoLibraries.SignedUnder att.signerKey att.reportCbor att.signature := by
  have hsome : ((demoRun rotatedTick).bind fun s =>
      (s.cache.get s.now (Indexer.strkey Contract.alice)).1.map fun att =>
        (decide (att.signerKey = s.signer.fingerprint demoLibraries),
          decide (att.signature = (att.signerKey ++ Sha256.digest att.reportCbor :
            BitVec (256 + 256))))) = some (true, false) := by
    rw [demoRun, demoStart, demoDeployment, demoLibraries, Sha256.digest_eq_eager]
    decide +kernel
  obtain ⟨s, hs, hget⟩ := Option.bind_eq_some_iff.mp hsome
  obtain ⟨att, hatt, hvalues⟩ := Option.map_eq_some_iff.mp hget
  obtain ⟨hkey, hsignature⟩ := Prod.mk.inj hvalues
  refine ⟨s, att, run_of_walk hs, hatt, of_decide_eq_true hkey, ?_⟩
  rintro ⟨seed, hseed, hsigned⟩
  refine of_decide_eq_false hsignature ?_
  rw [← hseed]
  exact hsigned

end Oracle
end Linkora
