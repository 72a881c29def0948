import Linkora.Indexer.Strkey
import Linkora.Lib.Run
import Linkora.Oracle.Attestations
import Linkora.Oracle.Cache

/-!
# The analytics oracle as it runs

`services/analytics-oracle/src/index.ts`: a timer starts ticks, and a tick asks for the
latest ledger, reads the statistics of the window that ends there, and signs and submits a
report for each creator in turn.  A tick is given up at every `await`, so that between two of
its steps other ticks, key rotations and lookups take theirs; a step below is what is done
from one `await` to the next.  What the database, the RPC server and the secrets backend
answer is the label of the step.
-/

namespace Linkora
namespace Oracle

open Contract (Bytes Bytes32 Bytes64)

/-! ## Data -/

/-- The libraries that the service calls. -/
structure Libraries where
  encode : List Item → Option Bytes
  sha256 : Bytes → Bytes32
  /-- `ed.sign(reportHash, seed)` -/
  sign : Bytes32 → Bytes → Bytes64
  /-- `ed.getPublicKey(seed)` -/
  getPublicKey : Bytes → Bytes32
  /-- `Keypair.fromPublicKey(address).rawPublicKey()`, which throws for an invalid address. -/
  rawPublicKey : String → Option Bytes

structure CreatorStats where
  creatorAddress : String
  totalTips : Int
  postCount : Int
  followerDelta : Int
  uniqueTippers : Number
  deriving DecidableEq

structure SignedAttestation where
  oracleName : String
  signerKey : Bytes32
  keyVersion : Nat
  rotationEpoch : Nat
  reportCbor : Bytes
  reportHash : Bytes32
  signature : Bytes64
  txHash : String
  report : AnalyticsReport
  submittedAt : Int

/-- The signer, with the counters that a rotation raises. -/
structure RotatingSigner extends Signer where
  keyVersion : Nat
  rotationEpoch : Nat

/-- The public key, kept as bytes. -/
def RotatingSigner.fingerprint (lib : Libraries) (signer : RotatingSigner) : Bytes32 :=
  lib.getPublicKey signer.seed

abbrev Attestations := AttestationCache String Bytes32 SignedAttestation

/-! ## A submission -/

inductive GetTransactionStatus where
  | success
  | failed
  | notFound
  deriving DecidableEq

inductive SubmitError where
  /-- A call of the RPC server throws; `isTransientError` tells by the error whether to retry. -/
  | thrown (transient : Bool)
  | simulationFailed
  | notConfirmed (hash : String) (status : Option GetTransactionStatus)
  deriving DecidableEq

/-- How one attempt ends: a call throws, the simulation returns an error, or the transaction
has been sent and polled. -/
inductive Reply where
  | throws (transient : Bool)
  | simulationError
  | polled (hash : String) (status : Option GetTransactionStatus)

def Reply.result : Reply → Except SubmitError String
  | .throws transient => .error (.thrown transient)
  | .simulationError => .error .simulationFailed
  | .polled hash status =>
    if status = some .success then .ok hash else .error (.notConfirmed hash status)

def SubmitError.isTransientError : SubmitError → Bool
  | .thrown transient => transient
  -- The messages of the two errors of the service itself name no temporary failure.
  | .simulationFailed => false
  | .notConfirmed _ _ => false

/-- Run the attempts from number `attempt` on, with `retries` of them left after it. -/
def withRetry (replies : Nat → Reply) : (retries attempt : Nat) → Except SubmitError String
  | 0, attempt => (replies attempt).result
  | retries + 1, attempt =>
    match (replies attempt).result with
    | .ok hash => .ok hash
    | .error err =>
      if err.isTransientError = true then withRetry replies retries (attempt + 1) else .error err

def submitAttestation (replies : Nat → Reply) : Except SubmitError String := withRetry replies 3 0

/-- A submission that returns has been seen to succeed. -/
theorem withRetry_ok {replies : Nat → Reply} {retries attempt : Nat} {hash : String}
    (h : withRetry replies retries attempt = .ok hash) :
    ∃ k, replies k = .polled hash (some .success) := by
  have hreply : ∀ k, (replies k).result = .ok hash → replies k = .polled hash (some .success) := by
    intro k hk
    cases hr : replies k with
    | throws =>
      rw [hr] at hk
      cases hk
    | simulationError =>
      rw [hr] at hk
      cases hk
    | polled hash' status =>
      rw [hr] at hk
      have hk' : (if status = some .success then .ok hash' else .error (.notConfirmed hash' status) :
        Except SubmitError String) = .ok hash := hk
      split at hk'
      · rename_i hstatus
        obtain rfl := Except.ok.inj hk'
        rw [hstatus]
      · cases hk'
  induction retries generalizing attempt with
  | zero => exact ⟨attempt, hreply attempt h⟩
  | succ retries ih =>
    rw [withRetry] at h
    split at h
    · rename_i hash' hok
      obtain rfl := Except.ok.inj h
      exact ⟨attempt, hreply attempt hok⟩
    · split at h
      · exact ih h
      · cases h

/-! ## Ticks -/

/-- One pass of `scheduleLoop`: its window, the `lastWindowEnd` that the window was computed
from, and the number of the attempt. -/
structure Pass where
  window : ReportWindow
  read : Int
  attempt : Nat
  deriving DecidableEq

/-- A report that has been signed and is being submitted, with the key that signed it. -/
structure Submission where
  stats : CreatorStats
  report : AnalyticsReport
  reportCbor : Bytes
  reportHash : Bytes32
  signature : Bytes64
  signedBy : Bytes32
  deriving DecidableEq

/-- What a tick waits for. -/
inductive Tick where
  | latestLedger
  | creatorStats (p : Pass)
  /-- The rows of the window, the submission, the rows after it and the creators that failed. -/
  | submission (p : Pass) (rows : List CreatorStats) (x : Submission) (rest : List CreatorStats)
      (failedCreators : List String)
  | backoff (p : Pass)
  | ended
  deriving DecidableEq

structure Deployment where
  lib : Libraries
  oracleName : String
  windowLedgers : Int

/-- The state of the process.  `completed` are the windows that were completed, in order, with
the rows that they were completed with. -/
structure Service where
  signer : RotatingSigner
  cache : Attestations
  lastWindowEnd : Int
  ticks : List Tick
  shuttingDown : Bool
  now : Int
  completed : List (ReportWindow × List CreatorStats)

def MAX_RETRIES : Nat := 3

/-- The window of a pass, unless it would be empty. -/
def scheduleWindow (windowLedgers lastWindowEnd currentLedger : Int) : Option ReportWindow :=
  let windowStart := if lastWindowEnd = 0 then currentLedger - windowLedgers else lastWindowEnd + 1
  if currentLedger ≤ windowStart then none else some ⟨windowStart, currentLedger⟩

/-- How far the loop over the creators gets before it has to wait. -/
inductive Progress where
  | finished (failedCreators : List String)
  | submit (x : Submission) (rest : List CreatorStats) (failedCreators : List String)

/-- The report of one creator. -/
def CreatorStats.report (s : CreatorStats) (creator : Bytes) (window : ReportWindow) :
    AnalyticsReport where
  version := ⟨"1", some 1⟩
  creator
  windowStart := window.windowStart
  windowEnd := window.windowEnd
  totalTips := s.totalTips
  postCount := s.postCount
  followerDelta := s.followerDelta
  uniqueTippers := s.uniqueTippers

/-- The loop over the creators, up to the next submission. -/
def signNext (lib : Libraries) (signer : RotatingSigner) (window : ReportWindow) :
    List CreatorStats → List String → Progress
  | [], failed => .finished failed
  | s :: rest, failed =>
    match lib.rawPublicKey s.creatorAddress with
    | none => signNext lib signer window rest failed
    | some creator =>
      let report := s.report creator window
      match encodeReport lib.encode report with
      | .error _ => signNext lib signer window rest (failed ++ [s.creatorAddress])
      | .ok reportCbor =>
        match signer.signReport lib.sha256 lib.sign reportCbor with
        | .error _ => signNext lib signer window rest (failed ++ [s.creatorAddress])
        | .ok out =>
          .submit
            { stats := s
              report
              reportCbor
              reportHash := out.reportHash
              signature := out.signature
              signedBy := signer.fingerprint lib }
            rest failed

namespace Service

def setTick (s : Service) (i : Nat) (t : Tick) : Service := { s with ticks := s.ticks.set i t }

/-- An attempt has failed. -/
def failAttempt (s : Service) (i : Nat) (p : Pass) : Service :=
  s.setTick i (if p.attempt < MAX_RETRIES then .backoff p else .ended)

/-- An attempt announces the window and reads the statistics. -/
def beginAttempt (s : Service) (i : Nat) (p : Pass) : Service :=
  match s.cache.beginWindow p.window.windowStart p.window.windowEnd with
  | none => s.failAttempt i p
  | some cache => { s with cache }.setTick i (.creatorStats p)

def scheduleLoop (d : Deployment) (s : Service) (i : Nat) (currentLedger : Int) : Service :=
  match scheduleWindow d.windowLedgers s.lastWindowEnd currentLedger with
  | none => s.setTick i .ended
  | some window => s.beginAttempt i { window, read := s.lastWindowEnd, attempt := 1 }

/-- `runWindow` has returned. -/
def complete (s : Service) (i : Nat) (p : Pass) (rows : List CreatorStats) : Service :=
  { s with
    lastWindowEnd := p.window.windowEnd
    completed := s.completed ++ [(p.window, rows)] }.setTick i .ended

/-- The rest of `runWindow`, up to where it waits, returns or throws. -/
def runRows (d : Deployment) (s : Service) (i : Nat) (p : Pass) (rows rest : List CreatorStats)
    (failed : List String) : Service :=
  match signNext d.lib s.signer p.window rest failed with
  | .submit x rest failed => s.setTick i (.submission p rows x rest failed)
  | .finished [] => s.complete i p rows
  | .finished (_ :: _) => s.failAttempt i p

/-- The attestation that is cached when a submission has returned. -/
def attestation (d : Deployment) (s : Service) (x : Submission) (txHash : String) :
    SignedAttestation where
  oracleName := d.oracleName
  signerKey := s.signer.fingerprint d.lib
  keyVersion := s.signer.keyVersion
  rotationEpoch := s.signer.rotationEpoch
  reportCbor := x.reportCbor
  reportHash := x.reportHash
  signature := x.signature
  txHash
  report := x.report
  submittedAt := s.now

def store (d : Deployment) (s : Service) (x : Submission) (txHash : String) : Service :=
  { s with
    cache := s.cache.set s.now x.stats.creatorAddress (s.attestation d x txHash) }

end Service

/-! ## Key rotation -/

/-- A request of `POST /rotate-key`: whether it carries the admin secret, whether the secrets
backend can rotate, and the seed that is read again. -/
structure RotateRequest where
  authorized : Bool
  supportsRotation : Bool
  reload : Option Bytes

inductive RotateResponse where
  | unauthorized
  | rotationUnsupported
  | keyReloadFailed
  | rotationNoop
  | rotated (oldFingerprint newFingerprint : Bytes32)

namespace Service

/-- `rotate`, with the listener that `index.ts` registers. -/
def rotate (d : Deployment) (s : Service) (newSeed : Bytes) : Service :=
  { s with
    signer :=
      { seed := newSeed
        disposed := s.signer.disposed
        keyVersion := s.signer.keyVersion + 1
        rotationEpoch := s.signer.rotationEpoch + 1 }
    cache := s.cache.setSignerId (some (d.lib.getPublicKey newSeed)) }

def rotateKey (d : Deployment) (s : Service) (req : RotateRequest) : RotateResponse × Service :=
  if req.authorized = false then (.unauthorized, s)
  else if req.supportsRotation = false then (.rotationUnsupported, s)
  else
    match req.reload with
    | none => (.keyReloadFailed, s)
    | some newSeed =>
      let oldFingerprint := s.signer.fingerprint d.lib
      let newFingerprint := d.lib.getPublicKey newSeed
      let rotated := s.rotate d newSeed
      if newFingerprint = oldFingerprint then (.rotationNoop, rotated)
      else
        (.rotated oldFingerprint newFingerprint,
          { rotated with cache := rotated.cache.setSignerId (some newFingerprint) })

/-- A request leaves the service as it is or swaps the key. -/
theorem rotateKey_cases (d : Deployment) (s : Service) (req : RotateRequest) :
    (s.rotateKey d req).2 = s ∨ ∃ newSeed, (s.rotateKey d req).2 = s.rotate d newSeed := by
  unfold rotateKey
  split
  · exact Or.inl rfl
  · split
    · exact Or.inl rfl
    · split
      · exact Or.inl rfl
      · rename_i newSeed _
        right
        refine ⟨newSeed, ?_⟩
        dsimp only
        split
        · rfl
        · -- The cache is bound to the new key already.
          unfold rotate
          simp only [AttestationCache.setSignerId_twice]

end Service

/-! ## Steps -/

inductive Action where
  /-- The timer fires. -/
  | timer
  | latestLedger (i : Nat) (sequence : Option Int)
  | creatorStats (i : Nat) (rows : Option (List CreatorStats))
  | submitted (i : Nat) (replies : Nat → Reply)
  | retry (i : Nat)
  | rotateKey (req : RotateRequest)
  | lookup (creator : String)
  | purge
  | clock (now : Int)
  | signal

/-- `none` when the action cannot be taken: no tick waits for it. -/
def Service.next (d : Deployment) (s : Service) : Action → Option Service
  -- The interval is set when the first tick has ended, and is cleared by a shutdown.
  | .timer =>
    if s.ticks.head? = some .ended ∧ s.shuttingDown = false then
      some { s with ticks := s.ticks ++ [.latestLedger] }
    else none
  | .latestLedger i sequence =>
    match s.ticks[i]? with
    | some .latestLedger =>
      match sequence with
      | none => some (s.setTick i .ended)
      | some currentLedger => some (s.scheduleLoop d i currentLedger)
    | _ => none
  | .creatorStats i rows =>
    match s.ticks[i]? with
    | some (.creatorStats p) =>
      match rows with
      | none => some (s.failAttempt i p)
      | some rows => some (s.runRows d i p rows rows [])
    | _ => none
  | .submitted i replies =>
    match s.ticks[i]? with
    | some (.submission p rows x rest failed) =>
      match submitAttestation replies with
      | .error _ => some (s.runRows d i p rows rest (failed ++ [x.stats.creatorAddress]))
      | .ok txHash => some ((s.store d x txHash).runRows d i p rows rest failed)
    | _ => none
  | .retry i =>
    match s.ticks[i]? with
    | some (.backoff p) => some (s.beginAttempt i { p with attempt := p.attempt + 1 })
    | _ => none
  | .rotateKey req => some (s.rotateKey d req).2
  | .lookup creator => some { s with cache := (s.cache.get s.now creator).2 }
  | .purge => some { s with cache := s.cache.purgeExpired s.now }
  | .clock now => some { s with now }
  | .signal => some { s with shuttingDown := true }

/-- The process has started its first tick. -/
def Service.start (d : Deployment) (seed : Bytes) (maxSize ttlMs : Nat) (h : 0 < maxSize)
    (now : Int) : Service where
  signer := { seed, disposed := false, keyVersion := 1, rotationEpoch := 1 }
  cache := (AttestationCache.new maxSize ttlMs h).setSignerId (some (d.lib.getPublicKey seed))
  lastWindowEnd := 0
  ticks := [.latestLedger]
  shuttingDown := false
  now
  completed := []

/-- What the process can do. -/
def Service.Step (d : Deployment) : Service → Action → Service → Prop := StepOf (Service.next d)

/-! ## A deployment -/

/-- Public keys and signatures that tell seeds and digests apart. -/
def demoLibraries : Libraries where
  encode := cborArray
  sha256 := Sha256.digest
  sign digest seed := Sha256.digest seed ++ digest
  getPublicKey := Sha256.digest
  rawPublicKey address :=
    if address = Indexer.strkey Contract.alice then some (Contract.Bytes32.toBytes 1) else none

def demoDeployment : Deployment where
  lib := demoLibraries
  oracleName := "analytics"
  windowLedgers := 10

def demoStart : Service := Service.start demoDeployment [3] 8 3600000 (by decide) 0

def statsOfAlice : CreatorStats where
  creatorAddress := Indexer.strkey Contract.alice
  totalTips := 40
  postCount := 2
  followerDelta := 0
  uniqueTippers := ⟨"1", some 1⟩

def confirmed : Nat → Reply := fun _ => .polled "tx" (some .success)

/-- The service after a run. -/
def demoRun (acts : List Action) : Option Service :=
  walk (Service.next demoDeployment) acts demoStart

end Oracle
end Linkora
