import Linkora.Contract.Validation

/-!
# Credentials and analytics attestations

Merkle credentials with per-epoch nullifiers, and the signed analytics reports of
the registered oracles.  `sha256` and Ed25519 are the host's.
-/

namespace Linkora
namespace Contract

/-- The bytes of a `BytesN<32>`, most significant first. -/
def Bytes32.toBytes (b : Bytes32) : Bytes :=
  (List.range 32).map fun i => UInt8.ofNat (b.toNat / 256 ^ (31 - i) % 256)

def setCredentialAuthority (env : Env) (s : State) (admin : Address) (pubkey : Bytes32) :
    Except Panic State := do
  requireNotPaused s .credentials
  requireAuth env admin
  validateNonDefaultAddress "admin" admin
  requireRole s admin .admin
  return { s with credentials := { s.credentials with authority := some pubkey } }

def credentialRootMessageHash {σ : Type} (host : Host σ) (env : Env) (root : Bytes32) : Bytes32 :=
  host.sha256 (root.toBytes ++
    [UInt8.ofNat (env.sequence >>> 24 &&& 0xff), UInt8.ofNat (env.sequence >>> 16 &&& 0xff),
      UInt8.ofNat (env.sequence >>> 8 &&& 0xff), UInt8.ofNat (env.sequence &&& 0xff)])

def ed25519Verify {σ : Type} (host : Host σ) (pubkey message : Bytes32) (signature : Bytes64) :
    Except Panic Unit :=
  if host.ed25519Verify pubkey message signature then .ok () else .error .badSignature

def updateCredentialRoot {σ : Type} (host : Host σ) (env : Env) (s : State) (user : Address)
    (newRoot : Bytes32) (signature : Bytes64) : Except Panic State := do
  requireNotPaused s .credentials
  requireAuth env user
  validateNonDefaultAddress "user" user
  validateSignature "signature" signature
  let authorityPubkey ← expect s.credentials.authority "credential authority not set"
  ed25519Verify host authorityPubkey (credentialRootMessageHash host env newRoot) signature
  let epoch ← u32 ((s.credentials.epoch.get user).getD 0 + 1)
  let credentials := { s.credentials with
    root := s.credentials.root.set user newRoot
    epoch := s.credentials.epoch.set user epoch }
  return { s with credentials }.publish (.credentialRootUpdated user newRoot)

/-- Compare byte by byte from the front. -/
def bytesLeq : Bytes → Bytes → Bool
  | left :: lefts, right :: rights =>
    if left < right then true else if right < left then false else bytesLeq lefts rights
  | _, _ => true

def hashOrderedPair {σ : Type} (host : Host σ) (left right : Bytes32) : Bytes32 :=
  host.sha256 (left.toBytes ++ right.toBytes)

def hashMerklePair {σ : Type} (host : Host σ) (left right : Bytes32) : Bytes32 :=
  if bytesLeq left.toBytes right.toBytes then hashOrderedPair host left right
  else hashOrderedPair host right left

def verifyCredential {σ : Type} (host : Host σ) (s : State) (user : Address)
    (proof : List Bytes32) (leaf nullifier : Bytes32) : Except Panic (Bool × State) := do
  validateNonDefaultAddress "user" user
  requireWithError (proof.length ≤ MAX_CREDENTIAL_PROOF_DEPTH)
    "credential proof exceeds the maximum supported depth"
  match s.credentials.root.get user with
  | none => return (false, s)
  | some expectedRoot =>
    let epoch := (s.credentials.epoch.get user).getD 0
    if s.credentials.nullifier.has (user, epoch, nullifier) then return (false, s)
    else if proof.foldl (hashMerklePair host) leaf ≠ expectedRoot then return (false, s)
    else
      let credentials := { s.credentials with
        nullifier := s.credentials.nullifier.set (user, epoch, nullifier) true }
      return (true, { s with credentials }.publish (.credentialVerified user nullifier))

def pruneNullifiers (s : State) (user : Address) (epoch : Nat) (nullifiers : List Bytes32) :
    Except Panic State := do
  validateNonDefaultAddress "user" user
  requireWithError (epoch < (s.credentials.epoch.get user).getD 0)
    "credential epoch is still active"
  requireWithError (nullifiers.length ≤ 50) "too many nullifiers to prune"
  let nullifier := nullifiers.foldl (fun n v => n.remove (user, epoch, v)) s.credentials.nullifier
  return { s with credentials := { s.credentials with nullifier } }

/-! ## Analytics oracle -/

def registerOracle (env : Env) (s : State) (admin : Address) (name : Symbol) (pubkey : Bytes32) :
    Except Panic State := do
  requireAuth env admin
  validateNonDefaultAddress "admin" admin
  requireRole s admin .admin
  return { s with oracle := { s.oracle with key := s.oracle.key.set name pubkey } }

def verifyAnalyticsAttestation {σ : Type} (host : Host σ) (env : Env) (s : State)
    (oracleName : Symbol) (reportCbor : Bytes) (signature : Bytes64) (creator : Address)
    (windowStart windowEnd : Nat) : Except Panic State := do
  validateNonDefaultAddress "creator" creator
  requireWithError (windowStart ≤ windowEnd) "window_start must be <= window_end"
  requireWithError (windowStart ≤ env.timestamp ∧ env.timestamp ≤ windowEnd)
    "attestation outside time window"
  let pubkey ← expect (s.oracle.key.get oracleName) "oracle not registered"
  let reportHash := host.sha256 reportCbor
  requireWithError (s.oracle.attestationNullifier.has reportHash = false)
    "attestation already submitted"
  ed25519Verify host pubkey reportHash signature
  let oracle := { s.oracle with
    attestationNullifier := s.oracle.attestationNullifier.set reportHash true }
  return { s with oracle }.publish
    (.attestationVerified oracleName reportHash creator windowStart windowEnd)

/-! ## What a successful call says -/

theorem setCredentialAuthority_ok {env : Env} {s s' : State} {admin : Address} {pubkey : Bytes32}
    (h : setCredentialAuthority env s admin pubkey = .ok s') :
    s' = { s with credentials := { s.credentials with authority := some pubkey } } := by
  simp only [setCredentialAuthority, Checked.bind_eq_ok, Checked.pure_eq_ok] at h
  obtain ⟨-, -, -, -, -, -, -, -, rfl⟩ := h
  rfl

theorem updateCredentialRoot_ok {σ : Type} {host : Host σ} {env : Env} {s s' : State}
    {user : Address} {newRoot : Bytes32} {signature : Bytes64}
    (h : updateCredentialRoot host env s user newRoot signature = .ok s') :
    ∃ root epoch events, s' = { s with
      credentials := { s.credentials with root, epoch }, events } := by
  simp only [updateCredentialRoot, Checked.bind_eq_ok, Checked.pure_eq_ok] at h
  obtain ⟨_, _, _, _, _, _, _, _, _, _, _, _, _, _, rfl⟩ := h
  exact ⟨_, _, _, rfl⟩

theorem verifyCredential_ok {σ : Type} {host : Host σ} {s : State} {user : Address}
    {proof : List Bytes32} {leaf nullifier : Bytes32} {r : Bool × State}
    (h : verifyCredential host s user proof leaf nullifier = .ok r) :
    ∃ nullifier events, r.2 = { s with
      credentials := { s.credentials with nullifier }, events } := by
  simp only [verifyCredential, Checked.bind_eq_ok] at h
  obtain ⟨-, -, -, -, h⟩ := h
  split at h
  · rw [Checked.pure_eq_ok] at h
    exact ⟨_, _, by rw [← h]⟩
  · split at h
    · rw [Checked.pure_eq_ok] at h
      exact ⟨_, _, by rw [← h]⟩
    · split at h
      · rw [Checked.pure_eq_ok] at h
        exact ⟨_, _, by rw [← h]⟩
      · rw [Checked.pure_eq_ok] at h
        subst h
        exact ⟨_, _, rfl⟩

theorem pruneNullifiers_ok {s s' : State} {user : Address} {epoch : Nat}
    {nullifiers : List Bytes32} (h : pruneNullifiers s user epoch nullifiers = .ok s') :
    ∃ nullifier, s' = { s with credentials := { s.credentials with nullifier } } := by
  simp only [pruneNullifiers, Checked.bind_eq_ok, Checked.pure_eq_ok] at h
  obtain ⟨-, -, -, -, -, -, rfl⟩ := h
  exact ⟨_, rfl⟩

theorem registerOracle_ok {env : Env} {s s' : State} {admin : Address} {name : Symbol}
    {pubkey : Bytes32} (h : registerOracle env s admin name pubkey = .ok s') :
    ∃ key, s' = { s with oracle := { s.oracle with key } } := by
  simp only [registerOracle, Checked.bind_eq_ok, Checked.pure_eq_ok] at h
  obtain ⟨-, -, -, -, -, -, rfl⟩ := h
  exact ⟨_, rfl⟩

/-- An attestation is accepted within its window, for a report that has not been attested
and with a signature that verifies under the registered key. -/
theorem verifyAnalyticsAttestation_checks {σ : Type} {host : Host σ} {env : Env} {s s' : State}
    {oracleName : Symbol} {reportCbor : Bytes} {signature : Bytes64} {creator : Address}
    {windowStart windowEnd : Nat}
    (h : verifyAnalyticsAttestation host env s oracleName reportCbor signature creator windowStart
      windowEnd = .ok s') :
    isZeroAddress creator = false ∧ windowStart ≤ env.timestamp ∧ env.timestamp ≤ windowEnd ∧
      s.oracle.attestationNullifier.has (host.sha256 reportCbor) = false ∧
      ∃ pubkey, s.oracle.key.get oracleName = some pubkey ∧
        host.ed25519Verify pubkey (host.sha256 reportCbor) signature = true ∧
        s' = { s with
          oracle := { s.oracle with
            attestationNullifier :=
              s.oracle.attestationNullifier.set (host.sha256 reportCbor) true } }.publish
                (.attestationVerified oracleName (host.sha256 reportCbor) creator windowStart
                  windowEnd) := by
  simp only [verifyAnalyticsAttestation, Checked.bind_eq_ok, Checked.pure_eq_ok, exists_const,
    validateNonDefaultAddress_eq_ok, requireWithError_eq_ok, expect_eq_ok] at h
  obtain ⟨hcreator, -, ⟨hstart, hend⟩, pubkey, hpubkey, hfresh, _, hverify, rfl⟩ := h
  have hsig : host.ed25519Verify pubkey (host.sha256 reportCbor) signature = true := by
    unfold ed25519Verify at hverify
    split at hverify
    · rename_i hsig
      exact hsig
    · cases hverify
  exact ⟨hcreator, hstart, hend, hfresh, pubkey, hpubkey, hsig, rfl⟩

theorem verifyAnalyticsAttestation_ok {σ : Type} {host : Host σ} {env : Env} {s s' : State}
    {oracleName : Symbol} {reportCbor : Bytes} {signature : Bytes64} {creator : Address}
    {windowStart windowEnd : Nat}
    (h : verifyAnalyticsAttestation host env s oracleName reportCbor signature creator windowStart
      windowEnd = .ok s') :
    ∃ attestationNullifier events, s' = { s with
      oracle := { s.oracle with attestationNullifier }, events } := by
  simp only [verifyAnalyticsAttestation, Checked.bind_eq_ok, Checked.pure_eq_ok] at h
  obtain ⟨_, _, _, _, _, _, _, _, _, _, _, _, rfl⟩ := h
  exact ⟨_, _, rfl⟩

end Contract
end Linkora
