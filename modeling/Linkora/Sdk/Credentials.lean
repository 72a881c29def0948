import Linkora.Lib.Merkle
import Linkora.Lib.Sha256
import Linkora.Contract.Nullifiers

/-!
# Credential proofs of the SDK

`packages/sdk/src/credentials.ts` builds the tree that `verify_credential` checks a
path of.  The SDK works on byte arrays and the contract on `BytesN<32>`; both hash with
SHA-256, which is the host's function here, written out as bytes on the SDK's side.
-/

namespace Linkora

namespace Contract

theorem Bytes32.length_toBytes (b : Bytes32) : b.toBytes.length = 32 := Sha256.length_bytes b

/-- A digest can be read back from its bytes. -/
theorem Bytes32.toBytes_injective : Function.Injective Bytes32.toBytes := Sha256.bytes_injective

theorem bytesLeq_total (left right : Bytes) :
    bytesLeq left right = true ∨ bytesLeq right left = true := by
  induction left generalizing right with
  | nil => exact Or.inl (by simp [bytesLeq])
  | cons a lefts ih =>
    cases right with
    | nil => exact Or.inl (by simp [bytesLeq])
    | cons b rights =>
      rw [bytesLeq, bytesLeq]
      by_cases hab : a < b
      · exact Or.inl (if_pos hab)
      · by_cases hba : b < a
        · exact Or.inr (if_pos hba)
        · simp only [if_neg hab, if_neg hba]
          exact ih rights

theorem bytesLeq_antisymm {left right : Bytes} (hlen : left.length = right.length)
    (h : bytesLeq left right = true) (h' : bytesLeq right left = true) : left = right := by
  induction left generalizing right with
  | nil => exact (List.length_eq_zero_iff.mp hlen.symm).symm
  | cons a lefts ih =>
    cases right with
    | nil => cases hlen
    | cons b rights =>
      rw [bytesLeq] at h h'
      by_cases hab : a < b
      · rw [if_neg (UInt8.lt_asymm hab), if_pos hab] at h'
        cases h'
      · by_cases hba : b < a
        · rw [if_neg hab, if_pos hba] at h
          cases h
        · rw [if_neg hab, if_neg hba] at h
          rw [if_neg hba, if_neg hab] at h'
          rw [UInt8.le_antisymm (UInt8.not_lt.mp hba) (UInt8.not_lt.mp hab),
            ih (Nat.succ.inj hlen) h h']

/-- The node function does not look at the order of its arguments. -/
theorem hashMerklePair_comm {σ : Type} (host : Host σ) (a b : Bytes32) :
    hashMerklePair host a b = hashMerklePair host b a := by
  rw [hashMerklePair, hashMerklePair, hashOrderedPair, hashOrderedPair]
  by_cases hab : bytesLeq a.toBytes b.toBytes = true
  · by_cases hba : bytesLeq b.toBytes a.toBytes = true
    · have hlen : a.toBytes.length = b.toBytes.length := by
        rw [Bytes32.length_toBytes, Bytes32.length_toBytes]
      rw [bytesLeq_antisymm hlen hab hba]
    · rw [if_pos hab, if_neg hba]
  · rw [if_neg hab, if_pos ((bytesLeq_total _ _).resolve_left hab)]

/-- Only an address that can sign has a credential root. -/
def RootsOwned (s : State) : Prop :=
  ∀ user, s.credentials.root.has user = true → isZeroAddress user = false

theorem RootsOwned.exec {σ : Type} {host : Host σ} {env : Env} {w w' : World σ} {c : Call}
    (h : RootsOwned w.store) (he : exec host env w c = .ok w') : RootsOwned w'.store := by
  cases c with
  | updateCredentialRoot user newRoot signature =>
    have hs := (World.onStore_eq_ok.mp he).1
    simp only [updateCredentialRoot, Checked.bind_eq_ok, Checked.pure_eq_ok,
      validateNonDefaultAddress_eq_ok, exists_const] at hs
    obtain ⟨_, -, _, -, huser, _, -, _, -, _, -, _, -, hs⟩ := hs
    rw [← hs]
    intro u hu
    have hu' : (w.store.credentials.root.set user newRoot).has u = true := hu
    rw [Store.has_set] at hu'
    split at hu'
    · rename_i hself
      rw [hself]
      exact huser
    · exact h u hu'
  | deleteProfile user =>
    obtain ⟨-, _, _, hs, -⟩ := deleteProfile_ok (World.onStore_eq_ok.mp he).1
    rw [hs]
    intro u hu
    have hu' : (w.store.credentials.root.remove user).has u = true := hu
    rw [Store.has_remove] at hu'
    split at hu'
    · cases hu'
    · exact h u hu'
  | setCredentialAuthority =>
    rw [setCredentialAuthority_ok (World.onStore_eq_ok.mp he).1]
    exact h
  | verifyCredential =>
    obtain ⟨r, hr, hrs⟩ := Checked.map_eq_ok.mp (World.onStore_eq_ok.mp he).1
    obtain ⟨_, _, hs⟩ := verifyCredential_ok hr
    rw [← hrs, hs]
    exact h
  | pruneNullifiers =>
    obtain ⟨_, hs⟩ := pruneNullifiers_ok (World.onStore_eq_ok.mp he).1
    rw [hs]
    exact h
  | _ =>
    have hcred : w.store.SameOn w'.store .credentials := exec_frame he (by simp [Call.parts])
    rw [RootsOwned, show w'.store.credentials = w.store.credentials from hcred]
    exact h

theorem RootsOwned.of_reachable {σ : Type} {host : Host σ} {w : World σ} (h : Reachable host w) :
    RootsOwned w.store := by
  refine h.store_invariant ?_ (fun w env c w' hw he => hw.exec he)
  intro s env admin treasury feeBps hs user huser
  obtain ⟨-, -, _, _, rfl⟩ := initializeContract_ok hs
  cases huser

end Contract

namespace Sdk

open Contract (Bytes Bytes32 Host State World Address Reachable Started Book hashMerklePair
  bytesLeq verifyCredential isZeroAddress bookHost replay run_of_replay signedAt linkora alice bob)

/-- The sign that the loop over the bytes returns. -/
def compareBytes : Bytes → Bytes → Ordering
  | left :: lefts, right :: rights =>
    if left < right then .lt else if right < left then .gt else compareBytes lefts rights
  | _, _ => .eq

def hashPair (sha256 : Bytes → Bytes) (left right : Bytes) : Bytes :=
  if compareBytes left right ≠ .gt then sha256 (left ++ right) else sha256 (right ++ left)

structure CredentialMerkleProof where
  root : Bytes
  proof : List Bytes
  deriving DecidableEq

/-- The loop over the layers.  Reading past the end of a layer would yield an empty
array. -/
def proofLoop (sha256 : Bytes → Bytes) (level : List Bytes) (index : Nat) (proof : List Bytes) :
    CredentialMerkleProof :=
  if 1 < level.length then
    let padded := Merkle.pad level
    let siblingIndex := Merkle.siblingIndex index
    proofLoop sha256 (Merkle.pairs (hashPair sha256) padded) (index / 2)
      (proof ++ [padded[siblingIndex]?.getD []])
  else { root := level.head?.getD [], proof }
termination_by level.length
decreasing_by
  rw [Merkle.length_pairs, Merkle.length_pad]
  omega

def generateCredentialMerkleProof (sha256 : Bytes → Bytes) (leaves : List Bytes)
    (targetLeafIndex : Int) : Except String CredentialMerkleProof :=
  if leaves.length = 0 then
    .error "Cannot build a credential Merkle proof for an empty tree"
  else if targetLeafIndex < 0 ∨ leaves.length ≤ targetLeafIndex then
    .error "targetLeafIndex is out of bounds"
  else if leaves.all (fun leaf => leaf.length == 32) = false then
    .error "Credential Merkle leaves must be 32-byte SHA-256 hashes"
  else .ok (proofLoop sha256 leaves targetLeafIndex.toNat [])

/-! ## The loop and the tree -/

theorem proofLoop_eq (sha256 : Bytes → Bytes) {level : List Bytes} {index : Nat}
    (hi : index < level.length) (proof : List Bytes) :
    proofLoop sha256 level index proof =
      { root := (Merkle.root (hashPair sha256) level).getD []
        proof := proof ++ Merkle.path (hashPair sha256) level index } := by
  induction level, index, proof using proofLoop.induct sha256 with
  | case1 level index proof hlen padded siblingIndex ih =>
    obtain ⟨s, hs⟩ := Merkle.getElem?_siblingIndex hi
    have hnext : index / 2 < (Merkle.pairs (hashPair sha256) padded).length := by
      rw [Merkle.length_pairs, Merkle.length_pad]
      omega
    rw [proofLoop, if_pos hlen, Merkle.root_of_one_lt _ hlen, Merkle.path_of_one_lt _ hlen, hs]
    show proofLoop sha256 _ _ (proof ++ [(Merkle.pad level)[Merkle.siblingIndex index]?.getD []])
      = _
    rw [ih hnext, hs, List.append_assoc]
    rfl
  | case2 level index proof hlen =>
    rw [proofLoop, if_neg hlen, Merkle.root, if_neg hlen, Merkle.path, if_neg hlen,
      List.append_nil]

/-! ## Both sides hash alike -/

variable {σ : Type} (host : Host σ)

/-- SHA-256 as the SDK calls it. -/
def sdkSha256 (b : Bytes) : Bytes := (host.sha256 b).toBytes

theorem compareBytes_ne_gt (left right : Bytes) :
    compareBytes left right ≠ .gt ↔ bytesLeq left right = true := by
  induction left generalizing right with
  | nil => simp [compareBytes, bytesLeq]
  | cons a lefts ih =>
    cases right with
    | nil => simp [compareBytes, bytesLeq]
    | cons b rights =>
      rw [compareBytes, bytesLeq]
      split
      · simp
      · split
        · simp
        · exact ih rights

theorem hashPair_toBytes (a b : Bytes32) :
    hashPair (sdkSha256 host) a.toBytes b.toBytes = (hashMerklePair host a b).toBytes := by
  rw [hashPair, hashMerklePair]
  by_cases hle : bytesLeq a.toBytes b.toBytes = true
  · rw [if_pos ((compareBytes_ne_gt _ _).mpr hle), if_pos hle]
    rfl
  · rw [if_neg (fun hne => hle ((compareBytes_ne_gt _ _).mp hne)), if_neg hle]
    rfl

/-- What the SDK returns for a list of digests, in the contract's terms. -/
theorem generateCredentialMerkleProof_eq {leaves : List Bytes32} {i : Nat}
    (hi : i < leaves.length) :
    generateCredentialMerkleProof (sdkSha256 host) (leaves.map Bytes32.toBytes) i =
      .ok { root := ((Merkle.root (hashMerklePair host) leaves).map Bytes32.toBytes).getD []
            proof := (Merkle.path (hashMerklePair host) leaves i).map Bytes32.toBytes } := by
  have hne : ¬(leaves.map Bytes32.toBytes).length = 0 := by
    rw [List.length_map]
    omega
  have hbounds : ¬((i : Int) < 0 ∨ ((leaves.map Bytes32.toBytes).length : Int) ≤ i) := by
    rw [List.length_map]
    omega
  have hall : ¬(leaves.map Bytes32.toBytes).all (fun leaf => leaf.length == 32) = false := by
    rw [Bool.not_eq_false, List.all_eq_true]
    intro leaf hleaf
    obtain ⟨b, -, rfl⟩ := List.mem_map.mp hleaf
    rw [Bytes32.length_toBytes, beq_self_eq_true]
  have hi' : i < (leaves.map Bytes32.toBytes).length := by rwa [List.length_map]
  rw [generateCredentialMerkleProof, if_neg hne, if_neg hbounds, if_neg hall, Int.toNat_natCast,
    proofLoop_eq _ hi', Merkle.root_map (hashPair_toBytes host),
    Merkle.path_map (hashPair_toBytes host), List.nil_append]

theorem verifyCredential_of_proves {s : State} {user : Address} {proof : List Bytes32}
    {leaf nullifier : Bytes32} (huser : isZeroAddress user = false)
    (hlen : proof.length ≤ Contract.MAX_CREDENTIAL_PROOF_DEPTH)
    (h : Contract.Proves host s user proof leaf nullifier) :
    ∃ s', verifyCredential host s user proof leaf nullifier = .ok (true, s') := by
  obtain ⟨hroot, hfree⟩ := h
  have hfree' : s.credentials.nullifier.has
      (user, (s.credentials.epoch.get user).getD 0, nullifier) = false := hfree
  have huser' : Contract.validateNonDefaultAddress "user" user = .ok () := if_pos huser
  have hlen' : Contract.requireWithError (proof.length ≤ Contract.MAX_CREDENTIAL_PROOF_DEPTH)
      "credential proof exceeds the maximum supported depth" = .ok () := if_pos hlen
  have hbody : verifyCredential host s user proof leaf nullifier =
      .ok (true, { s with credentials := s.credentials.spend user nullifier }.publish
        (.credentialVerified user nullifier)) := by
    simp only [verifyCredential, huser', hlen', hroot, hfree']
    simp [bind, Except.bind, pure, Except.pure, Contract.Credentials.spend,
      Contract.Credentials.epochOf]
  exact ⟨_, hbody⟩

/-- The proof that the SDK returns for a leaf is accepted by the contract, if the root that
it returns is the user's credential root and the nullifier has not been used in the
current epoch.  It has at most twenty elements, and the root is the same for every leaf. -/
theorem verifyCredential_generated {host : Host σ} {w : World σ} (hw : Reachable host w)
    {leaves : List Bytes32} (hlen : leaves.length ≤ 2 ^ 20) {i : Nat} {leaf : Bytes32}
    (hleaf : leaves[i]? = some leaf) :
    ∃ p, generateCredentialMerkleProof (sdkSha256 host) (leaves.map Bytes32.toBytes) i = .ok p ∧
      p.proof.length ≤ 20 ∧
      (∀ j, j < leaves.length → ∃ q,
        generateCredentialMerkleProof (sdkSha256 host) (leaves.map Bytes32.toBytes) j = .ok q ∧
          q.root = p.root) ∧
      ∀ user root proof nullifier, root.toBytes = p.root → proof.map Bytes32.toBytes = p.proof →
        w.store.credentials.root.get user = some root →
        w.store.credentials.nullifier.has
          (user, w.store.credentials.epochOf user, nullifier) = false →
        ∃ s', verifyCredential host w.store user proof leaf nullifier = .ok (true, s') := by
  obtain ⟨hi, -⟩ := List.getElem?_eq_some_iff.mp hleaf
  have hpath : (Merkle.path (hashMerklePair host) leaves i).length ≤ 20 :=
    Merkle.length_path_le _ hi hlen
  have hroot : Merkle.root (hashMerklePair host) leaves =
      some ((Merkle.path (hashMerklePair host) leaves i).foldl (hashMerklePair host) leaf) :=
    Merkle.root_eq_foldl _ (Contract.hashMerklePair_comm host) hleaf
  refine ⟨_, generateCredentialMerkleProof_eq host hi, ?_, fun j hj => ?_, ?_⟩
  · rwa [List.length_map]
  · exact ⟨_, generateCredentialMerkleProof_eq host hj, rfl⟩
  · intro user root proof nullifier hr hp hstored hfree
    -- Both the root and the siblings can be read back from their bytes.
    rw [hroot, Option.map_some, Option.getD_some] at hr
    have hr' := Bytes32.toBytes_injective hr
    have hp' := List.map_injective_iff.mpr Bytes32.toBytes_injective hp
    subst hp'
    apply verifyCredential_of_proves host
    · exact Contract.RootsOwned.of_reachable hw user (Store.has_of_get hstored)
    · exact hpath
    · exact ⟨hr' ▸ hstored, hfree⟩

/-! ## A tree of two leaves -/

/-- Hashes with SHA-256, and accepts the one signature it is shown. -/
def sealedHost : Host Book :=
  { bookHost linkora with sha256 := Sha256.digest, ed25519Verify := fun _ _ _ => true }

/-- The root of the tree over the leaves `7` and `8`. -/
def twoLeafRoot : Bytes32 := hashMerklePair sealedHost 7 8

/-- The authority is known, and `alice` has the root set. -/
def certification : List (Contract.Env × Contract.Call) :=
  [(signedAt 2, .setCredentialAuthority alice 3),
    (signedAt 3, .updateCredentialRoot alice twoLeafRoot 1)]

theorem reachable_twoLeafRoot : ∃ w, Reachable sealedHost w ∧
    w.store.credentials.root.get alice = some twoLeafRoot ∧
    w.store.credentials.nullifier.has (alice, w.store.credentials.epochOf alice, 5) = false := by
  have hrun : ((Contract.start (signedAt 1) alice bob 250 ((fun _ _ => 0) : Book)).bind
      (replay sealedHost (fun _ _ _ => True) certification)).map
        (fun w => (w.store.credentials.root.get alice,
          w.store.credentials.nullifier.has (alice, w.store.credentials.epochOf alice, 5))) =
          some (some twoLeafRoot, false) := by decide +kernel
  obtain ⟨w₀, w, hstarted, hsee, hreplayed⟩ := Contract.run_of_start hrun
  obtain ⟨hroot, hfree⟩ := Prod.mk.inj hsee
  exact ⟨w, ⟨w₀, _, hstarted, hreplayed.of_guarded⟩, hroot, hfree⟩

theorem above_pair {α : Type} (h : α → α → α) (a b : α) : Merkle.above h [a, b] = [h a b] := by
  simp [Merkle.above, Merkle.pad, Merkle.pairs]

theorem root_pair {α : Type} (h : α → α → α) (a b : α) : Merkle.root h [a, b] = some (h a b) := by
  have hlen : 1 < [a, b].length := Nat.lt_succ_self 1
  rw [Merkle.root_of_one_lt h hlen, above_pair, Merkle.root]
  rfl

theorem path_pair {α : Type} (h : α → α → α) (a b : α) : Merkle.path h [a, b] 0 = [b] := by
  have hlen : 1 < [a, b].length := Nat.lt_succ_self 1
  rw [Merkle.path_of_one_lt h hlen, above_pair, Merkle.path]
  simp [Merkle.pad, Merkle.siblingIndex]

theorem verifyCredential_generated_two_leaves :
    ∃ w s', Reachable sealedHost w ∧
      verifyCredential sealedHost w.store alice [8] 7 5 = .ok (true, s') := by
  obtain ⟨w, hw, hroot, hfree⟩ := reachable_twoLeafRoot
  have hleaf : ([7, 8] : List Bytes32)[0]? = some 7 := rfl
  obtain ⟨p, hp, -, -, hverify⟩ := verifyCredential_generated hw (by decide) hleaf
  have hlt : 0 < ([7, 8] : List Bytes32).length := by decide
  rw [generateCredentialMerkleProof_eq sealedHost hlt, root_pair, path_pair] at hp
  obtain rfl := Except.ok.inj hp
  have hbytes : twoLeafRoot.toBytes =
      (Option.map Bytes32.toBytes (some (hashMerklePair sealedHost 7 8))).getD [] := by
    rw [Option.map_some, Option.getD_some, twoLeafRoot]
  obtain ⟨s', hs'⟩ := hverify alice twoLeafRoot [8] 5 hbytes rfl hroot hfree
  exact ⟨w, s', hw, hs'⟩

end Sdk
end Linkora
