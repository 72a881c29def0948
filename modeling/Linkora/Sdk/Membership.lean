import Linkora.Sdk.Credentials

/-!
# What a verified path proves

A leaf is hashed like every other node, from the leaf to the root: nothing in the string
that is hashed says on which layer a node stands.  A path may therefore start at any node
of the tree, and the leaf of the call is one of the listed leaves only where the tree has
no other node.
-/

namespace Linkora
namespace Sdk

open Contract (Bytes Bytes32 Host State World Address Reachable Started Book hashMerklePair
  hashOrderedPair bytesLeq verifyCredential replay run_of_replay signedAt alice bob)

variable {σ : Type} (host : Host σ)

/-- The string that a pair of nodes is hashed as. -/
def pairString (x : Bytes32 × Bytes32) : Bytes :=
  if bytesLeq x.1.toBytes x.2.toBytes = true then x.1.toBytes ++ x.2.toBytes
  else x.2.toBytes ++ x.1.toBytes

/-- The strings that are hashed to build the tree over the digests of `preimages`, those
of the leaves included. -/
def treeStrings (preimages : List Bytes) : List Bytes :=
  preimages ++ (Merkle.joins (hashMerklePair host) (preimages.map host.sha256)).map pairString

/-- The strings that a call of `verify_credential` hashes. -/
def proofStrings (leaf : Bytes32) (proof : List Bytes32) : List Bytes :=
  (Merkle.climbs (hashMerklePair host) leaf proof).map pairString

theorem hashMerklePair_eq (x : Bytes32 × Bytes32) :
    hashMerklePair host x.1 x.2 = host.sha256 (pairString x) := by
  rw [hashMerklePair, hashOrderedPair, hashOrderedPair, pairString]
  split
  · rfl
  · rfl

theorem append_proofStrings_nil (strings : List Bytes) (leaf : Bytes32) :
    strings ++ proofStrings host leaf [] = strings := List.append_nil strings

theorem length_pairString (x : Bytes32 × Bytes32) : (pairString x).length = 64 := by
  rw [pairString]
  split
  · rw [List.length_append, Contract.Bytes32.length_toBytes, Contract.Bytes32.length_toBytes]
  · rw [List.length_append, Contract.Bytes32.length_toBytes, Contract.Bytes32.length_toBytes]

/-- The two nodes can be read back from the string, up to their order. -/
theorem pairString_cases (x : Bytes32 × Bytes32) :
    pairString x = x.1.toBytes ++ x.2.toBytes ∨ pairString x = x.2.toBytes ++ x.1.toBytes := by
  rw [pairString]
  split
  · exact Or.inl rfl
  · exact Or.inr rfl

theorem toBytes_append_inj {a b c d : Bytes32}
    (h : a.toBytes ++ b.toBytes = c.toBytes ++ d.toBytes) : a = c ∧ b = d := by
  have hlen : a.toBytes.length = c.toBytes.length := by
    rw [Contract.Bytes32.length_toBytes, Contract.Bytes32.length_toBytes]
  obtain ⟨hac, hbd⟩ := List.append_inj h hlen
  exact ⟨Contract.Bytes32.toBytes_injective hac, Contract.Bytes32.toBytes_injective hbd⟩

theorem fst_of_pairString_eq {x y : Bytes32 × Bytes32} (h : pairString y = pairString x) :
    y.1 = x.1 ∨ y.1 = x.2 := by
  rcases pairString_cases y with hy | hy <;> rcases pairString_cases x with hx | hx <;>
    rw [hy, hx] at h
  · exact Or.inl (toBytes_append_inj h).1
  · exact Or.inr (toBytes_append_inj h).1
  · exact Or.inr (toBytes_append_inj h).2
  · exact Or.inl (toBytes_append_inj h).2

variable {host}

/-- Without collisions, a path to the root starts at a node of the tree. -/
theorem mem_nodes_of_proof {preimages : List Bytes} (hpre : ∀ p ∈ preimages, p.length ≠ 64)
    {leaf root : Bytes32} {proof : List Bytes32}
    (hfree : CollisionFree host.sha256 (treeStrings host preimages ++ proofStrings host leaf proof))
    (hroot : Merkle.root (hashMerklePair host) (preimages.map host.sha256) = some root)
    (hproof : proof.foldl (hashMerklePair host) leaf = root) :
    leaf ∈ Merkle.nodes (hashMerklePair host) (preimages.map host.sha256) := by
  have hclimb : ∀ y ∈ Merkle.climbs (hashMerklePair host) leaf proof,
      pairString y ∈ treeStrings host preimages ++ proofStrings host leaf proof :=
    fun y hy => List.mem_append_right _ (List.mem_map_of_mem hy)
  apply Merkle.mem_nodes_of_foldl
  · intro y hy hmem
    obtain ⟨p, hp, heq⟩ := List.mem_map.mp hmem
    rw [hashMerklePair_eq] at heq
    have hp' : p ∈ treeStrings host preimages ++ proofStrings host leaf proof :=
      List.mem_append_left _ (List.mem_append_left _ hp)
    have hsame : p = pairString y := hfree p hp' _ (hclimb y hy) heq
    exact hpre p hp (by rw [hsame, length_pairString])
  · intro y hy x hx heq
    rw [hashMerklePair_eq, hashMerklePair_eq] at heq
    have hx' : pairString x ∈ treeStrings host preimages ++ proofStrings host leaf proof :=
      List.mem_append_left _ (List.mem_append_right _ (List.mem_map_of_mem hx))
    exact fst_of_pairString_eq (hfree _ (hclimb y hy) _ hx' heq)
  · rw [hproof]
    exact Merkle.root_mem_nodes _ hroot

/-- The root of two leaves or more is not a leaf. -/
theorem root_notMem_leaves {preimages : List Bytes} (hpre : ∀ p ∈ preimages, p.length ≠ 64)
    (hfree : CollisionFree host.sha256 (treeStrings host preimages)) (hlen : 1 < preimages.length)
    {root : Bytes32}
    (hroot : Merkle.root (hashMerklePair host) (preimages.map host.sha256) = some root) :
    root ∉ preimages.map host.sha256 := by
  intro hmem
  obtain ⟨p, hp, heq⟩ := List.mem_map.mp hmem
  have hlen' : 1 < (preimages.map host.sha256).length := by rwa [List.length_map]
  obtain ⟨x, hx, hxroot⟩ := Merkle.root_mem_joins _ hlen' hroot
  rw [hxroot, hashMerklePair_eq] at heq
  have hsame : p = pairString x :=
    hfree p (List.mem_append_left _ hp) _ (List.mem_append_right _ (List.mem_map_of_mem hx)) heq
  exact hpre p hp (by rw [hsame, length_pairString])

/-- The root that the SDK returns, in the contract's terms. -/
theorem root_of_generated {leaves : List Bytes32} {i : Int} {p : CredentialMerkleProof}
    (hp : generateCredentialMerkleProof (sdkSha256 host) (leaves.map Contract.Bytes32.toBytes) i =
      .ok p) {root : Bytes32} (hroot : root.toBytes = p.root) :
    Merkle.root (hashMerklePair host) leaves = some root ∧ 0 < leaves.length := by
  have hrange : 0 ≤ i ∧ i.toNat < leaves.length := by
    rw [generateCredentialMerkleProof] at hp
    split at hp
    · cases hp
    · split at hp
      · cases hp
      · rename_i hbounds
        rw [List.length_map] at hbounds
        omega
  obtain ⟨hnonneg, hlt⟩ := hrange
  rw [← Int.toNat_of_nonneg hnonneg, generateCredentialMerkleProof_eq host hlt] at hp
  obtain rfl := Except.ok.inj hp
  refine ⟨?_, by omega⟩
  obtain ⟨leaf, hleaf⟩ : ∃ leaf, leaves[i.toNat]? = some leaf :=
    ⟨_, List.getElem?_eq_getElem hlt⟩
  have hsome := Merkle.root_eq_foldl _ (Contract.hashMerklePair_comm host) hleaf
  rw [hsome, Option.map_some, Option.getD_some] at hroot
  rw [hsome, Contract.Bytes32.toBytes_injective hroot]

/-- The root proves itself, with an empty path. -/
theorem proves_root {s : State} {user : Address} {root nullifier : Bytes32}
    (hstored : s.credentials.root.get user = some root)
    (hunspent : s.credentials.nullifier.has (user, s.credentials.epochOf user, nullifier) = false) :
    Contract.Proves host s user [] root nullifier :=
  ⟨hstored, hunspent⟩

theorem proves_of_verified {s s' : State} {user : Address} {proof : List Bytes32}
    {leaf nullifier : Bytes32}
    (h : verifyCredential host s user proof leaf nullifier = .ok (true, s')) :
    Contract.Proves host s user proof leaf nullifier := by
  rcases Contract.verifyCredential_result h with ⟨hproves, -⟩ | ⟨-, hr⟩
  · exact hproves
  · cases (Prod.mk.inj hr).1

/-- Let the credential root of `user` be the root over leaves that are digests of strings
other than of 64 bytes, and let no two strings that are hashed collide.  Then only listed
leaves verify if and only if the list has a single leaf, or the user's nullifiers of the
epoch are all spent, so that nothing verifies. -/
theorem only_listed_leaves_verify_iff {w : World σ} (hw : Reachable host w)
    {preimages : List Bytes} (hpre : ∀ p ∈ preimages, p.length ≠ 64)
    (hfree : CollisionFree host.sha256 (treeStrings host preimages)) {i : Int}
    {p : CredentialMerkleProof}
    (hp : generateCredentialMerkleProof (sdkSha256 host)
      ((preimages.map host.sha256).map Contract.Bytes32.toBytes) i = .ok p)
    {user : Address} {root : Bytes32} (hroot : root.toBytes = p.root)
    (hstored : w.store.credentials.root.get user = some root) :
    (∀ proof leaf nullifier s', proof.length ≤ 20 →
      CollisionFree host.sha256 (treeStrings host preimages ++ proofStrings host leaf proof) →
      verifyCredential host w.store user proof leaf nullifier = .ok (true, s') →
      leaf ∈ preimages.map host.sha256) ↔
    (preimages.length = 1 ∨ ∀ nullifier, w.store.credentials.nullifier.has
      (user, w.store.credentials.epochOf user, nullifier) = true) := by
  obtain ⟨hroot', hpos⟩ := root_of_generated hp hroot
  rw [List.length_map] at hpos
  constructor
  · intro hsound
    by_contra hneither
    obtain ⟨hone, hspent⟩ := not_or.mp hneither
    obtain ⟨nullifier, hnullifier⟩ := not_forall.mp hspent
    have hunspent := Bool.eq_false_iff.mpr hnullifier
    have huser := Contract.RootsOwned.of_reachable hw user (Store.has_of_get hstored)
    obtain ⟨s', hs'⟩ := verifyCredential_of_proves host huser (Nat.zero_le _)
      (proves_root hstored hunspent)
    have hfree' : CollisionFree host.sha256 (treeStrings host preimages ++ proofStrings host root []) := by
      rwa [append_proofStrings_nil]
    have hmem := hsound [] root nullifier s' (Nat.zero_le _) hfree' hs'
    exact root_notMem_leaves hpre hfree (by omega) hroot' hmem
  · intro hcond proof leaf nullifier s' _ hfree' hverify
    obtain ⟨hfold, hunspent⟩ := proves_of_verified hverify
    rw [hstored, Option.some.injEq] at hfold
    rcases hcond with hone | hspent
    · have hmem := mem_nodes_of_proof hpre hfree' hroot' hfold.symm
      rw [Merkle.nodes, List.length_map, if_neg (by omega)] at hmem
      exact hmem
    · rw [hspent nullifier] at hunspent
      cases hunspent

/-! ## A tree of one leaf, and one of two -/

/-- What a world shows of the credentials of `alice`. -/
def credentialsOfAlice (w : World Book) : Option Bytes32 × Bool :=
  (w.store.credentials.root.get alice,
    w.store.credentials.nullifier.has (alice, w.store.credentials.epochOf alice, 5))

/-- The authority is known, and `alice` has the root set. -/
def certified (root : Bytes32) : Option (World Book) :=
  (Contract.start (signedAt 1) alice bob 250 (fun _ _ => 0)).bind
    (replay sealedHost (fun _ _ _ => True)
      [(signedAt 2, .setCredentialAuthority alice 3),
        (signedAt 3, .updateCredentialRoot alice root 1)])

theorem reachable_certified {root : Bytes32}
    (hrun : (certified root).map credentialsOfAlice = some (some root, false)) :
    ∃ w, Reachable sealedHost w ∧ w.store.credentials.root.get alice = some root ∧
      w.store.credentials.nullifier.has
        (alice, w.store.credentials.epochOf alice, 5) = false := by
  obtain ⟨w₀, w, hstarted, hsee, hreplayed⟩ := Contract.run_of_start hrun
  obtain ⟨hroot, hfree⟩ := Prod.mk.inj hsee
  exact ⟨w, ⟨w₀, _, hstarted, hreplayed.of_guarded⟩, hroot, hfree⟩

theorem root_single {α : Type} (h : α → α → α) (a : α) : Merkle.root h [a] = some a := by
  rw [Merkle.root]
  rfl

theorem joins_pair {α : Type} (h : α → α → α) (a b : α) : Merkle.joins h [a, b] = [(a, b)] := by
  have hlen : 1 < [a, b].length := Nat.lt_succ_self 1
  rw [Merkle.joins_of_one_lt h hlen, above_pair, Merkle.joins]
  simp [Merkle.pad, Merkle.neighbours]

theorem only_listed_leaves_verify_iff_single :
    ∃ w, Reachable sealedHost w ∧ ∀ proof leaf nullifier s', proof.length ≤ 20 →
      CollisionFree sealedHost.sha256
        (treeStrings sealedHost [[7]] ++ proofStrings sealedHost leaf proof) →
      verifyCredential sealedHost w.store alice proof leaf nullifier = .ok (true, s') →
      leaf ∈ [Sha256.digest [7]] := by
  have hrun : (certified (Sha256.digest [7])).map credentialsOfAlice =
      some (some (Sha256.digest [7]), false) := by
    rw [Sha256.digest_eq_eager]
    decide +kernel
  obtain ⟨w, hw, hroot, -⟩ := reachable_certified hrun
  have hlt : 0 < ([[7]].map sealedHost.sha256).length := by decide
  have hp := generateCredentialMerkleProof_eq sealedHost hlt
  have hbytes : Contract.Bytes32.toBytes (Sha256.digest [7]) =
      ((Merkle.root (hashMerklePair sealedHost) ([[7]].map sealedHost.sha256)).map
        Contract.Bytes32.toBytes).getD [] := by
    rw [List.map_singleton, root_single, Option.map_some, Option.getD_some]
    rfl
  have hpre : ∀ p ∈ ([[7]] : List Bytes), p.length ≠ 64 := by decide
  have hfree : CollisionFree sealedHost.sha256 (treeStrings sealedHost [[7]]) := by
    intro a ha b hb _
    rw [treeStrings, Merkle.joins] at ha hb
    rw [List.mem_singleton.mp ha, List.mem_singleton.mp hb]
  exact ⟨w, hw, (only_listed_leaves_verify_iff hw hpre hfree hp hbytes hroot).mpr (Or.inl rfl)⟩

/-- Over two leaves, the root passes for a leaf. -/
theorem root_verifies_unlisted : ∃ w p s' root, Reachable sealedHost w ∧
    CollisionFree sealedHost.sha256
      (treeStrings sealedHost [[7], [8]] ++ proofStrings sealedHost root []) ∧
    generateCredentialMerkleProof (sdkSha256 sealedHost)
      (([[7], [8]].map sealedHost.sha256).map Contract.Bytes32.toBytes) 0 = .ok p ∧
    root.toBytes = p.root ∧ w.store.credentials.root.get alice = some root ∧
    verifyCredential sealedHost w.store alice [] root 5 = .ok (true, s') ∧
    root ∉ [[7], [8]].map sealedHost.sha256 := by
  have hrun : (certified
      (hashMerklePair sealedHost (sealedHost.sha256 [7]) (sealedHost.sha256 [8]))).map
        credentialsOfAlice = some
          (some (hashMerklePair sealedHost (sealedHost.sha256 [7]) (sealedHost.sha256 [8])),
            false) := by
    decide +kernel
  obtain ⟨w, hw, hroot, hunspent⟩ := reachable_certified hrun
  have huser := Contract.RootsOwned.of_reachable hw alice (Store.has_of_get hroot)
  obtain ⟨s', hs'⟩ := verifyCredential_of_proves sealedHost huser (Nat.zero_le _)
    (proves_root hroot hunspent)
  have hlt : 0 < ([[7], [8]].map sealedHost.sha256).length := by decide
  have hfree : CollisionFree sealedHost.sha256 (treeStrings sealedHost [[7], [8]]) := by
    rw [treeStrings, List.map_cons, List.map_singleton, joins_pair, sealedHost,
      Sha256.digest_eq_eager]
    decide +kernel
  have hnew : hashMerklePair sealedHost (sealedHost.sha256 [7]) (sealedHost.sha256 [8]) ∉
      [[7], [8]].map sealedHost.sha256 := by decide +kernel
  have hp := generateCredentialMerkleProof_eq sealedHost hlt
  rw [Int.natCast_zero] at hp
  refine ⟨w, _, s', _, hw, ?_, hp, ?_, hroot, hs', hnew⟩
  · rw [append_proofStrings_nil]
    exact hfree
  · rw [List.map_cons, List.map_singleton, root_pair, Option.map_some, Option.getD_some]

end Sdk
end Linkora
