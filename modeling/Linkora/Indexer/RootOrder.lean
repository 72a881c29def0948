import Linkora.Indexer.StateRoot

/-!
# State roots and the order of rows

The queries behind the state roots name no order, and PostgreSQL returns rows in any.  The full
scan sorts the hashes, and the incremental way combines them in a way that no order matters to,
so two nodes with the same tables report the same roots.
-/

namespace Linkora
namespace Indexer

theorem toHex_injective : Function.Injective toHex :=
  fun _ _ h => hexDigits_injective (String.ofList_injective h)

/-- The order in which the leaves are sorted. -/
def hexLe (a b : Digest) : Prop := toHex a ≤ toHex b

instance : DecidableRel hexLe := fun a b => inferInstanceAs (Decidable (toHex a ≤ toHex b))

instance : Std.Total hexLe := ⟨fun a b => String.le_total (toHex a) (toHex b)⟩

instance : IsTrans Digest hexLe := ⟨fun _ _ _ hab hbc => String.le_trans hab hbc⟩

instance : Std.Antisymm hexLe := ⟨fun _ _ hab hba => toHex_injective (String.le_antisymm hab hba)⟩

theorem merkleRoot_perm {leaves leaves' : List Digest} (h : leaves.Perm leaves') :
    merkleRoot leaves = merkleRoot leaves' := by
  have hsorted : leaves.insertionSort hexLe = leaves'.insertionSort hexLe := by
    apply List.Perm.eq_of_pairwise' (List.pairwise_insertionSort hexLe leaves)
      (List.pairwise_insertionSort hexLe leaves')
    exact (List.perm_insertionSort hexLe leaves).trans
      (h.trans (List.perm_insertionSort hexLe leaves').symm)
  have hroot : ∀ l : List Digest, merkleRoot l =
      (Merkle.root (fun left right => sha256 (toHex left ++ toHex right))
        (l.insertionSort hexLe)).getD 0 := fun _ => rfl
  rw [hroot, hroot, hsorted]

theorem Lists.perm {κ ρ : Type} {t : Table κ ρ} {l l' : List (κ × ρ)} (h : Lists t l)
    (h' : Lists t l') : l.Perm l' := by
  have hperm : (l.map fun row => (⟨row.1, row.2⟩ : Sigma fun _ : κ => ρ)).Perm
      (l'.map fun row => ⟨row.1, row.2⟩) := Multiset.coe_eq_coe.mp (h.symm.trans h')
  have hback : ∀ m : List (κ × ρ),
      (m.map fun row => (⟨row.1, row.2⟩ : Sigma fun _ : κ => ρ)).map (fun e => (e.1, e.2)) = m := by
    intro m
    rw [List.map_map]
    exact List.map_id m
  rw [← hback l, ← hback l']
  exact hperm.map _

theorem merkleRoot_rowHashes {κ ρ : Type} {t : Table κ ρ} {l l' : List (κ × ρ)}
    (hash : κ → ρ → Digest) (h : Lists t l) (h' : Lists t l') :
    merkleRoot (rowHashes hash l) = merkleRoot (rowHashes hash l') :=
  merkleRoot_perm ((h.perm h').map _)

/-- The tables that go into the state root are the same. -/
structure Db.SameRoots (db db' : Db) : Prop where
  posts : db.social.posts = db'.social.posts
  follows : db.follows = db'.follows
  profiles : db.profiles = db'.profiles
  pools : db.pools = db'.pools

/-- Two nodes with the same tables compute the same roots in either way, whatever rows their
databases return first. -/
theorem stateRoots_of_same_tables {db db' : Db} {scan scan' : Scan} (hdb : db.SameRoots db')
    (h : scan.Of db) (h' : scan'.Of db') :
    computeStateRoot scan = computeStateRoot scan' ∧
      rootFromAccumulators (bootstrap scan) = rootFromAccumulators (bootstrap scan') := by
  obtain ⟨hposts, hfollows, hprofiles, hpools⟩ := hdb
  constructor
  · have hroots : scan.merkleRoots = scan'.merkleRoots := by
      rw [Scan.merkleRoots, Scan.merkleRoots,
        merkleRoot_rowHashes hashPostRow h.posts (hposts ▸ h'.posts),
        merkleRoot_rowHashes hashFollowRow h.follows (hfollows ▸ h'.follows),
        merkleRoot_rowHashes hashProfileRow h.profiles (hprofiles ▸ h'.profiles),
        merkleRoot_rowHashes hashPoolRow h.pools (hpools ▸ h'.pools)]
    rw [computeStateRoot, computeStateRoot, hroots]
  · rw [bootstrap_eq h, bootstrap_eq h', hposts, hfollows, hprofiles, hpools]

/-- Two follows, read in either order. -/
theorem stateRoots_of_two_follows :
    let read : List ((String × String) × Nat) → Scan := fun follows =>
      { posts := [], follows, profiles := [], pools := [] }
    computeStateRoot (read [(("GA", "GC"), 8), (("GA", "GB"), 7)]) =
        computeStateRoot (read [(("GA", "GB"), 7), (("GA", "GC"), 8)]) ∧
      rootFromAccumulators (bootstrap (read [(("GA", "GC"), 8), (("GA", "GB"), 7)])) =
        rootFromAccumulators (bootstrap (read [(("GA", "GB"), 7), (("GA", "GC"), 8)])) := by
  intro read
  let db : Db :=
    { Db.empty with follows := (Finmap.singleton ("GA", "GB") 7).insert ("GA", "GC") 8 }
  have hof : (read [(("GA", "GC"), 8), (("GA", "GB"), 7)]).Of db := ⟨rfl, by decide, rfl, rfl⟩
  have hof' : (read [(("GA", "GB"), 7), (("GA", "GC"), 8)]).Of db := ⟨rfl, by decide, rfl, rfl⟩
  exact stateRoots_of_same_tables ⟨rfl, rfl, rfl, rfl⟩ hof hof'

end Indexer
end Linkora
