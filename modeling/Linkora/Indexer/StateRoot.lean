import Linkora.Lib.Merkle
import Linkora.Lib.Sha256
import Linkora.Indexer.Tables

/-!
# State roots

Two ways lead from the tables to a state root.  The full scan folds the row hashes of each
table in a Merkle tree, the incremental one keeps their exclusive or.  A digest stands for the
64 hexadecimal digits that the code writes it with.
-/

namespace Linkora
namespace Indexer

abbrev Digest := BitVec 256

/-- The digest of a text in UTF-8. -/
def sha256 (data : String) : Digest := Sha256.digest data.toUTF8.data.toList

def hexDigit (n : Nat) : Char := if n < 10 then Char.ofNat (48 + n) else Char.ofNat (87 + n)

/-- The digits of a digest, the highest first. -/
def hexDigits (d : Digest) : List Char :=
  (List.range 64).map fun i => hexDigit (d.toNat / 16 ^ (63 - i) % 16)

def toHex (d : Digest) : String := String.ofList (hexDigits d)

/-- A decimal number with at least the given number of digits. -/
def padStart (width n : Nat) : String :=
  let digits := Nat.toDigits 10 n
  String.ofList (List.replicate (width - digits.length) '0' ++ digits)

/-- The text of `to_timestamp(seconds)` in a session at UTC, by the Gregorian calendar with the
years counted from March. -/
def timestampText (seconds : Nat) : String :=
  let days := seconds / 86400 + 719468
  let era := days / 146097
  let dayOfEra := days % 146097
  let yearOfEra := (dayOfEra - dayOfEra / 1460 + dayOfEra / 36524 - dayOfEra / 146096) / 365
  let dayOfYear := dayOfEra - (365 * yearOfEra + yearOfEra / 4 - yearOfEra / 100)
  let month := (5 * dayOfYear + 2) / 153
  let day := dayOfYear - (153 * month + 2) / 5 + 1
  let year := 400 * era + yearOfEra + if month < 10 then 0 else 1
  padStart 4 year ++ "-" ++ padStart 2 (if month < 10 then month + 3 else month - 9) ++ "-" ++
    padStart 2 day ++ " " ++ padStart 2 (seconds / 3600 % 24) ++ ":" ++
    padStart 2 (seconds / 60 % 60) ++ ":" ++ padStart 2 (seconds % 60)

example : timestampText 951868799 = "2000-02-29 23:59:59" := by decide

def hashPostRow (id : Nat) (row : PostRow) : Digest :=
  sha256 (toString id ++ row.author ++ row.content ++ toString row.tipTotal ++
    toString row.likeCount ++ (row.deletedAt.map timestampText).getD "")

def hashFollowRow (key : String × String) (createdAt : Nat) : Digest :=
  sha256 (key.1 ++ key.2 ++ toString createdAt)

def hashProfileRow (address : String) (row : ProfileRow) : Digest :=
  sha256 (address ++ row.username ++ row.creatorToken ++ toString row.updatedLedger)

/-- The text of a JSONB array of strings. -/
def jsonText (admins : List String) : String :=
  "[" ++ ", ".intercalate (admins.map fun admin => "\"" ++ admin ++ "\"") ++ "]"

def hashPoolRow (poolId : String) (row : PoolRow) : Digest :=
  sha256 (poolId ++ row.token ++ toString row.balance ++ jsonText row.admins ++
    toString row.threshold ++ toString row.createdLedger ++ toString row.updatedLedger)

/-- `merkleRoot`: leaves and nodes are combined as texts. -/
def merkleRoot (leaves : List Digest) : Digest :=
  (Merkle.root (fun left right => sha256 (toHex left ++ toHex right))
    (leaves.insertionSort fun a b => toHex a ≤ toHex b)).getD 0

/-- The rows of the four tables as queries return them. -/
structure Scan where
  posts : List (Nat × PostRow)
  follows : List ((String × String) × Nat)
  profiles : List (String × ProfileRow)
  pools : List (String × PoolRow)

/-- `l` lists the rows of a table, in any order. -/
def Lists {κ ρ : Type} (t : Table κ ρ) (l : List (κ × ρ)) : Prop :=
  t.entries = (l.map fun row => (⟨row.1, row.2⟩ : Sigma fun _ : κ => ρ) : List _)

instance {κ ρ : Type} [DecidableEq κ] [DecidableEq ρ] (t : Table κ ρ) (l : List (κ × ρ)) :
    Decidable (Lists t l) :=
  inferInstanceAs (Decidable (t.entries = _))

structure Scan.Of (scan : Scan) (db : Db) : Prop where
  posts : Lists db.social.posts scan.posts
  follows : Lists db.follows scan.follows
  profiles : Lists db.profiles scan.profiles
  pools : Lists db.pools scan.pools

def rowHashes {κ ρ : Type} (hash : κ → ρ → Digest) (rows : List (κ × ρ)) : List Digest :=
  rows.map fun row => hash row.1 row.2

/-- One value for each of the four tables. -/
structure Accumulators where
  posts : Digest
  follows : Digest
  profiles : Digest
  pools : Digest
deriving DecidableEq

def Accumulators.text (acc : Accumulators) : String :=
  toHex acc.posts ++ toHex acc.follows ++ toHex acc.profiles ++ toHex acc.pools

/-- The roots of the four trees. -/
def Scan.merkleRoots (scan : Scan) : Accumulators where
  posts := merkleRoot (rowHashes hashPostRow scan.posts)
  follows := merkleRoot (rowHashes hashFollowRow scan.follows)
  profiles := merkleRoot (rowHashes hashProfileRow scan.profiles)
  pools := merkleRoot (rowHashes hashPoolRow scan.pools)

def computeStateRoot (scan : Scan) : Digest := sha256 scan.merkleRoots.text

def rootFromAccumulators (acc : Accumulators) : Digest := sha256 acc.text

/-- The loop over the rows in `bootstrap`. -/
def xorRows (hashes : List Digest) : Digest := hashes.foldl (fun acc h => acc ^^^ h) 0

def bootstrap (scan : Scan) : Accumulators where
  posts := xorRows (rowHashes hashPostRow scan.posts)
  follows := xorRows (rowHashes hashFollowRow scan.follows)
  profiles := xorRows (rowHashes hashProfileRow scan.profiles)
  pools := xorRows (rowHashes hashPoolRow scan.pools)

/-! ## Texts of digests -/

theorem length_hexDigits (d : Digest) : (hexDigits d).length = 64 := by
  rw [hexDigits, List.length_map, List.length_range]

theorem hexDigit_inj {m n : Nat} (hm : m < 16) (hn : n < 16) (h : hexDigit m = hexDigit n) :
    m = n := by
  have hall : ∀ m < 16, ∀ n < 16, hexDigit m = hexDigit n → m = n := by decide
  exact hall m hm n hn h

/-- A number below `16 ^ k` is known by its `k` hexadecimal digits. -/
theorem eq_of_digits {k x y : Nat} (hx : x < 16 ^ k) (hy : y < 16 ^ k)
    (h : ∀ i < k, x / 16 ^ i % 16 = y / 16 ^ i % 16) : x = y := by
  induction k generalizing x y with
  | zero => omega
  | succ k ih =>
    have hlow : x % 16 = y % 16 := by simpa using h 0 (by omega)
    have hhigh : x / 16 = y / 16 := by
      apply ih
      · rw [Nat.pow_succ] at hx
        omega
      · rw [Nat.pow_succ] at hy
        omega
      · intro i hi
        have hdigit := h (i + 1) (by omega)
        rwa [Nat.pow_succ', ← Nat.div_div_eq_div_mul, ← Nat.div_div_eq_div_mul] at hdigit
    omega

theorem hexDigits_injective : Function.Injective hexDigits := by
  intro a b h
  apply BitVec.eq_of_toNat_eq
  have hpow : (2 : Nat) ^ 256 = 16 ^ 64 := by decide
  apply eq_of_digits (k := 64) (hpow ▸ a.isLt) (hpow ▸ b.isLt)
  intro i hi
  have hget := congrArg (fun l : List Char => l[63 - i]?) h
  have hlt : 63 - i < 64 := by omega
  simp only [hexDigits, List.getElem?_map, List.getElem?_range hlt, Option.map_some,
    Option.some.injEq, show 63 - (63 - i) = i by omega] at hget
  exact hexDigit_inj (Nat.mod_lt _ (by omega)) (Nat.mod_lt _ (by omega)) hget

/-- Four digests can be read back from their texts in a row. -/
theorem text_injective : Function.Injective Accumulators.text := by
  intro a b h
  have hchars : hexDigits a.posts ++ hexDigits a.follows ++ hexDigits a.profiles ++
      hexDigits a.pools = hexDigits b.posts ++ hexDigits b.follows ++ hexDigits b.profiles ++
      hexDigits b.pools := by
    have hlist := congrArg String.toList h
    simpa only [Accumulators.text, toHex, String.toList_append, String.toList_ofList] using hlist
  have hlen : ∀ d d' : Digest, (hexDigits d).length = (hexDigits d').length := fun d d' => by
    rw [length_hexDigits, length_hexDigits]
  obtain ⟨hthree, hpools⟩ := List.append_inj' hchars (hlen _ _)
  obtain ⟨htwo, hprofiles⟩ := List.append_inj' hthree (hlen _ _)
  obtain ⟨hposts, hfollows⟩ := List.append_inj' htwo (hlen _ _)
  cases a
  cases b
  congr
  · exact hexDigits_injective hposts
  · exact hexDigits_injective hfollows
  · exact hexDigits_injective hprofiles
  · exact hexDigits_injective hpools

/-! ## The two roots -/

section

variable {κ ρ : Type} {t : Table κ ρ} {l l' : List (κ × ρ)}

theorem Lists.length_eq (h : Lists t l) : l.length = t.keys.card := by
  have hcard := congrArg Multiset.card h
  rw [Multiset.coe_card, List.length_map] at hcard
  rw [← hcard, ← Finset.card_val]
  exact (Multiset.card_map _ _).symm

/-- The loop over the rows computes the fingerprint of the table, whatever their order. -/
theorem xorRows_rowHashes [DecidableEq κ] (hash : κ → ρ → Digest) (h : Lists t l) :
    xorRows (rowHashes hash l) = Table.xorAll hash t := by
  rw [Table.xorAll, h, xorRows, rowHashes, Multiset.map_coe, Multiset.coe_fold_l, List.map_map]
  rfl

end

/-- The two ways agree on a table of at most one row. -/
theorem merkleRoot_eq_xorRows {hashes : List Digest} (h : hashes.length ≤ 1) :
    merkleRoot hashes = xorRows hashes := by
  match hashes, h with
  | [], _ =>
    rw [merkleRoot, List.insertionSort_nil, Merkle.root, if_neg (by decide)]
    rfl
  | [x], _ =>
    rw [merkleRoot, List.insertionSort_cons, List.insertionSort_nil, List.orderedInsert_nil,
      Merkle.root, List.length_singleton, if_neg (Nat.lt_irrefl 1), xorRows]
    exact (BitVec.zero_xor).symm

theorem merkleRoot_pair (x y : Digest) : merkleRoot [x, y] =
    if toHex x ≤ toHex y then sha256 (toHex x ++ toHex y) else sha256 (toHex y ++ toHex x) := by
  have hroot : ∀ a b : Digest, Merkle.root (fun left right => sha256 (toHex left ++ toHex right))
      [a, b] = some (sha256 (toHex a ++ toHex b)) := by
    intro a b
    have hlen : 1 < [a, b].length := Nat.lt_succ_self 1
    have habove : Merkle.above (fun left right => sha256 (toHex left ++ toHex right)) [a, b] =
        [sha256 (toHex a ++ toHex b)] := by
      simp [Merkle.above, Merkle.pad, Merkle.pairs]
    rw [Merkle.root_of_one_lt _ hlen, habove, Merkle.root, List.length_singleton,
      if_neg (Nat.lt_irrefl 1), List.head?_cons]
  have hsort : [x, y].insertionSort (fun a b => toHex a ≤ toHex b) =
      if toHex x ≤ toHex y then [x, y] else [y, x] := by
    rw [List.insertionSort_cons, List.insertionSort_cons, List.insertionSort_nil,
      List.orderedInsert_nil, List.orderedInsert_cons, List.orderedInsert_nil]
  rw [merkleRoot, hsort]
  split
  · rw [hroot, Option.getD_some]
  · rw [hroot, Option.getD_some]

/-- Each of the four tables has at most one row. -/
structure Db.AtMostOneRow (db : Db) : Prop where
  posts : db.social.posts.keys.card ≤ 1
  follows : db.follows.keys.card ≤ 1
  profiles : db.profiles.keys.card ≤ 1
  pools : db.pools.keys.card ≤ 1

/-- A coincidence of SHA-256: two texts with one digest, or a Merkle tree of at least two row
hashes whose root is their exclusive or. -/
def Scan.Coincidence (scan : Scan) : Prop :=
  (∃ text text', text ≠ text' ∧ sha256 text = sha256 text') ∨
  ∃ hashes ∈ [rowHashes hashPostRow scan.posts, rowHashes hashFollowRow scan.follows,
      rowHashes hashProfileRow scan.profiles, rowHashes hashPoolRow scan.pools],
    2 ≤ hashes.length ∧ merkleRoot hashes = xorRows hashes

section

variable {db : Db} {scan scan' : Scan}

theorem bootstrap_eq (h : scan.Of db) : bootstrap scan =
    { posts := Table.xorAll hashPostRow db.social.posts
      follows := Table.xorAll hashFollowRow db.follows
      profiles := Table.xorAll hashProfileRow db.profiles
      pools := Table.xorAll hashPoolRow db.pools } := by
  rw [bootstrap, xorRows_rowHashes _ h.posts, xorRows_rowHashes _ h.follows,
    xorRows_rowHashes _ h.profiles, xorRows_rowHashes _ h.pools]

theorem merkleRoots_eq_bootstrap (h : scan.Of db) (hsmall : db.AtMostOneRow) :
    scan.merkleRoots = bootstrap scan := by
  have hlen : ∀ {κ ρ : Type} {t : Table κ ρ} {l : List (κ × ρ)} (hash : κ → ρ → Digest),
      Lists t l → t.keys.card ≤ 1 → (rowHashes hash l).length ≤ 1 := by
    intro κ ρ t l hash hl ht
    rw [rowHashes, List.length_map, hl.length_eq]
    exact ht
  rw [Scan.merkleRoots, bootstrap, merkleRoot_eq_xorRows (hlen _ h.posts hsmall.posts),
    merkleRoot_eq_xorRows (hlen _ h.follows hsmall.follows),
    merkleRoot_eq_xorRows (hlen _ h.profiles hsmall.profiles),
    merkleRoot_eq_xorRows (hlen _ h.pools hsmall.pools)]

/-- Where the two ways agree on all four tables, a table of two rows is a coincidence. -/
theorem atMostOneRow_or_coincidence (h : scan.Of db) (heq : scan.merkleRoots = bootstrap scan) :
    db.AtMostOneRow ∨ scan.Coincidence := by
  have hposts : merkleRoot (rowHashes hashPostRow scan.posts) =
      xorRows (rowHashes hashPostRow scan.posts) := congrArg Accumulators.posts heq
  have hfollows : merkleRoot (rowHashes hashFollowRow scan.follows) =
      xorRows (rowHashes hashFollowRow scan.follows) := congrArg Accumulators.follows heq
  have hprofiles : merkleRoot (rowHashes hashProfileRow scan.profiles) =
      xorRows (rowHashes hashProfileRow scan.profiles) := congrArg Accumulators.profiles heq
  have hpools : merkleRoot (rowHashes hashPoolRow scan.pools) =
      xorRows (rowHashes hashPoolRow scan.pools) := congrArg Accumulators.pools heq
  by_cases hc : scan.Coincidence
  · exact Or.inr hc
  · left
    have hsmall : ∀ {κ ρ : Type} {t : Table κ ρ} {l : List (κ × ρ)} (hash : κ → ρ → Digest),
        Lists t l → rowHashes hash l ∈ [rowHashes hashPostRow scan.posts,
          rowHashes hashFollowRow scan.follows, rowHashes hashProfileRow scan.profiles,
          rowHashes hashPoolRow scan.pools] →
        merkleRoot (rowHashes hash l) = xorRows (rowHashes hash l) → t.keys.card ≤ 1 := by
      intro κ ρ t l hash hl hmem hroots
      by_contra hlt
      refine hc (Or.inr ⟨_, hmem, ?_, hroots⟩)
      rw [rowHashes, List.length_map, hl.length_eq]
      omega
    exact ⟨hsmall _ h.posts (by simp) hposts, hsmall _ h.follows (by simp) hfollows,
      hsmall _ h.profiles (by simp) hprofiles, hsmall _ h.pools (by simp) hpools⟩

/-- The root of the full scan and the root of the bootstrapped accumulators are equal when each
table has at most one row, and otherwise only by a coincidence of SHA-256. -/
theorem stateRoots_agree (db : Db) (scan scan' : Scan) (h : scan.Of db) (h' : scan'.Of db) :
    (db.AtMostOneRow → computeStateRoot scan = rootFromAccumulators (bootstrap scan')) ∧
      (computeStateRoot scan = rootFromAccumulators (bootstrap scan') →
        db.AtMostOneRow ∨ scan.Coincidence) := by
  have hboot : bootstrap scan' = bootstrap scan := by rw [bootstrap_eq h, bootstrap_eq h']
  rw [hboot]
  constructor
  · intro hsmall
    rw [computeStateRoot, merkleRoots_eq_bootstrap h hsmall, rootFromAccumulators]
  · intro heq
    by_cases htext : scan.merkleRoots.text = (bootstrap scan).text
    · exact atMostOneRow_or_coincidence h (text_injective htext)
    · exact Or.inr (Or.inl ⟨_, _, htext, heq⟩)

/-- The tables after one post. -/
theorem stateRoots_agree_of_one_post :
    let row : PostRow :=
      { author := "GA", content := "hi", tipTotal := 0, likeCount := 0, deletedAt := none }
    let db : Db :=
      { Db.empty with social := { Db.empty.social with posts := Finmap.singleton 1 row } }
    let scan : Scan := { posts := [(1, row)], follows := [], profiles := [], pools := [] }
    scan.Of db ∧ db.AtMostOneRow ∧
      computeStateRoot scan = rootFromAccumulators (bootstrap scan) := by
  intro row db scan
  have hof : scan.Of db := ⟨rfl, rfl, rfl, rfl⟩
  have hsmall : db.AtMostOneRow := ⟨by decide, by decide, by decide, by decide⟩
  exact ⟨hof, hsmall, (stateRoots_agree db scan scan hof hof).1 hsmall⟩

/-- Two follows are enough to tell the roots apart. -/
theorem stateRoots_differ_with_two_follows :
    ¬∀ (db : Db) (scan scan' : Scan), scan.Of db → scan'.Of db →
      computeStateRoot scan = rootFromAccumulators (bootstrap scan') := by
  intro h
  let db : Db :=
    { Db.empty with follows := (Finmap.singleton ("GA", "GB") 7).insert ("GA", "GC") 8 }
  let scan : Scan :=
    { posts := [], follows := [(("GA", "GC"), 8), (("GA", "GB"), 7)], profiles := [], pools := [] }
  have hfollows : db.follows.entries = (scan.follows.map fun row =>
      (⟨row.1, row.2⟩ : Sigma fun _ : String × String => Nat) : List _) := by
    decide
  have hof : scan.Of db := ⟨rfl, hfollows, rfl, rfl⟩
  have heq := h db scan scan hof hof
  have hempty : merkleRoot [] = 0 := merkleRoot_eq_xorRows (Nat.zero_le 1)
  have hrows : rowHashes hashFollowRow scan.follows =
      [hashFollowRow ("GA", "GC") 8, hashFollowRow ("GA", "GB") 7] := rfl
  have hsecond : hashFollowRow ("GA", "GC") 8 =
      0x139882caaeecba482df2925983ad79f43c609b2d5eafb91a54b7065d08af978a := by
    rw [hashFollowRow, sha256, Sha256.digest_eq_eager]
    decide +kernel
  have hfirst : hashFollowRow ("GA", "GB") 7 =
      0x5fc11c12989fd4e04b9f57e08b14d49facbbd7cb35ac92606c3e05d38109cc8a := by
    rw [hashFollowRow, sha256, Sha256.digest_eq_eager]
    decide +kernel
  have htree : merkleRoot (rowHashes hashFollowRow scan.follows) =
      0x90b63de36302e2277c094ba18057802d2213efabc954c5f1f7b64753e25a8661 := by
    rw [hrows, hsecond, hfirst, merkleRoot_pair, sha256, Sha256.digest_eq_eager]
    decide +kernel
  have hxor : xorRows (rowHashes hashFollowRow scan.follows) =
      0x4c599ed836736ea8666dc5b908b9ad6b90db4ce66b032b7a3889038e89a65b00 := by
    rw [hrows, hsecond, hfirst]
    decide
  have hroots : scan.merkleRoots =
      ⟨0, merkleRoot (rowHashes hashFollowRow scan.follows), 0, 0⟩ := by
    rw [Scan.merkleRoots, ← hempty]
    rfl
  have hacc : bootstrap scan = ⟨0, xorRows (rowHashes hashFollowRow scan.follows), 0, 0⟩ := rfl
  rw [computeStateRoot, rootFromAccumulators, hroots, hacc, htree, hxor, sha256, sha256,
    Sha256.digest_eq_eager] at heq
  revert heq
  decide +kernel

end

end Indexer
end Linkora
