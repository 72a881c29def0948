import Mathlib.Data.List.MinMax

/-!
# Gossip between indexer nodes

A node compares its latest state root with its peers' answers, fences itself when enough of
them differ, and replays from the first ledger where the roots part.  The answers that differ
are counted together, whatever they say, and the fence is lifted after any replay that ends.
-/

namespace Linkora
namespace Indexer

/-- A ledger and its state root: a peer's answer, and a row of `indexer_state`. -/
structure PeerStateRoot where
  ledger : Nat
  root : String
deriving DecidableEq, Repr

/-- One row for each ledger. -/
abbrev IndexerState := List PeerStateRoot

def getStateRoot (rows : IndexerState) (ledger : Nat) : Option PeerStateRoot :=
  rows.find? fun row => row.ledger == ledger

/-- The answer to `getLatestLedger`: a status that is not ok, an exception, or the sequence
number when the body has one. -/
inductive LatestLedger where
  | notOk
  | threw
  | ok (sequence : Option Nat)
deriving DecidableEq, Repr

/-- How `backfillStartupGap` ends, with the rows of `indexer_state` it leaves. -/
inductive Replay where
  | done (rows : IndexerState)
  | threw (rows : IndexerState)
deriving DecidableEq, Repr

/-- What one cycle of the loop meets: the rows of `indexer_state` (`none` when the query
throws), the answer of each peer in the order of `PEERS`, and what the reconciliation meets. -/
structure Cycle where
  rows : Option IndexerState
  answers : List (String × Option PeerStateRoot)
  searchThrows : Bool
  fetchPeerRoot : String → Nat → Option PeerStateRoot
  latestLedger : LatestLedger
  replay : Nat → Nat → Replay

namespace Gossip

/-- The binary search of `reconcile` for the first ledger where the roots differ. -/
def firstDivergingLedger (rows : IndexerState) (peer : Nat → Option PeerStateRoot) (lo hi : Nat) :
    Nat :=
  if lo < hi then
    let mid := (lo + hi) / 2
    match getStateRoot rows mid, peer mid with
    | some ours, some theirs =>
      if ours.root = theirs.root then firstDivergingLedger rows peer (mid + 1) hi
      else firstDivergingLedger rows peer lo mid
    | _, _ => firstDivergingLedger rows peer (mid + 1) hi
  else lo
termination_by hi - lo

/-- The fence of the node and its rows of `indexer_state`. -/
structure Node where
  fenced : Bool
  rows : IndexerState
deriving DecidableEq, Repr

/-- The range `reconcile` replays, when it comes to that. -/
def replayRange (c : Cycle) (rows : IndexerState) (peerUrl : String) (divergingLedger : Nat) :
    Option (Nat × Nat) :=
  if c.searchThrows then
    none
  else
    let minLedger := ((rows.argmin PeerStateRoot.ledger).map PeerStateRoot.ledger).getD
      divergingLedger
    let first := firstDivergingLedger rows (c.fetchPeerRoot peerUrl) minLedger divergingLedger
    match c.latestLedger with
    | .notOk => none
    | .threw => none
    | .ok sequence =>
      let latestLedger := sequence.getD divergingLedger
      if latestLedger < first then none else some (first, latestLedger)

def reconcile (c : Cycle) (node : Node) (peerUrl : String) (divergingLedger : Nat) : Node :=
  match replayRange c node.rows peerUrl divergingLedger with
  | none => node
  | some (first, latestLedger) =>
    match c.replay first latestLedger with
    | .done rows => { fenced := false, rows }
    | .threw rows => { node with rows }

/-- The peer of the last answer that differs, and how many do. -/
structure Tally where
  disagreements : Nat
  disagreeingPeerUrl : String
deriving DecidableEq, Repr

def Tally.count (localRoot : String) (t : Tally) (answer : String × Option PeerStateRoot) :
    Tally :=
  match answer.2 with
  | none => t
  | some peerState =>
    if peerState.root ≠ localRoot then
      { disagreements := t.disagreements + 1, disagreeingPeerUrl := answer.1 }
    else t

def tally (localRoot : String) (answers : List (String × Option PeerStateRoot)) : Tally :=
  answers.foldl (Tally.count localRoot) { disagreements := 0, disagreeingPeerUrl := "" }

/-- The node after a cycle, and whether the cycle fenced it. -/
structure Outcome where
  node : Node
  selfFenced : Bool
deriving DecidableEq, Repr

/-- The body of the loop once the latest row is read; `deps` says whether the node can
replay. -/
def compare (threshold : Nat) (deps : Bool) (c : Cycle) (rows : IndexerState)
    (latest : PeerStateRoot) : Outcome :=
  let t := tally latest.root c.answers
  if threshold ≤ t.disagreements then
    let node := { fenced := true, rows }
    { node := if deps then reconcile c node t.disagreeingPeerUrl latest.ledger else node,
      selfFenced := true }
  else
    let node := { fenced := false, rows }
    { node :=
        if 0 < t.disagreements ∧ deps then
          reconcile c node t.disagreeingPeerUrl latest.ledger
        else node,
      selfFenced := false }

/-- The latest row of `indexer_state`, when the query succeeds and there is one. -/
def latestRow (c : Cycle) : Option (IndexerState × PeerStateRoot) :=
  c.rows.bind fun rows => (rows.argmax PeerStateRoot.ledger).map fun latest => (rows, latest)

/-- One cycle of a node that is not fenced. -/
def cycle (threshold : Nat) (deps : Bool) (c : Cycle) : Outcome :=
  match latestRow c with
  | none => { node := { fenced := false, rows := c.rows.getD [] }, selfFenced := false }
  | some (rows, latest) => compare threshold deps c rows latest

/-- `startGossip`: the cycles a node goes through, up to the one that fences it. -/
def startGossip (threshold : Nat) (deps : Bool) (fenced : Bool) : List Cycle → List Cycle
  | [] => []
  | c :: rest =>
    if fenced then
      []
    else if (cycle threshold deps c).selfFenced then
      [c]
    else
      c :: startGossip threshold deps (cycle threshold deps c).node.fenced rest

/-- How many peers answered with the given root. -/
def reporters (root : String) (answers : List (String × Option PeerStateRoot)) : Nat :=
  answers.countP fun answer => answer.2.any fun peerState => peerState.root == root

/-- How many peers answered with a root other than the local one. -/
def dissenters (localRoot : String) (answers : List (String × Option PeerStateRoot)) : Nat :=
  answers.countP fun answer => answer.2.any fun peerState => peerState.root != localRoot

/-- A root other than the local one that at least `threshold` peers report. -/
def Quorum (threshold : Nat) (c : Cycle) (localRoot root : String) : Prop :=
  root ≠ localRoot ∧ threshold ≤ reporters root c.answers

/-- What a cycle may do: fence only against a quorum that agrees, and lift that fence only
with the root the quorum agreed on. -/
def FencesOnQuorum (threshold : Nat) (deps : Bool) (c : Cycle) : Prop :=
  ∀ rows latest, latestRow c = some (rows, latest) →
    (cycle threshold deps c).selfFenced = true →
      (∃ root, Quorum threshold c latest.root root) ∧
      ((cycle threshold deps c).node.fenced = false → ∃ root, Quorum threshold c latest.root root ∧
        ((getStateRoot (cycle threshold deps c).node.rows latest.ledger).map
          PeerStateRoot.root) = some root)

/-- The condition on what a cycle meets: too few peers differ, or enough of them report one
root, and a replay that ends leaves such a root at the compared ledger. -/
def Agreed (threshold : Nat) (deps : Bool) (c : Cycle) : Prop :=
  ∀ rows latest, latestRow c = some (rows, latest) →
    dissenters latest.root c.answers < threshold ∨
    (∃ root, Quorum threshold c latest.root root) ∧
      ∀ first latestLedger rows', deps = true →
        replayRange c rows (tally latest.root c.answers).disagreeingPeerUrl latest.ledger =
          some (first, latestLedger) →
        c.replay first latestLedger = .done rows' → ∃ root, Quorum threshold c latest.root root ∧
          (getStateRoot rows' latest.ledger).map PeerStateRoot.root = some root

theorem disagreements_foldl (localRoot : String) (answers : List (String × Option PeerStateRoot))
    (t : Tally) :
    (answers.foldl (Tally.count localRoot) t).disagreements =
      t.disagreements + dissenters localRoot answers := by
  induction answers generalizing t with
  | nil => rfl
  | cons answer rest ih =>
    rw [List.foldl_cons, ih, dissenters, dissenters, List.countP_cons]
    obtain ⟨url, peer⟩ := answer
    cases peer with
    | none => simp [Tally.count]
    | some peerState =>
      by_cases hroot : peerState.root = localRoot
      · simp [Tally.count, hroot]
      · simp only [Tally.count, ne_eq, hroot, not_false_eq_true, if_true, Option.any_some,
          bne_iff_ne]
        omega

/-- The loop over the peers counts the answers that differ from the local root. -/
theorem disagreements_tally (localRoot : String)
    (answers : List (String × Option PeerStateRoot)) :
    (tally localRoot answers).disagreements = dissenters localRoot answers := by
  rw [tally, disagreements_foldl]
  exact Nat.zero_add _

variable {threshold : Nat} {deps : Bool} {c : Cycle} {rows : IndexerState}
  {latest : PeerStateRoot}

theorem cycle_of_latestRow (h : latestRow c = some (rows, latest)) :
    cycle threshold deps c = compare threshold deps c rows latest := by
  rw [cycle, h]

theorem selfFenced_compare :
    (compare threshold deps c rows latest).selfFenced = true ↔
      threshold ≤ dissenters latest.root c.answers := by
  rw [← disagreements_tally, compare]
  by_cases h : threshold ≤ (tally latest.root c.answers).disagreements
  · simp only [h, if_true]
  · simp only [h, if_false, Bool.false_eq_true]

/-- The node a fencing cycle leaves. -/
theorem node_compare (h : threshold ≤ dissenters latest.root c.answers) :
    (compare threshold deps c rows latest).node =
      if deps then
        reconcile c { fenced := true, rows } (tally latest.root c.answers).disagreeingPeerUrl
          latest.ledger
      else { fenced := true, rows } := by
  rw [compare]
  simp only [disagreements_tally, h, if_true]

/-- A fenced node is unfenced by a replay that ends, and by nothing else. -/
theorem reconcile_unfenced {node : Node} {peerUrl : String} {ledger : Nat}
    (hf : node.fenced = true) :
    (reconcile c node peerUrl ledger).fenced = false ↔
      ∃ first latestLedger rows', replayRange c node.rows peerUrl ledger =
          some (first, latestLedger) ∧
        c.replay first latestLedger = .done rows' := by
  rw [reconcile]
  cases hrange : replayRange c node.rows peerUrl ledger with
  | none => simp [hf]
  | some range =>
    obtain ⟨first, latestLedger⟩ := range
    dsimp only
    cases hreplay : c.replay first latestLedger with
    | done rows' =>
      refine iff_of_true rfl ⟨first, latestLedger, rows', rfl, hreplay⟩
    | threw rows' =>
      refine iff_of_false (Bool.not_eq_false _ ▸ hf) ?_
      rintro ⟨first', latest', rows'', hsome, hdone⟩
      cases hsome
      rw [hreplay] at hdone
      cases hdone

theorem rows_reconcile {node : Node} {peerUrl : String} {ledger first latestLedger : Nat}
    {rows' : IndexerState}
    (hrange : replayRange c node.rows peerUrl ledger = some (first, latestLedger))
    (hreplay : c.replay first latestLedger = .done rows') :
    (reconcile c node peerUrl ledger).rows = rows' := by
  rw [reconcile, hrange]
  simp only [hreplay]

/-- A cycle keeps to the rule exactly under the condition. -/
theorem fencesOnQuorum_iff : FencesOnQuorum threshold deps c ↔ Agreed threshold deps c := by
  constructor
  · intro h rows latest hrow
    have hcycle : cycle threshold deps c = compare threshold deps c rows latest :=
      cycle_of_latestRow hrow
    by_cases hlt : dissenters latest.root c.answers < threshold
    · exact Or.inl hlt
    · have hle : threshold ≤ dissenters latest.root c.answers := by omega
      have hrule := h rows latest hrow
      rw [hcycle, selfFenced_compare, node_compare hle] at hrule
      refine Or.inr ⟨(hrule hle).1, ?_⟩
      intro first latestLedger rows' hdeps hrange hreplay
      have hroot := (hrule hle).2
      rw [if_pos hdeps, reconcile_unfenced rfl, rows_reconcile hrange hreplay] at hroot
      exact hroot ⟨first, latestLedger, rows', hrange, hreplay⟩
  · intro h rows latest hrow
    rw [cycle_of_latestRow hrow, selfFenced_compare]
    intro hle
    rcases h rows latest hrow with hlt | ⟨hquorum, hreplays⟩
    · omega
    · refine ⟨hquorum, ?_⟩
      rw [node_compare hle]
      intro hunfenced
      by_cases hdeps : deps = true
      · rw [if_pos hdeps] at hunfenced ⊢
        obtain ⟨first, latestLedger, rows', hrange, hreplay⟩ :=
          (reconcile_unfenced rfl).mp hunfenced
        rw [rows_reconcile hrange hreplay]
        exact hreplays first latestLedger rows' hdeps hrange hreplay
      · rw [if_neg hdeps] at hunfenced
        cases hunfenced

/-- In every run of the loop each cycle keeps to the rule exactly when each meets the
condition. -/
theorem startGossip_fences_on_quorum (threshold : Nat) (deps fenced : Bool)
    (cycles : List Cycle) :
    (∀ c ∈ startGossip threshold deps fenced cycles, FencesOnQuorum threshold deps c) ↔
      ∀ c ∈ startGossip threshold deps fenced cycles, Agreed threshold deps c := by
  constructor
  · intro h c hc
    exact fencesOnQuorum_iff.mp (h c hc)
  · intro h c hc
    exact fencesOnQuorum_iff.mpr (h c hc)

/-- Two peers that answer with two different wrong roots fence a node whose threshold is two,
and the replay that follows lifts the fence with the root the node had before. -/
theorem startGossip_fenced_without_quorum :
    let c : Cycle :=
      { rows := some [⟨7, "aa"⟩], answers := [("p", some ⟨7, "bb"⟩), ("q", some ⟨7, "cc"⟩)],
        searchThrows := false, fetchPeerRoot := fun _ _ => none, latestLedger := .ok (some 7),
        replay := fun _ _ => .done [⟨7, "aa"⟩] }
    ¬∀ x ∈ startGossip 2 true false [c], FencesOnQuorum 2 true x := by
  intro c h
  have hrow : latestRow c = some ([⟨7, "aa"⟩], ⟨7, "aa"⟩) := by decide
  have hle : 2 ≤ dissenters "aa" c.answers := by decide
  have hfenced : (cycle 2 true c).selfFenced = true := by
    rw [cycle_of_latestRow hrow]
    exact selfFenced_compare.mpr hle
  have hmem : c ∈ startGossip 2 true false [c] := by
    rw [startGossip, if_neg Bool.false_ne_true, if_pos hfenced]
    exact List.mem_singleton_self c
  obtain ⟨⟨root, -, hquorum⟩, -⟩ := h c hmem _ _ hrow hfenced
  have hcount : reporters root c.answers = (if "bb" = root then 1 else 0) +
      if "cc" = root then 1 else 0 := by
    simp [reporters, c, List.countP_cons, Nat.add_comm]
  rw [hcount] at hquorum
  by_cases hb : "bb" = root
  · have hc : "cc" ≠ root := by
      rw [← hb]
      decide
    rw [if_pos hb, if_neg hc] at hquorum
    omega
  · rw [if_neg hb] at hquorum
    split at hquorum <;> omega

end Gossip

end Indexer
end Linkora
