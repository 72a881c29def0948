import Linkora.Lib.Bisect
import Linkora.Indexer.Gossip

/-!
# Where a replay starts

`reconcile` looks for the first ledger where the roots differ by halving the range of stored
ledgers, and takes a ledger for which a root is missing for one where they agree.  Roots are
stored for the ledgers of committed batches only, so the search can meet such a ledger behind
the divergence, and then replays from too late a ledger.
-/

namespace Linkora
namespace Indexer
namespace Gossip

/-- Both nodes have a root for the ledger. -/
def Recorded (rows : IndexerState) (peer : Nat → Option PeerStateRoot) (ledger : Nat) : Prop :=
  (getStateRoot rows ledger).isSome = true ∧ (peer ledger).isSome = true

/-- What sends the search to earlier ledgers. -/
def differAt (rows : IndexerState) (peer : Nat → Option PeerStateRoot) (ledger : Nat) : Bool :=
  (getStateRoot rows ledger).any fun ours =>
    (peer ledger).any fun theirs => ours.root != theirs.root

theorem recorded_of_differAt {rows : IndexerState} {peer : Nat → Option PeerStateRoot}
    {ledger : Nat} (h : differAt rows peer ledger = true) : Recorded rows peer ledger := by
  simp only [differAt, Option.any_eq_true] at h
  obtain ⟨ours, hours, theirs, htheirs, -⟩ := h
  exact ⟨Option.isSome_iff_exists.mpr ⟨ours, hours⟩, Option.isSome_iff_exists.mpr ⟨theirs, htheirs⟩⟩

theorem firstDivergingLedger_eq (rows : IndexerState) (peer : Nat → Option PeerStateRoot)
    (lo hi : Nat) :
    firstDivergingLedger rows peer lo hi = Bisect.search (differAt rows peer) lo hi := by
  fun_induction firstDivergingLedger rows peer lo hi with
  | case1 lo hi hlt mid ours theirs htheirs hours heq ih =>
    rw [ih, Bisect.search_of_neg hlt]
    simp [differAt, hours, htheirs, heq, mid]
  | case2 lo hi hlt mid ours theirs htheirs hours hne ih =>
    rw [ih, Bisect.search_of_pos hlt]
    simp [differAt, hours, htheirs, hne, mid]
  | case3 lo hi hlt mid hnone ih =>
    rw [ih, Bisect.search_of_neg hlt]
    apply Bool.eq_false_iff.mpr
    intro hdiffer
    obtain ⟨hours, htheirs⟩ := recorded_of_differAt hdiffer
    obtain ⟨ours, hours⟩ := Option.isSome_iff_exists.mp hours
    obtain ⟨theirs, htheirs⟩ := Option.isSome_iff_exists.mp htheirs
    exact hnone ours theirs hours htheirs
  | case4 lo hi hlt => rw [Bisect.search_of_le (by omega)]

/-- Where the search of `reconcile` begins. -/
def oldestLedger (rows : IndexerState) (divergingLedger : Nat) : Nat :=
  ((rows.argmin PeerStateRoot.ledger).map PeerStateRoot.ledger).getD divergingLedger

theorem oldestLedger_le {rows : IndexerState} {ledger : Nat} (divergingLedger : Nat)
    (h : (getStateRoot rows ledger).isSome = true) :
    oldestLedger rows divergingLedger ≤ ledger := by
  obtain ⟨row, hrow⟩ := Option.isSome_iff_exists.mp h
  have hmem : row ∈ rows := List.mem_of_find?_eq_some hrow
  have hledger : row.ledger = ledger := by simpa using List.find?_some hrow
  unfold oldestLedger
  cases hmin : rows.argmin PeerStateRoot.ledger with
  | none =>
    rw [List.argmin_eq_none.mp hmin] at hmem
    cases hmem
  | some oldest =>
    show oldest.ledger ≤ ledger
    rw [← hledger]
    exact List.le_of_mem_argmin hmem hmin

/-- The roots differ first at the ledger, and from there on wherever both nodes have one. -/
structure PartsAt (rows : IndexerState) (peer : Nat → Option PeerStateRoot) (ledger : Nat) :
    Prop where
  differ : differAt rows peer ledger = true
  before : ∀ m, m < ledger → differAt rows peer m = false
  after : ∀ m, ledger ≤ m → Recorded rows peer m → differAt rows peer m = true

theorem PartsAt.differAt_iff {rows : IndexerState} {peer : Nat → Option PeerStateRoot}
    {ledger m : Nat} (h : PartsAt rows peer ledger) (hm : ledger ≤ m) :
    differAt rows peer m = true ↔ Recorded rows peer m :=
  ⟨recorded_of_differAt, h.after m hm⟩

theorem PartsAt.firstDivergingLedger_le_iff {rows : IndexerState}
    {peer : Nat → Option PeerStateRoot} {ledger lo hi : Nat} (h : PartsAt rows peer ledger)
    (hlo : lo ≤ ledger) (hhi : ledger ≤ hi) :
    firstDivergingLedger rows peer lo hi ≤ ledger ↔
      ∀ m ∈ Bisect.probes ledger lo hi, ledger ≤ m → Recorded rows peer m := by
  rw [firstDivergingLedger_eq, Bisect.search_le_iff hlo hhi h.before]
  constructor
  · intro hall m hm hle
    exact (h.differAt_iff hle).mp (hall m hm hle)
  · intro hall m hm hle
    exact (h.differAt_iff hle).mpr (hall m hm hle)

theorem PartsAt.le_firstDivergingLedger {rows : IndexerState}
    {peer : Nat → Option PeerStateRoot} {ledger lo hi : Nat} (h : PartsAt rows peer ledger)
    (hlo : lo ≤ ledger) (hhi : ledger ≤ hi) : ledger ≤ firstDivergingLedger rows peer lo hi := by
  rw [firstDivergingLedger_eq]
  exact Bisect.le_search_of_below hlo hhi h.before

/-- A replay never starts before the divergence, and it covers the divergence exactly if both
nodes have roots for the ledgers that the search looks at from there on. -/
theorem replay_covers_divergence_iff {c : Cycle} {rows : IndexerState} {peerUrl : String}
    {divergingLedger ledger first latest : Nat}
    (hparts : PartsAt rows (c.fetchPeerRoot peerUrl) ledger) (hle : ledger ≤ divergingLedger)
    (h : replayRange c rows peerUrl divergingLedger = some (first, latest)) :
    ledger ≤ first ∧ (first ≤ ledger ↔
      ∀ m ∈ Bisect.probes ledger (oldestLedger rows divergingLedger) divergingLedger, ledger ≤ m →
        Recorded rows (c.fetchPeerRoot peerUrl) m) := by
  have holdest := oldestLedger_le divergingLedger (recorded_of_differAt hparts.differ).1
  have hfirst : first = firstDivergingLedger rows (c.fetchPeerRoot peerUrl)
      (oldestLedger rows divergingLedger) divergingLedger := by
    unfold replayRange at h
    split at h
    · cases h
    · dsimp only at h
      split at h
      · cases h
      · cases h
      · split at h
        · cases h
        · exact ((Prod.mk.inj (Option.some.inj h)).1).symm
  rw [hfirst]
  exact ⟨hparts.le_firstDivergingLedger holdest hle,
    hparts.firstDivergingLedger_le_iff holdest hle⟩

/-- Two histories of three ledgers that part at the second one. -/
def ourHistory : IndexerState := [⟨1, "a"⟩, ⟨2, "b"⟩, ⟨3, "c"⟩]
def peerHistory : IndexerState := [⟨1, "a"⟩, ⟨2, "x"⟩, ⟨3, "y"⟩]

def partedCycle : Cycle where
  rows := some ourHistory
  answers := []
  searchThrows := false
  fetchPeerRoot _ := getStateRoot peerHistory
  latestLedger := .ok (some 9)
  replay _ _ := .done ourHistory

theorem ledger_of_ourHistory {m : Nat} (h : (getStateRoot ourHistory m).isSome = true) :
    m = 1 ∨ m = 2 ∨ m = 3 := by
  simp only [getStateRoot, ourHistory, List.find?_isSome, List.mem_cons, List.not_mem_nil,
    or_false, beq_iff_eq] at h
  obtain ⟨row, hrow, rfl⟩ := h
  rcases hrow with rfl | rfl | rfl
  · exact Or.inl rfl
  · exact Or.inr (Or.inl rfl)
  · exact Or.inr (Or.inr rfl)

theorem partsAt_two : PartsAt ourHistory (partedCycle.fetchPeerRoot "peer") 2 where
  differ := by decide
  before := by decide
  after := by
    intro m hm hrecorded
    rcases ledger_of_ourHistory hrecorded.1 with rfl | rfl | rfl
    · omega
    · decide
    · decide

/-- The search looks at the second ledger and ends there. -/
theorem replayRange_parted : replayRange partedCycle ourHistory "peer" 3 = some (2, 9) := by
  have hsearch : firstDivergingLedger ourHistory (getStateRoot peerHistory) 1 3 = 2 := by
    rw [firstDivergingLedger_eq, Bisect.search_of_pos (by decide) (by decide),
      Bisect.search_of_neg (by decide) (by decide), Bisect.search_of_le (by decide)]
  have holdest : ourHistory.argmin PeerStateRoot.ledger = some ⟨1, "a"⟩ := by decide
  simp only [replayRange, holdest, Option.map_some, Option.getD_some, partedCycle, hsearch]
  decide

theorem replay_covers_second_ledger : 2 ≤ 2 ∧ (2 ≤ 2 ↔
    ∀ m ∈ Bisect.probes 2 (oldestLedger ourHistory 3) 3, 2 ≤ m →
      Recorded ourHistory (partedCycle.fetchPeerRoot "peer") m) :=
  replay_covers_divergence_iff partsAt_two (by decide) replayRange_parted

end Gossip
end Indexer
end Linkora
