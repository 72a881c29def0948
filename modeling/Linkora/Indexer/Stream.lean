import Mathlib.Data.List.Basic
import Linkora.Lib.Run

/-!
# The event stream with gap recovery

One step of the model is one `await` of the loop that can change what is durable: a page of
live events arrives, the coordinator fetches and commits a part of a gap, the page is
committed, or one of these fails.  The RPC answers as it likes; a range fetch returns every
event of its range.
-/

namespace Linkora
namespace Indexer

structure RawEvent where
  ledger : Nat
  id : String
deriving DecidableEq, Repr

inductive Alert where
  | backfillAlert (fromLedger toLedger : Nat)
  | gapTooLarge (fromLedger toLedger : Nat)
deriving DecidableEq, Repr

/-- The limits `detectGap` reads; no limit stands for `Infinity`. -/
structure GapConfig where
  maxDepthLedgers : Option Nat
  alertThreshold : Option Nat
  gapConfirmationLedgers : Nat
deriving DecidableEq, Repr

inductive GapResult where
  | noGap
  | stillCatchingUp (fromLedger toLedger : Nat)
  | gap (fromLedger toLedger : Nat) (exceedsMaxDepth : Bool)
deriving DecidableEq, Repr

/-- `detectGap`, with the alerts it emits. -/
def detectGap (config : GapConfig) (batchFirstLedger : Option Nat) (lastCursor latestLedger : Nat) :
    GapResult × List Alert :=
  match batchFirstLedger with
  | none => (.noGap, [])
  | some first =>
    if lastCursor = 0 then
      (.noGap, [])
    else if first ≤ lastCursor + 1 then
      (.noGap, [])
    else
      let fromLedger := lastCursor + 1
      let toLedger := first - 1
      let gapSize := toLedger - fromLedger + 1
      if 0 < config.gapConfirmationLedgers ∧
          latestLedger < toLedger + config.gapConfirmationLedgers then
        (.stillCatchingUp fromLedger toLedger, [])
      else
        let warnings := if config.alertThreshold.any (· ≤ gapSize) then
          [Alert.backfillAlert fromLedger toLedger] else []
        if config.maxDepthLedgers.any (· < gapSize) then
          (.gap fromLedger toLedger true, warnings ++ [.gapTooLarge fromLedger toLedger])
        else
          (.gap fromLedger toLedger false, warnings)

inductive BackfillStatus where
  | healthy
  | backfilling
  | circuitOpen
  | gapTooLarge
deriving DecidableEq, Repr

structure BackfillConfig where
  maxDepthLedgers : Nat
  alertThreshold : Nat
  batchSize : Nat
  circuitBreakerMaxFailures : Nat
deriving DecidableEq, Repr

structure BackfillCoordinator where
  status : BackfillStatus
  consecutiveFailures : Nat
  lastCommittedLedger : Option Nat
deriving DecidableEq, Repr

def BackfillCoordinator.new : BackfillCoordinator :=
  { status := .healthy, consecutiveFailures := 0, lastCommittedLedger := none }

/-- Where the loop stands.  `recovering` is the head of the loop in `recoverGap`; the page that
showed the gap waits. -/
inductive Phase where
  | polling
  | recovering (toLedger current : Nat) (page : List RawEvent) (latestLedger : Nat)
  | processing (page : List RawEvent) (latestLedger : Nat)
deriving DecidableEq, Repr

/-- `durable` is the stored cursor, `committed` the events of the batches that were committed. -/
structure Stream where
  phase : Phase
  aborted : Bool
  cursor : Nat
  startLedger : Nat
  pagingCursor : Option String
  coordinator : BackfillCoordinator
  durable : Nat
  committed : List RawEvent
  alerts : List Alert
deriving DecidableEq, Repr

/-- The settings of a run: `chain` is every event of the contract, in the order of the chain. -/
structure StreamConfig where
  gap : GapConfig
  backfill : BackfillConfig
  chain : List RawEvent
deriving DecidableEq, Repr

def MAX_EVENTS_PER_PAGE : Nat := 100

/-- `fetchRange` when nothing cuts it short. -/
def fetchRange (chain : List RawEvent) (fromLedger toLedger : Nat) : List RawEvent :=
  chain.filter fun e => fromLedger ≤ e.ledger ∧ e.ledger ≤ toLedger

/-- The cursor `processBatch` returns. -/
def highestLedger (events : List RawEvent) : Nat := events.foldl (fun m e => max m e.ledger) 0

/-- What can happen next.  The flag says whether the abort signal has fired by then. -/
inductive StreamLabel where
  | fetchFailed
  | fetched (page : List RawEvent) (latestLedger : Nat) (aborted : Bool)
  | rangeFailed
  | rangeAborted
  | rangeCommitted (aborted : Bool)
  | batchFailed
  | batchCommitted (aborted : Bool)
  | restarted
deriving DecidableEq, Repr

namespace Stream

/-- The start of `streamEvents` from a stored cursor. -/
def start (durable : Nat) : Stream :=
  { phase := .polling, aborted := false, cursor := durable, startLedger := durable + 1,
    pagingCursor := none, coordinator := .new, durable, committed := [], alerts := [] }

/-- A committed `processBatch`; the stored cursor never moves back. -/
def commit (s : Stream) (events : List RawEvent) : Stream :=
  { s with durable := max s.durable (highestLedger events), committed := s.committed ++ events }

/-- After `recoverGap` returned: take over what the coordinator committed and go on with the
page. -/
def resume (s : Stream) (page : List RawEvent) (latestLedger : Nat) : Stream :=
  { s with
    phase := .processing page latestLedger
    cursor := match s.coordinator.lastCommittedLedger with
      | none => s.cursor
      | some committed => max s.cursor committed }

/-- `recoverGap` up to its loop.  A gap always has at least one ledger, so the loop is
entered. -/
def recoverGap (config : BackfillConfig) (s : Stream) (fromLedger toLedger : Nat)
    (page : List RawEvent) (latestLedger : Nat) : Stream :=
  if s.coordinator.status = .circuitOpen then
    { s with phase := .polling }
  else
    let gapSize := toLedger - fromLedger + 1
    if config.maxDepthLedgers < gapSize then
      let alerted := { s with
        coordinator := { s.coordinator with status := .gapTooLarge }
        alerts := s.alerts ++ [Alert.gapTooLarge fromLedger toLedger] }
      alerted.resume page latestLedger
    else
      { s with
        phase := .recovering toLedger fromLedger page latestLedger
        coordinator := { s.coordinator with status := .backfilling, lastCommittedLedger := none }
        alerts := s.alerts ++ if config.alertThreshold ≤ gapSize then
          [Alert.backfillAlert fromLedger toLedger] else [] }

/-- A page has arrived. -/
def onPage (config : StreamConfig) (s : Stream) (page : List RawEvent) (latestLedger : Nat) :
    Stream :=
  let (gap, alerts) := detectGap config.gap (page.head?.map RawEvent.ledger) s.cursor latestLedger
  let s' := { s with alerts := s.alerts ++ alerts }
  match gap with
  | .gap fromLedger toLedger false =>
    s'.recoverGap config.backfill fromLedger toLedger page latestLedger
  | _ => { s' with phase := .processing page latestLedger }

/-- The last ledger of the part of a gap that starts at `current`. -/
def batchTo (config : BackfillConfig) (toLedger current : Nat) : Nat :=
  min (current + config.batchSize - 1) toLedger

/-- The ledger up to which a part of a gap is settled once its events are committed. -/
def settledTo (config : StreamConfig) (toLedger current : Nat) : Nat :=
  let last := batchTo config.backfill toLedger current
  let events := fetchRange config.chain current last
  if events = [] then last else highestLedger events

/-- One iteration of the loop in `recoverGap` that commits. -/
def commitRange (config : StreamConfig) (s : Stream) (toLedger current : Nat)
    (page : List RawEvent) (latestLedger : Nat) (aborted : Bool) : Stream :=
  let events := fetchRange config.chain current (batchTo config.backfill toLedger current)
  let settled := settledTo config toLedger current
  let s' := { s.commit events with
    aborted := aborted
    coordinator := { s.coordinator with
      consecutiveFailures := 0, lastCommittedLedger := some settled } }
  if settled + 1 ≤ toLedger ∧ aborted = false then
    { s' with phase := .recovering toLedger (settled + 1) page latestLedger }
  else if aborted then
    s'.resume page latestLedger
  else
    resume { s' with coordinator := { s'.coordinator with status := .healthy } } page latestLedger

/-- One iteration of that loop that fails; enough failures in a row open the coordinator's
circuit and make `recoverGap` throw. -/
def failRange (config : StreamConfig) (s : Stream) : Stream :=
  let failures := s.coordinator.consecutiveFailures + 1
  if config.backfill.circuitBreakerMaxFailures ≤ failures then
    { s with
      phase := .polling
      coordinator := { s.coordinator with
        status := .circuitOpen, consecutiveFailures := failures } }
  else
    { s with coordinator := { s.coordinator with consecutiveFailures := failures } }

/-- The rest of an iteration once the page is committed. -/
def commitPage (s : Stream) (page : List RawEvent) (latestLedger : Nat) : Stream :=
  let s' := if page = [] then s else { s.commit page with cursor := highestLedger page }
  if page.length = MAX_EVENTS_PER_PAGE then
    { s' with phase := .polling, pagingCursor := page.getLast?.map RawEvent.id }
  else
    { s' with
      phase := .polling, pagingCursor := none, startLedger := max latestLedger (s'.cursor + 1) }

def step (config : StreamConfig) (s : Stream) : StreamLabel → Option Stream
  | .fetchFailed =>
    if s.phase = .polling ∧ s.aborted = false then some s else none
  | .fetched page latestLedger aborted =>
    if s.phase = .polling ∧ s.aborted = false then
      if aborted then some { s with aborted := true } else some (s.onPage config page latestLedger)
    else none
  | .rangeFailed =>
    match s.phase with
    | .recovering _ _ _ _ => some (s.failRange config)
    | _ => none
  | .rangeAborted =>
    match s.phase with
    | .recovering _ _ page latestLedger =>
      some (resume { s with aborted := true } page latestLedger)
    | _ => none
  | .rangeCommitted aborted =>
    match s.phase with
    | .recovering toLedger current page latestLedger =>
      some (s.commitRange config toLedger current page latestLedger aborted)
    | _ => none
  | .batchFailed =>
    match s.phase with
    | .processing _ _ => some { s with phase := .polling }
    | _ => none
  | .batchCommitted aborted =>
    match s.phase with
    | .processing page latestLedger =>
      some (commitPage { s with aborted := s.aborted || aborted } page latestLedger)
    | _ => none
  | .restarted => some { start s.durable with committed := s.committed, alerts := s.alerts }

/-- Every event of a ledger was committed, or an alert says that the ledger was given up. -/
def Covered (config : StreamConfig) (s : Stream) (l : Nat) : Prop :=
  (∀ e ∈ config.chain, e.ledger = l → e ∈ s.committed) ∨
    ∃ fromLedger toLedger, Alert.gapTooLarge fromLedger toLedger ∈ s.alerts ∧
      fromLedger ≤ l ∧ l ≤ toLedger

/-- Every ledger after the run's first stored cursor, up to `n`, is covered. -/
def CoveredUpTo (config : StreamConfig) (c₀ : Nat) (s : Stream) (n : Nat) : Prop :=
  ∀ l, c₀ < l → l ≤ n → s.Covered config l

/-- No ledger that the stored cursor has passed is skipped in silence. -/
def NoLedgerSkipped (config : StreamConfig) (c₀ : Nat) (s : Stream) : Prop :=
  s.CoveredUpTo config c₀ s.durable

/-- A live page holds every event of every ledger between its first and its last one. -/
def PageComplete (chain page : List RawEvent) : Prop :=
  ∀ first ∈ page.head?.map RawEvent.ledger, ∀ e ∈ chain, first ≤ e.ledger →
    e.ledger ≤ highestLedger page → e ∈ page

/-- The condition on a step: there is a cursor to compare a page with, the page is complete and
its gap, if any, is confirmed, and the abort does not cut the recovery of a gap short. -/
def Careful (config : StreamConfig) (s : Stream) : StreamLabel → Prop
  | .fetched page latestLedger aborted => aborted = false →
    0 < s.cursor ∧ PageComplete config.chain page ∧
      ∀ fromLedger toLedger,
        (detectGap config.gap (page.head?.map RawEvent.ledger) s.cursor latestLedger).1 ≠
          .stillCatchingUp fromLedger toLedger
  | .rangeAborted => False
  | .rangeCommitted aborted => aborted = true →
    ∀ toLedger current page latestLedger,
      s.phase = .recovering toLedger current page latestLedger →
        toLedger ≤ settledTo config toLedger current
  | _ => True

/-- What the loop still relies on about the page it holds. -/
def PhaseSound (config : StreamConfig) (c₀ : Nat) (s : Stream) : Prop :=
  match s.phase with
  | .polling => True
  | .recovering toLedger current page _ =>
    PageComplete config.chain page ∧ s.CoveredUpTo config c₀ (current - 1) ∧ 0 < current ∧
      ∀ first ∈ page.head?.map RawEvent.ledger, first = toLedger + 1
  | .processing page _ =>
    PageComplete config.chain page ∧
      ∀ first ∈ page.head?.map RawEvent.ledger, s.CoveredUpTo config c₀ (first - 1)

structure Sound (config : StreamConfig) (c₀ : Nat) (s : Stream) : Prop where
  durable : s.CoveredUpTo config c₀ s.durable
  cursor : s.CoveredUpTo config c₀ s.cursor
  coordinator : ∀ n ∈ s.coordinator.lastCommittedLedger, s.CoveredUpTo config c₀ n
  phase : s.PhaseSound config c₀

section

variable {config : StreamConfig} {c₀ : Nat} {s s' : Stream} {n m : Nat}

theorem CoveredUpTo.mono {t : Stream} (h : s.CoveredUpTo config c₀ n)
    (hc : s.committed ⊆ t.committed) (ha : s.alerts ⊆ t.alerts) : t.CoveredUpTo config c₀ n := by
  intro l hl hn
  rcases h l hl hn with hall | ⟨a, b, hmem, hin⟩
  · exact Or.inl fun e he hel => hc (hall e he hel)
  · exact Or.inr ⟨a, b, ha hmem, hin⟩

theorem CoveredUpTo.of_le (h : s.CoveredUpTo config c₀ n) (hm : m ≤ n) :
    s.CoveredUpTo config c₀ m :=
  fun l hl hlm => h l hl (Nat.le_trans hlm hm)

theorem CoveredUpTo.max (h : s.CoveredUpTo config c₀ n) (h' : s.CoveredUpTo config c₀ m) :
    s.CoveredUpTo config c₀ (max n m) := by
  intro l hl hlm
  rcases Nat.le_total n m with hle | hle
  · exact h' l hl (by omega)
  · exact h l hl (by omega)

/-- What is covered up to `n`, and from there on up to `m`, is covered up to `m`. -/
theorem CoveredUpTo.extend (h : s.CoveredUpTo config c₀ n)
    (h' : ∀ l, n < l → l ≤ m → s.Covered config l) : s.CoveredUpTo config c₀ m := by
  intro l hl hlm
  by_cases hln : l ≤ n
  · exact h l hl hln
  · exact h' l (by omega) hlm

theorem highestLedger_le_iff {events : List RawEvent} {k : Nat} :
    highestLedger events ≤ k ↔ ∀ e ∈ events, e.ledger ≤ k := by
  have hgen : ∀ (events : List RawEvent) (m : Nat),
      events.foldl (fun m e => Nat.max m e.ledger) m ≤ k ↔ m ≤ k ∧ ∀ e ∈ events, e.ledger ≤ k := by
    intro events
    induction events with
    | nil => simp
    | cons x rest ih =>
      intro m
      rw [List.foldl_cons, ih, List.forall_mem_cons, ← and_assoc]
      exact and_congr_left fun _ => Nat.max_le
  exact (hgen events 0).trans ⟨fun h => h.2, fun h => ⟨Nat.zero_le k, h⟩⟩

/-- The part of a gap that was fetched is settled by committing its events. -/
theorem covered_settledTo (toLedger current : Nat)
    (hc : ∀ e ∈ fetchRange config.chain current (batchTo config.backfill toLedger current),
      e ∈ s.committed) {l : Nat} (hl : current ≤ l) (hle : l ≤ settledTo config toLedger current) :
    s.Covered config l := by
  left
  intro e he hel
  apply hc
  rw [fetchRange, List.mem_filter]
  refine ⟨he, decide_eq_true ⟨by omega, ?_⟩⟩
  rw [settledTo] at hle
  by_cases hempty : fetchRange config.chain current (batchTo config.backfill toLedger current) = []
  · rw [if_pos hempty] at hle
    omega
  · rw [if_neg hempty] at hle
    have hbound : highestLedger (fetchRange config.chain current
        (batchTo config.backfill toLedger current)) ≤ batchTo config.backfill toLedger current := by
      rw [highestLedger_le_iff]
      intro x hx
      rw [fetchRange, List.mem_filter] at hx
      exact (of_decide_eq_true hx.2).2
    omega

/-- `settledTo` is not below what the events of the part reach. -/
theorem highestLedger_le_settledTo (config : StreamConfig) (toLedger current : Nat) :
    highestLedger (fetchRange config.chain current (batchTo config.backfill toLedger current)) ≤
      settledTo config toLedger current := by
  rw [settledTo]
  by_cases hempty : fetchRange config.chain current (batchTo config.backfill toLedger current) = []
  · rw [if_pos hempty, hempty]
    exact Nat.zero_le _
  · exact Nat.le_of_eq (if_neg hempty).symm

/-- The four answers of `detectGap` about a page that is not empty. -/
theorem detectGap_cases (gap : GapConfig) (first latestLedger : Nat) {cursor : Nat}
    (hcursor : 0 < cursor) :
    (detectGap gap (some first) cursor latestLedger = (.noGap, []) ∧ first ≤ cursor + 1) ∨
    (detectGap gap (some first) cursor latestLedger).1 =
      .stillCatchingUp (cursor + 1) (first - 1) ∨
    cursor + 1 < first ∧ ∃ alerts,
      (detectGap gap (some first) cursor latestLedger =
          (.gap (cursor + 1) (first - 1) true, alerts) ∧
        Alert.gapTooLarge (cursor + 1) (first - 1) ∈ alerts) ∨
      detectGap gap (some first) cursor latestLedger =
        (.gap (cursor + 1) (first - 1) false, alerts) := by
  rw [detectGap]
  simp only [if_neg (Nat.pos_iff_ne_zero.mp hcursor)]
  by_cases hnear : first ≤ cursor + 1
  · rw [if_pos hnear]
    exact Or.inl ⟨rfl, hnear⟩
  · rw [if_neg hnear]
    right
    by_cases hlag : 0 < gap.gapConfirmationLedgers ∧
        latestLedger < first - 1 + gap.gapConfirmationLedgers
    · rw [if_pos hlag]
      exact Or.inl rfl
    · rw [if_neg hlag]
      refine Or.inr ⟨by omega, ?_⟩
      by_cases hdeep : gap.maxDepthLedgers.any (· < first - 1 - (cursor + 1) + 1) = true
      · rw [if_pos hdeep]
        exact ⟨_, Or.inl ⟨rfl, List.mem_append_right _ (List.mem_singleton_self _)⟩⟩
      · rw [if_neg hdeep]
        exact ⟨_, Or.inr rfl⟩

/-- Going on with the page after a recovery that covered the ledgers before it. -/
theorem Sound.resume {page : List RawEvent} {latestLedger : Nat}
    (hd : s.CoveredUpTo config c₀ s.durable) (hcur : s.CoveredUpTo config c₀ s.cursor)
    (hco : ∀ n ∈ s.coordinator.lastCommittedLedger, s.CoveredUpTo config c₀ n)
    (hpage : PageComplete config.chain page)
    (hfirst : ∀ first ∈ page.head?.map RawEvent.ledger, s.CoveredUpTo config c₀ (first - 1)) :
    Sound config c₀ (s.resume page latestLedger) := by
  refine ⟨hd, ?_, hco, ⟨hpage, hfirst⟩⟩
  show s.CoveredUpTo config c₀ (match s.coordinator.lastCommittedLedger with
      | none => s.cursor
      | some committed => Nat.max s.cursor committed)
  cases hlast : s.coordinator.lastCommittedLedger with
  | none => exact hcur
  | some committed => exact hcur.max (hco committed hlast)

/-- A gap that the coordinator takes on, gives up with an alert, or refuses. -/
theorem Sound.recoverGap {fromLedger toLedger latestLedger : Nat} {page : List RawEvent}
    (h : Sound config c₀ s) (hpage : PageComplete config.chain page)
    (hfrom : fromLedger = s.cursor + 1)
    (hfirst : ∀ first ∈ page.head?.map RawEvent.ledger, first = toLedger + 1) :
    Sound config c₀ (s.recoverGap config.backfill fromLedger toLedger page latestLedger) := by
  rw [Stream.recoverGap]
  split
  · exact ⟨h.durable, h.cursor, h.coordinator, trivial⟩
  · have halerts : ∀ more : List Alert, s.alerts ⊆ s.alerts ++ more := fun more =>
      List.subset_append_left _ _
    dsimp only
    split
    · apply Sound.resume
      · exact h.durable.mono (List.Subset.refl _) (halerts _)
      · exact h.cursor.mono (List.Subset.refl _) (halerts _)
      · exact fun n hn => (h.coordinator n hn).mono (List.Subset.refl _) (halerts _)
      · exact hpage
      · intro first hf
        have hcur := h.cursor.mono (t := { s with
          coordinator := { s.coordinator with status := .gapTooLarge }
          alerts := s.alerts ++ [Alert.gapTooLarge fromLedger toLedger] })
          (List.Subset.refl _) (halerts _)
        apply hcur.extend
        intro l hl hle
        have := hfirst first hf
        exact Or.inr ⟨fromLedger, toLedger,
          List.mem_append_right _ (List.mem_singleton_self _), by omega, by omega⟩
    · refine ⟨h.durable.mono (List.Subset.refl _) (halerts _),
        h.cursor.mono (List.Subset.refl _) (halerts _), fun n hn => ?_, ⟨hpage, ?_, ?_, hfirst⟩⟩
      · cases hn
      · have hcur := h.cursor.mono (t := { s with alerts := s.alerts ++
          if config.backfill.alertThreshold ≤ toLedger - fromLedger + 1 then
            [Alert.backfillAlert fromLedger toLedger] else [] }) (List.Subset.refl _) (halerts _)
        exact hcur.of_le (by omega)
      · omega

theorem Sound.withAlerts (h : Sound config c₀ s) (more : List Alert) :
    Sound config c₀ { s with phase := .polling, alerts := s.alerts ++ more } :=
  ⟨h.durable.mono (List.Subset.refl _) (List.subset_append_left _ _),
    h.cursor.mono (List.Subset.refl _) (List.subset_append_left _ _),
    fun n hn => (h.coordinator n hn).mono (List.Subset.refl _) (List.subset_append_left _ _),
    trivial⟩

/-- A page whose earlier ledgers are covered can be processed. -/
theorem Sound.toProcessing {page : List RawEvent} {latestLedger : Nat} (h : Sound config c₀ s)
    (hpage : PageComplete config.chain page)
    (hfirst : ∀ first ∈ page.head?.map RawEvent.ledger, s.CoveredUpTo config c₀ (first - 1)) :
    Sound config c₀ { s with phase := .processing page latestLedger } :=
  ⟨h.durable, h.cursor, h.coordinator, hpage, hfirst⟩

theorem Sound.onPage {page : List RawEvent} {latestLedger : Nat} (h : Sound config c₀ s)
    (hphase : s.phase = .polling)
    (hcareful : s.Careful config (.fetched page latestLedger false)) :
    Sound config c₀ (s.onPage config page latestLedger) := by
  obtain ⟨hcursor, hpage, hconfirmed⟩ := hcareful rfl
  have hbase : ∀ more, { s with alerts := s.alerts ++ more } =
      { s with phase := .polling, alerts := s.alerts ++ more } := fun more => by rw [← hphase]
  rw [Stream.onPage]
  cases hhead : page.head?.map RawEvent.ledger with
  | none =>
    have hnone : ∀ first ∈ page.head?.map RawEvent.ledger,
        ({ s with phase := .polling, alerts := s.alerts ++ [] } : Stream).CoveredUpTo config c₀
          (first - 1) := by
      rw [hhead]
      exact fun first hf => absurd hf (Option.not_mem_none first)
    exact (h.withAlerts []).toProcessing hpage hnone
  | some first =>
    rw [hhead] at hconfirmed
    have hsome : ∀ {P : Nat → Prop}, P first → ∀ f ∈ page.head?.map RawEvent.ledger, P f := by
      intro P hP f hf
      rw [hhead] at hf
      exact Option.some.inj hf ▸ hP
    rcases detectGap_cases config.gap first latestLedger hcursor with
      ⟨hgap, hnear⟩ | hlag | ⟨hfar, alerts, ⟨hgap, halert⟩ | hgap⟩
    · rw [hgap]
      refine (h.withAlerts []).toProcessing hpage (hsome ?_)
      exact (h.withAlerts []).cursor.of_le (by show first - 1 ≤ s.cursor; omega)
    · exact absurd hlag (hconfirmed _ _)
    · rw [hgap]
      refine (h.withAlerts alerts).toProcessing hpage (hsome ?_)
      apply (h.withAlerts alerts).cursor.extend
      intro l hl hle
      exact Or.inr ⟨s.cursor + 1, first - 1, List.mem_append_right _ halert, hl, hle⟩
    · rw [hgap]
      dsimp only
      rw [hbase]
      exact (h.withAlerts alerts).recoverGap hpage rfl (hsome (by omega))

theorem Sound.commitRange {toLedger current latestLedger : Nat} {page : List RawEvent}
    {aborted : Bool} (h : Sound config c₀ s)
    (hphase : s.phase = .recovering toLedger current page latestLedger)
    (hcareful : aborted = true → toLedger ≤ settledTo config toLedger current) :
    Sound config c₀ (s.commitRange config toLedger current page latestLedger aborted) := by
  have hsound := h.phase
  rw [PhaseSound, hphase] at hsound
  obtain ⟨hpage, hcurrent, hpos, hfirst⟩ := hsound
  rw [Stream.commitRange]
  generalize hnext : ({ s.commit (fetchRange config.chain current
      (batchTo config.backfill toLedger current)) with
    aborted := aborted
    coordinator := { s.coordinator with
      consecutiveFailures := 0
      lastCommittedLedger := some (settledTo config toLedger current) } } : Stream) = next
  have hcommitted : next.committed = s.committed ++ fetchRange config.chain current
      (batchTo config.backfill toLedger current) := by rw [← hnext]; rfl
  have halerts : next.alerts = s.alerts := by rw [← hnext]; rfl
  have hdurable : next.durable = Nat.max s.durable (highestLedger (fetchRange config.chain current
      (batchTo config.backfill toLedger current))) := by rw [← hnext]; rfl
  have hcursor : next.cursor = s.cursor := by rw [← hnext]; rfl
  have hlast : next.coordinator.lastCommittedLedger = some (settledTo config toLedger current) := by
    rw [← hnext]
  have hkeep : ∀ {n}, s.CoveredUpTo config c₀ n → next.CoveredUpTo config c₀ n := fun hn => by
    apply hn.mono
    · rw [hcommitted]
      exact List.subset_append_left _ _
    · rw [halerts]
      exact List.Subset.refl _
  have hsettled : next.CoveredUpTo config c₀ (settledTo config toLedger current) := by
    apply (hkeep hcurrent).extend
    intro l hl hle
    apply covered_settledTo toLedger current _ (by omega) hle
    intro e he
    rw [hcommitted]
    exact List.mem_append_right _ he
  have hd : next.CoveredUpTo config c₀ next.durable := by
    rw [hdurable]
    exact (hkeep h.durable).max (hsettled.of_le (highestLedger_le_settledTo _ _ _))
  have hcur : next.CoveredUpTo config c₀ next.cursor := by
    rw [hcursor]
    exact hkeep h.cursor
  have hco : ∀ n ∈ next.coordinator.lastCommittedLedger, next.CoveredUpTo config c₀ n := by
    intro n hn
    rw [hlast] at hn
    exact Option.some.inj hn ▸ hsettled
  have hreach : toLedger ≤ settledTo config toLedger current →
      ∀ first ∈ page.head?.map RawEvent.ledger, next.CoveredUpTo config c₀ (first - 1) := by
    intro hle first hf
    have := hfirst first hf
    exact hsettled.of_le (by omega)
  by_cases hgo : settledTo config toLedger current + 1 ≤ toLedger ∧ aborted = false
  · rw [if_pos hgo]
    exact ⟨hd, hcur, hco, hpage, hsettled, Nat.succ_pos _, hfirst⟩
  · rw [if_neg hgo]
    cases haborted : aborted with
    | true =>
      rw [if_pos rfl]
      exact Sound.resume hd hcur hco hpage (hreach (hcareful haborted))
    | false =>
      rw [if_neg Bool.false_ne_true]
      have hle : toLedger ≤ settledTo config toLedger current := by
        by_contra hlt
        exact hgo ⟨by omega, haborted⟩
      exact Sound.resume (s := { next with coordinator := { next.coordinator with
        status := .healthy } }) hd hcur hco hpage (hreach hle)

theorem Sound.failRange (h : Sound config c₀ s) : Sound config c₀ (s.failRange config) := by
  rw [Stream.failRange]
  dsimp only
  split
  · exact ⟨h.durable, h.cursor, h.coordinator, trivial⟩
  · exact ⟨h.durable, h.cursor, h.coordinator, h.phase⟩

theorem Sound.commitPage {page : List RawEvent} {latestLedger : Nat} (h : Sound config c₀ s)
    (hphase : s.phase = .processing page latestLedger) :
    Sound config c₀ (s.commitPage page latestLedger) := by
  have hsound := h.phase
  rw [PhaseSound, hphase] at hsound
  obtain ⟨hpage, hfirst⟩ := hsound
  have hnext : Sound config c₀ { (if page = [] then s else
      { s.commit page with cursor := highestLedger page }) with phase := .polling } := by
    by_cases hempty : page = []
    · rw [if_pos hempty]
      exact ⟨h.durable, h.cursor, h.coordinator, trivial⟩
    · rw [if_neg hempty]
      obtain ⟨x, rest, rfl⟩ := List.exists_cons_of_ne_nil hempty
      have hkeep : ∀ {n}, s.CoveredUpTo config c₀ n →
          (s.commit (x :: rest)).CoveredUpTo config c₀ n := fun hn =>
        hn.mono (List.subset_append_left _ _) (List.Subset.refl _)
      have hnew : (s.commit (x :: rest)).CoveredUpTo config c₀ (highestLedger (x :: rest)) := by
        apply (hkeep (hfirst x.ledger rfl)).extend
        intro l hl hle
        refine Or.inl fun e he hel => List.mem_append_right _ ?_
        exact hpage x.ledger rfl e he (by omega) (by omega)
      exact ⟨(hkeep h.durable).max hnew, hnew, fun n hn => hkeep (h.coordinator n hn), trivial⟩
  rw [Stream.commitPage]
  dsimp only
  split
  · exact ⟨hnext.durable, hnext.cursor, hnext.coordinator, trivial⟩
  · exact ⟨hnext.durable, hnext.cursor, hnext.coordinator, trivial⟩

/-- One step of the system. -/
def Step (config : StreamConfig) (s : Stream) (l : StreamLabel) (s' : Stream) : Prop :=
  s.step config l = some s'

theorem Sound.step {l : StreamLabel} (h : Sound config c₀ s)
    (hstep : Run.Guarded (Step config) (Careful config) s l s') : Sound config c₀ s' := by
  obtain ⟨hstep, hcareful⟩ := hstep
  rw [Step] at hstep
  cases l with
  | fetchFailed =>
    rw [Stream.step] at hstep
    obtain ⟨-, hs⟩ := Option.ite_none_right_eq_some.mp hstep
    exact Option.some.inj hs ▸ h
  | fetched page latestLedger aborted =>
    rw [Stream.step] at hstep
    obtain ⟨hpoll, hs⟩ := Option.ite_none_right_eq_some.mp hstep
    cases aborted with
    | true =>
      rw [if_pos rfl] at hs
      obtain rfl := Option.some.inj hs
      exact ⟨h.durable, h.cursor, h.coordinator, h.phase⟩
    | false =>
      rw [if_neg Bool.false_ne_true] at hs
      obtain rfl := Option.some.inj hs
      exact h.onPage hpoll.1 hcareful
  | rangeFailed =>
    rw [Stream.step] at hstep
    split at hstep
    · obtain rfl := Option.some.inj hstep
      exact h.failRange
    · cases hstep
  | rangeAborted => exact hcareful.elim
  | rangeCommitted aborted =>
    rw [Stream.step] at hstep
    split at hstep
    · rename_i toLedger current page latestLedger hphase
      obtain rfl := Option.some.inj hstep
      exact h.commitRange hphase fun ha => hcareful ha _ _ _ _ hphase
    · cases hstep
  | batchFailed =>
    rw [Stream.step] at hstep
    split at hstep
    · obtain rfl := Option.some.inj hstep
      exact ⟨h.durable, h.cursor, h.coordinator, trivial⟩
    · cases hstep
  | batchCommitted aborted =>
    rw [Stream.step] at hstep
    split at hstep
    · rename_i page latestLedger hphase
      obtain rfl := Option.some.inj hstep
      have hflag : Sound config c₀ { s with aborted := s.aborted || aborted } :=
        ⟨h.durable, h.cursor, h.coordinator, h.phase⟩
      exact hflag.commitPage hphase
    · cases hstep
  | restarted =>
    rw [Stream.step] at hstep
    obtain rfl := Option.some.inj hstep
    exact ⟨h.durable, h.durable, fun n hn => absurd hn (Option.not_mem_none n), trivial⟩

theorem sound_start (config : StreamConfig) (c₀ : Nat) : Sound config c₀ (start c₀) := by
  have hnone : (start c₀).CoveredUpTo config c₀ c₀ := fun l hl hle => by omega
  exact ⟨hnone, hnone, fun n hn => absurd hn (Option.not_mem_none n), trivial⟩

/-- In every run whose steps are all careful, no ledger that the stored cursor has passed is
skipped in silence. -/
theorem no_ledger_skipped (config : StreamConfig) (c₀ : Nat) (labels : List StreamLabel)
    (s : Stream) (h : Run (Run.Guarded (Step config) (Careful config)) (start c₀) labels s) :
    NoLedgerSkipped config c₀ s :=
  (Run.invariant (I := Sound config c₀) (fun _ _ _ hs hstep => hs.step hstep) h
    (sound_start config c₀)).durable

/-- A page that starts three ledgers on: the gap is confirmed, recovered in two parts, and the
page is committed after it. -/
theorem no_ledger_skipped_after_recovery :
    let config : StreamConfig :=
      { gap := { maxDepthLedgers := none, alertThreshold := none, gapConfirmationLedgers := 5 }
        backfill := ⟨100, 50, 10, 3⟩
        chain := [⟨6, "a"⟩, ⟨8, "b"⟩] }
    ∃ labels s, Run (Run.Guarded (Step config) (Careful config)) (start 5) labels s ∧
      s.durable = 8 ∧ NoLedgerSkipped config 5 s := by
  intro config
  have hpage : PageComplete config.chain [⟨8, "b"⟩] := by
    intro first hf e he hfirst hlast
    have hcases : e = ⟨6, "a"⟩ ∨ e = ⟨8, "b"⟩ := by simpa [config] using he
    obtain rfl := Option.some.inj hf
    rcases hcases with rfl | rfl
    · exact absurd hfirst (by decide)
    · exact List.mem_singleton_self _
  let s₁ := onPage config (start 5) [⟨8, "b"⟩] 20
  let s₂ := commitRange config s₁ 7 6 [⟨8, "b"⟩] 20 false
  let s₃ := commitRange config s₂ 7 7 [⟨8, "b"⟩] 20 false
  have h₁ : Run.Guarded (Step config) (Careful config) (start 5)
      (.fetched [⟨8, "b"⟩] 20 false) s₁ :=
    ⟨rfl, fun _ => ⟨by decide, hpage, fun _ _ h => GapResult.noConfusion h⟩⟩
  have h₂ : Run.Guarded (Step config) (Careful config) s₁ (.rangeCommitted false) s₂ :=
    ⟨rfl, fun h => absurd h Bool.false_ne_true⟩
  have h₃ : Run.Guarded (Step config) (Careful config) s₂ (.rangeCommitted false) s₃ :=
    ⟨rfl, fun h => absurd h Bool.false_ne_true⟩
  have h₄ : Run.Guarded (Step config) (Careful config) s₃ (.batchCommitted false)
      (commitPage s₃ [⟨8, "b"⟩] 20) := ⟨rfl, trivial⟩
  have hrun := (((Run.nil.snoc h₁).snoc h₂).snoc h₃).snoc h₄
  exact ⟨_, _, hrun, rfl, no_ledger_skipped config 5 _ _ hrun⟩

/-- A page that starts beyond the cursor while the RPC is not far enough ahead is committed at
once: the stored cursor passes ledger 6, whose event was never processed. -/
theorem ledger_skipped_while_catching_up :
    ¬∀ (config : StreamConfig) (c₀ : Nat) (labels : List StreamLabel) (s : Stream), 0 < c₀ →
      Run (Step config) (start c₀) labels s → NoLedgerSkipped config c₀ s := by
  intro h
  let config : StreamConfig :=
    { gap := { maxDepthLedgers := none, alertThreshold := none, gapConfirmationLedgers := 5 }
      backfill := ⟨100, 50, 10, 3⟩
      chain := [⟨6, "a"⟩, ⟨8, "b"⟩] }
  let s₁ := onPage config (start 5) [⟨8, "b"⟩] 8
  have h₁ : Step config (start 5) (.fetched [⟨8, "b"⟩] 8 false) s₁ := rfl
  have h₂ : Step config s₁ (.batchCommitted false) (commitPage s₁ [⟨8, "b"⟩] 8) := rfl
  have hrun := (Run.nil.snoc h₁).snoc h₂
  have hskip := h config 5 _ _ (by decide) hrun 6 (by decide) (by decide)
  rcases hskip with hall | ⟨a, b, hmem, -⟩
  · have hlost : (⟨6, "a"⟩ : RawEvent) ∈ [(⟨8, "b"⟩ : RawEvent)] :=
      hall ⟨6, "a"⟩ List.mem_cons_self rfl
    revert hlost
    decide
  · exact absurd hmem List.not_mem_nil

end

end Stream

end Indexer
end Linkora
