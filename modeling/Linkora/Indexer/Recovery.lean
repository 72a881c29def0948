import Linkora.Indexer.Stream

/-!
# The recovery of a gap

`recoverGap` fetches a gap in parts and goes on behind the last ledger it has committed.  On a
chain in order it commits the events of the gap once each and in order, and the attempts that
may fail are bounded, so it comes to an end.
-/

namespace Linkora
namespace Indexer

/-- The events of the chain in the order of their ledgers. -/
def InOrder (chain : List RawEvent) : Prop := chain.Pairwise fun e f => e.ledger ≤ f.ledger

theorem fetchRange_eq_nil {chain : List RawEvent} {a b : Nat}
    (h : ∀ e ∈ chain, ¬(a ≤ e.ledger ∧ e.ledger ≤ b)) : fetchRange chain a b = [] := by
  rw [fetchRange, List.filter_eq_nil_iff]
  intro e he hin
  exact h e he (of_decide_eq_true hin)

theorem fetchRange_cons (e : RawEvent) (rest : List RawEvent) (a b : Nat) :
    fetchRange (e :: rest) a b =
      if a ≤ e.ledger ∧ e.ledger ≤ b then e :: fetchRange rest a b else fetchRange rest a b := by
  by_cases h : a ≤ e.ledger ∧ e.ledger ≤ b
  · rw [if_pos h]
    exact List.filter_cons_of_pos (decide_eq_true h)
  · rw [if_neg h]
    exact List.filter_cons_of_neg (by simpa using h)

/-- Two ranges that follow each other are one range. -/
theorem fetchRange_append {chain : List RawEvent} (hchain : InOrder chain) (a b c : Nat)
    (hab : a ≤ b + 1) (hbc : b ≤ c) :
    fetchRange chain a b ++ fetchRange chain (b + 1) c = fetchRange chain a c := by
  induction chain with
  | nil => rfl
  | cons e rest ih =>
    obtain ⟨hfirst, hrest⟩ := List.pairwise_cons.mp hchain
    rw [fetchRange_cons, fetchRange_cons, fetchRange_cons, ← ih hrest]
    by_cases hb : e.ledger ≤ b
    · rw [if_neg (show ¬(b + 1 ≤ e.ledger ∧ e.ledger ≤ c) by omega)]
      by_cases ha : a ≤ e.ledger
      · rw [if_pos ⟨ha, hb⟩, if_pos ⟨ha, by omega⟩, List.cons_append]
      · rw [if_neg (fun h => ha h.1), if_neg (fun h => ha h.1)]
    · -- nothing of the first range comes behind the event
      have hnil : fetchRange rest a b = [] := by
        apply fetchRange_eq_nil
        intro f hf hin
        have hle := hfirst f hf
        omega
      rw [if_neg (fun h => hb h.2), hnil, List.nil_append, List.nil_append]
      by_cases hc : e.ledger ≤ c
      · rw [if_pos ⟨by omega, hc⟩, if_pos ⟨by omega, hc⟩]
      · rw [if_neg (fun h => hc h.2), if_neg (fun h => hc h.2)]

/-- No event of a fetched part lies behind the highest one. -/
theorem fetchRange_highestLedger {chain : List RawEvent} {a b m : Nat} (hmb : m ≤ b)
    (h : highestLedger (fetchRange chain a b) ≤ m) :
    fetchRange chain a b = fetchRange chain a m := by
  rw [fetchRange, fetchRange]
  apply List.filter_congr
  intro e he
  apply decide_eq_decide.mpr
  constructor
  · intro hin
    have hmem : e ∈ fetchRange chain a b := List.mem_filter.mpr ⟨he, decide_eq_true hin⟩
    exact ⟨hin.1, Stream.highestLedger_le_iff.mp h e hmem⟩
  · exact fun hin => ⟨hin.1, Nat.le_trans hin.2 hmb⟩

namespace Stream

section

variable {config : StreamConfig} {s s' : Stream} {fromLedger toLedger current latestLedger : Nat}
  {page : List RawEvent}

theorem batchTo_le : batchTo config.backfill toLedger current ≤ toLedger := Nat.min_le_right _ _

theorem settledTo_le : settledTo config toLedger current ≤
    batchTo config.backfill toLedger current := by
  rw [settledTo]
  by_cases hempty : fetchRange config.chain current (batchTo config.backfill toLedger current) = []
  · exact Nat.le_of_eq (if_pos hempty)
  · rw [if_neg hempty, highestLedger_le_iff]
    intro e he
    exact (of_decide_eq_true (List.mem_filter.mp he).2).2

/-- A part that is committed settles at least one ledger. -/
theorem le_settledTo (hbatch : 0 < config.backfill.batchSize) (hle : current ≤ toLedger) :
    current ≤ settledTo config toLedger current := by
  have hlast : current ≤ batchTo config.backfill toLedger current := by
    unfold batchTo
    omega
  rw [settledTo]
  by_cases hempty : fetchRange config.chain current (batchTo config.backfill toLedger current) = []
  · rw [if_pos hempty]
    exact hlast
  · rw [if_neg hempty]
    obtain ⟨e, he⟩ := List.exists_mem_of_ne_nil _ hempty
    have hfrom : current ≤ e.ledger := (of_decide_eq_true (List.mem_filter.mp he).2).1
    exact Nat.le_trans hfrom (highestLedger_le_iff.mp (Nat.le_refl _) e he)

/-- The committed part of a gap, up to the ledger where the loop goes on. -/
theorem fetchRange_settledTo (hchain : InOrder config.chain)
    (hbatch : 0 < config.backfill.batchSize) (hfrom : fromLedger ≤ current)
    (hpos : 0 < current) (hle : current ≤ toLedger) :
    fetchRange config.chain fromLedger (current - 1) ++
        fetchRange config.chain current (batchTo config.backfill toLedger current) =
      fetchRange config.chain fromLedger (settledTo config toLedger current) := by
  have hsettled : current ≤ settledTo config toLedger current := le_settledTo hbatch hle
  rw [fetchRange_highestLedger settledTo_le (highestLedger_le_settledTo config toLedger current)]
  have happend := fetchRange_append hchain fromLedger (current - 1)
    (settledTo config toLedger current) (by omega) (by omega)
  rwa [Nat.sub_add_cancel hpos] at happend

/-- The loop of `recoverGap` stands at `current`, and everything before is committed. -/
structure RecoversAt (config : StreamConfig) (before : List RawEvent) (fromLedger toLedger : Nat)
    (s : Stream) (current : Nat) : Prop where
  phase : ∃ page latestLedger, s.phase = .recovering toLedger current page latestLedger
  pos : 0 < current
  from_le : fromLedger ≤ current
  le : current ≤ toLedger
  failures : s.coordinator.consecutiveFailures < config.backfill.circuitBreakerMaxFailures
  committed : s.committed = before ++ fetchRange config.chain fromLedger (current - 1)

/-- `recoverGap` has returned: the whole gap is committed. -/
structure Recovered (config : StreamConfig) (before : List RawEvent) (fromLedger toLedger : Nat)
    (s : Stream) : Prop where
  phase : ∃ page latestLedger, s.phase = .processing page latestLedger
  status : s.coordinator.status = .healthy
  committed : s.committed = before ++ fetchRange config.chain fromLedger toLedger

/-- `recoverGap` has thrown after too many failures in a row, with the gap committed up to some
ledger. -/
structure GaveUp (config : StreamConfig) (before : List RawEvent) (fromLedger : Nat)
    (s : Stream) : Prop where
  phase : s.phase = .polling
  status : s.coordinator.status = .circuitOpen
  committed : ∃ last, s.committed = before ++ fetchRange config.chain fromLedger last

variable {before : List RawEvent}

theorem RecoversAt.commitRange (h : RecoversAt config before fromLedger toLedger s current)
    (hchain : InOrder config.chain) (hbatch : 0 < config.backfill.batchSize)
    (hfailures : 0 < config.backfill.circuitBreakerMaxFailures)
    (hstep : step config s (.rangeCommitted false) = some s') :
    (∃ next, current < next ∧ s'.coordinator.consecutiveFailures = 0 ∧
      RecoversAt config before fromLedger toLedger s' next) ∨
      Recovered config before fromLedger toLedger s' := by
  obtain ⟨page, latestLedger, hphase⟩ := h.phase
  have hsettled := le_settledTo hbatch h.le
  have hwhole := fetchRange_settledTo hchain hbatch h.from_le h.pos h.le
  rw [step, hphase] at hstep
  dsimp only at hstep
  obtain rfl := Option.some.inj hstep
  unfold Stream.commitRange
  dsimp only
  split
  · next hmore =>
    refine Or.inl ⟨settledTo config toLedger current + 1, by omega, rfl, ?_⟩
    have hfrom := h.from_le
    refine ⟨⟨page, latestLedger, rfl⟩, by omega, by omega, hmore.1, hfailures, ?_⟩
    show s.committed ++ _ = _
    rw [h.committed, List.append_assoc, hwhole, Nat.add_sub_cancel]
  · next hmore =>
    have hend : settledTo config toLedger current = toLedger := by
      have hle : settledTo config toLedger current ≤ toLedger := 
        Nat.le_trans settledTo_le batchTo_le
      by_contra hne
      exact hmore ⟨by omega, rfl⟩
    refine Or.inr ⟨⟨page, latestLedger, rfl⟩, rfl, ?_⟩
    show s.committed ++ _ = _
    rw [h.committed, List.append_assoc, hwhole, hend]

theorem RecoversAt.failRange (h : RecoversAt config before fromLedger toLedger s current)
    (hstep : step config s .rangeFailed = some s') :
    (s'.coordinator.consecutiveFailures = s.coordinator.consecutiveFailures + 1 ∧
      RecoversAt config before fromLedger toLedger s' current) ∨
      GaveUp config before fromLedger s' := by
  obtain ⟨page, latestLedger, hphase⟩ := h.phase
  rw [step, hphase] at hstep
  dsimp only at hstep
  obtain rfl := Option.some.inj hstep
  unfold Stream.failRange
  dsimp only
  split
  · exact Or.inr ⟨rfl, rfl, _, h.committed⟩
  · next hfew =>
    exact Or.inl ⟨rfl, ⟨page, latestLedger, hphase⟩, h.pos, h.from_le, h.le, by
      show s.coordinator.consecutiveFailures + 1 < _
      omega, h.committed⟩

/-! ## Runs of attempts -/

/-- An iteration of the loop that is not cut short. -/
def Attempt (l : StreamLabel) : Prop := l = .rangeFailed ∨ l = .rangeCommitted false

/-- How many attempts there can be from `current` on. -/
def attemptsLeft (config : StreamConfig) (toLedger current : Nat) (s : Stream) : Nat :=
  (toLedger + 1 - current) * config.backfill.circuitBreakerMaxFailures -
    s.coordinator.consecutiveFailures

/-- Where a recovery can stand after some attempts. -/
inductive RecoveryState (config : StreamConfig) (before : List RawEvent)
    (fromLedger toLedger : Nat) (s : Stream) (left : Nat) : Prop where
  | recovers {current : Nat} : RecoversAt config before fromLedger toLedger s current →
      left = attemptsLeft config toLedger current s →
      RecoveryState config before fromLedger toLedger s left
  | recovered : Recovered config before fromLedger toLedger s →
      RecoveryState config before fromLedger toLedger s left
  | gaveUp : GaveUp config before fromLedger s →
      RecoveryState config before fromLedger toLedger s left

theorem RecoversAt.attempt {l : StreamLabel}
    (h : RecoversAt config before fromLedger toLedger s current) (hl : Attempt l)
    (hchain : InOrder config.chain) (hbatch : 0 < config.backfill.batchSize)
    (hstep : step config s l = some s') :
    ∃ left, left < attemptsLeft config toLedger current s ∧
      RecoveryState config before fromLedger toLedger s' left := by
  have hfailures := h.failures
  -- every ledger that is left is worth as many attempts as may fail
  have hworth : ∀ next, current < next →
      (toLedger + 1 - next) * config.backfill.circuitBreakerMaxFailures <
        attemptsLeft config toLedger current s := by
    intro next hnext
    have hle := h.le
    have hone : toLedger + 1 - next + 1 ≤ toLedger + 1 - current := by omega
    have hmul := Nat.mul_le_mul_right config.backfill.circuitBreakerMaxFailures hone
    rw [Nat.add_mul, Nat.one_mul] at hmul
    unfold attemptsLeft
    omega
  have hsome : 0 < attemptsLeft config toLedger current s :=
    Nat.lt_of_le_of_lt (Nat.zero_le _) (hworth (current + 1) (Nat.lt_succ_self _))
  rcases hl with rfl | rfl
  · rcases h.failRange hstep with ⟨hcount, hnext⟩ | hgave
    · refine ⟨_, ?_, .recovers hnext rfl⟩
      unfold attemptsLeft at hsome ⊢
      omega
    · exact ⟨0, hsome, .gaveUp hgave⟩
  · rcases h.commitRange hchain hbatch (Nat.lt_of_le_of_lt (Nat.zero_le _) hfailures) hstep with
      ⟨next, hnext, hcount, hrec⟩ | hdone
    · refine ⟨_, ?_, .recovers hrec rfl⟩
      have hless := hworth next hnext
      unfold attemptsLeft at hless ⊢
      omega
    · exact ⟨0, hsome, .recovered hdone⟩

/-- Outside of the loop there are no attempts. -/
theorem not_attempt {l : StreamLabel} (hl : Attempt l)
    (hphase : ∀ toLedger current page latestLedger,
      s.phase ≠ .recovering toLedger current page latestLedger) : step config s l = none := by
  rcases hl with rfl | rfl
  · rw [step]
    split
    · next hrec => exact absurd hrec (hphase _ _ _ _)
    · rfl
  · rw [step]
    split
    · next hrec => exact absurd hrec (hphase _ _ _ _)
    · rfl

theorem RecoversAt.attempts {labels : List StreamLabel}
    (h : RecoversAt config before fromLedger toLedger s current) (hchain : InOrder config.chain)
    (hbatch : 0 < config.backfill.batchSize) (hrun : Run (Step config) s labels s')
    (hall : ∀ l ∈ labels, Attempt l) :
    ∃ left, labels.length + left ≤ attemptsLeft config toLedger current s ∧
      RecoveryState config before fromLedger toLedger s' left := by
  induction hrun with
  | nil => exact ⟨_, Nat.le_of_eq (Nat.zero_add _), .recovers h rfl⟩
  | @snoc labels t u l hrun hstep ih =>
    have hl : Attempt l := hall l (List.mem_append_right _ (List.mem_singleton_self l))
    obtain ⟨left, hlen, hstate⟩ := ih fun l' hl' => hall l' (List.mem_append_left _ hl')
    rw [List.length_append, List.length_singleton]
    cases hstate with
    | recovers hrec hleft =>
      obtain ⟨left', hless, hnext⟩ := hrec.attempt hl hchain hbatch hstep
      exact ⟨left', by omega, hnext⟩
    | recovered hdone =>
      obtain ⟨page, latestLedger, hphase⟩ := hdone.phase
      have hnone : step config t l = none := not_attempt hl (by simp [hphase])
      cases hnone.symm.trans hstep
    | gaveUp hgave =>
      have hnone : step config t l = none := not_attempt hl (by simp [hgave.phase])
      cases hnone.symm.trans hstep

theorem recoversAt_recoverGap (hstatus : s.coordinator.status ≠ .circuitOpen)
    (hfew : s.coordinator.consecutiveFailures < config.backfill.circuitBreakerMaxFailures)
    (hpos : 0 < fromLedger) (hle : fromLedger ≤ toLedger)
    (hdepth : toLedger - fromLedger + 1 ≤ config.backfill.maxDepthLedgers) :
    RecoversAt config s.committed fromLedger toLedger
      (s.recoverGap config.backfill fromLedger toLedger page latestLedger) fromLedger := by
  have hnothing : fetchRange config.chain fromLedger (fromLedger - 1) = [] :=
    fetchRange_eq_nil fun e _ hin => by omega
  rw [recoverGap, if_neg hstatus]
  dsimp only
  rw [if_neg (Nat.not_lt.mpr hdepth)]
  exact ⟨⟨page, latestLedger, rfl⟩, hpos, Nat.le_refl _, hle, hfew, by
    rw [hnothing, List.append_nil]⟩

/-- A recovery that nothing cuts short commits the events of the gap once each and in the order
of the chain, makes no more attempts than each ledger of the gap may take, and ends with the
whole gap committed or with the circuit open. -/
theorem gap_recovered_in_order {labels : List StreamLabel} (hchain : InOrder config.chain)
    (hbatch : 0 < config.backfill.batchSize) (hstatus : s.coordinator.status ≠ .circuitOpen)
    (hfew : s.coordinator.consecutiveFailures < config.backfill.circuitBreakerMaxFailures)
    (hpos : 0 < fromLedger) (hle : fromLedger ≤ toLedger)
    (hdepth : toLedger - fromLedger + 1 ≤ config.backfill.maxDepthLedgers)
    (hrun : Run (Step config) (s.recoverGap config.backfill fromLedger toLedger page latestLedger)
      labels s') (hall : ∀ l ∈ labels, Attempt l) :
    labels.length ≤ (toLedger + 1 - fromLedger) * config.backfill.circuitBreakerMaxFailures ∧
      ((∃ current, RecoversAt config s.committed fromLedger toLedger s' current) ∨
        Recovered config s.committed fromLedger toLedger s' ∨
        GaveUp config s.committed fromLedger s') := by
  have hstart : RecoversAt config s.committed fromLedger toLedger
      (s.recoverGap config.backfill fromLedger toLedger page latestLedger) fromLedger :=
    recoversAt_recoverGap hstatus hfew hpos hle hdepth
  obtain ⟨left, hlen, hstate⟩ := hstart.attempts hchain hbatch hrun hall
  have hbound : attemptsLeft config toLedger fromLedger
      (s.recoverGap config.backfill fromLedger toLedger page latestLedger) ≤
        (toLedger + 1 - fromLedger) * config.backfill.circuitBreakerMaxFailures :=
    Nat.sub_le _ _
  refine ⟨by omega, ?_⟩
  cases hstate with
  | recovers hrec => exact Or.inl ⟨_, hrec⟩
  | recovered hdone => exact Or.inr (Or.inl hdone)
  | gaveUp hgave => exact Or.inr (Or.inr hgave)

end

/-- A gap of four ledgers, fetched in two parts after a failure. -/
theorem gap_recovered_in_two_parts :
    let config : StreamConfig :=
      { gap := { maxDepthLedgers := none, alertThreshold := none, gapConfirmationLedgers := 5 }
        backfill := ⟨100, 50, 2, 3⟩
        chain := [⟨6, "a"⟩, ⟨7, "b"⟩, ⟨9, "c"⟩] }
    ∃ s', Run (Step config) (recoverGap config.backfill (start 5) 6 9 [] 20)
        [.rangeFailed, .rangeCommitted false, .rangeCommitted false] s' ∧
      s'.phase = .processing [] 20 ∧ s'.committed = config.chain := by
  intro config
  let s₀ := recoverGap config.backfill (start 5) 6 9 [] 20
  let s₁ := failRange config s₀
  let s₂ := commitRange config s₁ 9 6 [] 20 false
  let s₃ := commitRange config s₂ 9 8 [] 20 false
  have h₁ : Step config s₀ .rangeFailed s₁ := rfl
  have h₂ : Step config s₁ (.rangeCommitted false) s₂ := rfl
  have h₃ : Step config s₂ (.rangeCommitted false) s₃ := rfl
  have hrun : Run (Step config) s₀ [.rangeFailed, .rangeCommitted false, .rangeCommitted false]
      s₃ := ((Run.nil.snoc h₁).snoc h₂).snoc h₃
  have hchain : InOrder config.chain := by simp [InOrder, config]
  have hall : ∀ l ∈ [StreamLabel.rangeFailed, .rangeCommitted false, .rangeCommitted false],
      Attempt l := by simp [Attempt]
  have hphase : s₃.phase = .processing [] 20 := rfl
  refine ⟨s₃, hrun, hphase, ?_⟩
  rcases (gap_recovered_in_order hchain (by decide) (by decide) (by decide) (by decide) (by decide)
    (by decide) hrun hall).2 with ⟨current, hrec⟩ | hdone | hgave
  · obtain ⟨page, latestLedger, hrec⟩ := hrec.phase
    cases hphase.symm.trans hrec
  · exact hdone.committed
  · cases hphase.symm.trans hgave.phase

end Stream

end Indexer
end Linkora
