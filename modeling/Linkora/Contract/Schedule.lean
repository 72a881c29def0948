import Linkora.Contract.Proposals

/-!
# The schedule of a proposal

A proposal stores the time lock it was created under, but not the vote window:
`gov_vote`, `gov_execute` and `gov_veto` read the window, and `gov_veto` also the
time lock, from the configuration of the moment.  So the schedule holds as long as
nobody changes these two cells while the proposal is active.
-/

namespace Linkora
namespace Contract

/-- The call stores another vote window or another time lock than there is. -/
def reschedules (s : State) : Call → Bool
  | .govInitConfig _ _ timeLockLedgers voteWindowLedgers _ _ =>
    match s.gov.config with
    | some config =>
      timeLockLedgers != config.timeLockLedgers || voteWindowLedgers != config.voteWindowLedgers
    | none => false
  | .govExecute id =>
    match s.gov.config, s.gov.proposal.get id with
    | some config, some p =>
      (p.parameter == .govTimeLock && p.newValue != config.timeLockLedgers) ||
        (p.parameter == .govVoteWindow && p.newValue != config.voteWindowLedgers)
    | _, _ => false
  | _ => false

def isActive (s : State) (id : Nat) : Bool :=
  (s.gov.proposal.get id).any fun p => p.status == .active

/-- While proposal `id` is active nobody changes the vote window or the time lock,
except by executing the proposal itself. -/
def KeepsSchedule (id : Nat) : Condition := fun s _ c =>
  isActive s id = true → c.isExecute id = true ∨ reschedules s c = false

instance (id : Nat) (s : State) (env : Env) (c : Call) : Decidable (KeepsSchedule id s env c) :=
  inferInstanceAs (Decidable (_ → _ ∨ _))

/-- The vote window and the time lock that are stored. -/
def ScheduleIs (s : State) (voteWindow timeLock : Nat) : Prop :=
  s.cell .voteWindowLedgers = some (.number voteWindow) ∧
    s.cell .timeLockLedgers = some (.number timeLock)

theorem scheduleIs_iff {s : State} {config : GovConfig} (h : s.gov.config = some config)
    {voteWindow timeLock : Nat} :
    ScheduleIs s voteWindow timeLock ↔
      config.voteWindowLedgers = voteWindow ∧ config.timeLockLedgers = timeLock := by
  simp [ScheduleIs, State.cell, h]

theorem ScheduleIs.congr {s s' : State} {voteWindow timeLock : Nat}
    (h : ScheduleIs s voteWindow timeLock) (hconfig : s'.gov.config = s.gov.config) :
    ScheduleIs s' voteWindow timeLock := by
  simpa only [ScheduleIs, State.cell, hconfig] using h

/-- A call that does not reschedule keeps the stored schedule. -/
theorem ScheduleIs.exec {σ : Type} {host : Host σ} {env : Env} {w w' : World σ} {c : Call}
    {voteWindow timeLock : Nat} (h : ScheduleIs w.store voteWindow timeLock)
    (hsound : BallotsSound w.store.gov) (hkeep : reschedules w.store c = false)
    (he : exec host env w c = .ok w') : ScheduleIs w'.store voteWindow timeLock := by
  cases c with
  | govInitConfig admin quorum timeLockLedgers voteWindowLedgers =>
    obtain ⟨-, hs⟩ := govInitConfig_ok (World.onStore_eq_ok.mp he).1
    cases hconfig : w.store.gov.config with
    | none => simp [ScheduleIs, State.cell, hconfig] at h
    | some config =>
      obtain ⟨hw, ht⟩ := (scheduleIs_iff hconfig).mp h
      simp only [reschedules, hconfig, Bool.or_eq_false_iff, bne_eq_false_iff_eq] at hkeep
      rw [hs]
      exact (scheduleIs_iff rfl).mpr ⟨hkeep.2.trans hw, hkeep.1.trans ht⟩
  | govExecute id =>
    obtain ⟨p, v, hp, hv, hset, hothers⟩ :=
      govExecute_cell hsound (World.onStore_eq_ok.mp he).1
    cases hconfig : w.store.gov.config with
    | none => simp [ScheduleIs, State.cell, hconfig] at h
    | some config =>
      obtain ⟨hw, ht⟩ := (scheduleIs_iff hconfig).mp h
      simp only [reschedules, hconfig, hp, Bool.or_eq_false_iff, Bool.and_eq_false_iff,
        beq_eq_false_iff_ne, bne_eq_false_iff_eq] at hkeep
      refine ⟨?_, ?_⟩
      · by_cases hparam : p.parameter = .govVoteWindow
        · have hval := hkeep.2.resolve_left (not_not.mpr hparam)
          simp only [GovProposal.proposed, hparam, Option.some.injEq] at hv
          rw [hparam] at hset
          rw [← hw, ← hval, hv]
          exact hset
        · rw [hothers _ (by cases hq : p.parameter <;> simp_all [GovParameter.cell])]
          exact h.1
      · by_cases hparam : p.parameter = .govTimeLock
        · have hval := hkeep.1.resolve_left (not_not.mpr hparam)
          simp only [GovProposal.proposed, hparam, Option.some.injEq] at hv
          rw [hparam] at hset
          rw [← ht, ← hval, hv]
          exact hset
        · rw [hothers _ (by cases hq : p.parameter <;> simp_all [GovParameter.cell])]
          exact h.2
  | _ => exact h.congr (exec_config he (by simp) (by simp))

/-- What stays true of proposal `p`, created as number `id`, while nobody
reschedules it. -/
structure OnSchedule (p : GovProposal) (id voteWindow : Nat) (s : State) : Prop where
  sound : BallotsSound s.gov
  later : ∃ q, s.gov.proposal.get id = some q ∧ p.Later q
  schedule : isActive s id = true → ScheduleIs s voteWindow p.timeLockLedgers

theorem isActive_of_get {s : State} {id : Nat} {q : GovProposal}
    (h : s.gov.proposal.get id = some q) (hq : q.status = .active) : isActive s id = true := by
  simp [isActive, h, hq]

/-- A proposal that is active after a step was active before it. -/
theorem isActive_of_exec {σ : Type} {host : Host σ} {env : Env} {w w' : World σ} {c : Call}
    {id : Nat} {p : GovProposal} (hsound : BallotsSound w.store.gov)
    (hp : w.store.gov.proposal.get id = some p) (he : exec host env w c = .ok w')
    (hactive : isActive w'.store id = true) : isActive w.store id = true := by
  obtain ⟨q, hq, hlater⟩ := (exec_ballotStep he).later hsound hp
  rw [isActive, hq, Option.any_some, beq_iff_eq] at hactive
  refine isActive_of_get hp ?_
  rcases hlater.status with hsame | ⟨hpa, -⟩
  · exact hsame.symm.trans hactive
  · exact hpa

theorem OnSchedule.exec {σ : Type} {host : Host σ} {env : Env} {w w' : World σ} {c : Call}
    {p : GovProposal} {id voteWindow : Nat} (h : OnSchedule p id voteWindow w.store)
    (hkeep : KeepsSchedule id w.store env c) (he : exec host env w c = .ok w') :
    OnSchedule p id voteWindow w'.store := by
  obtain ⟨q, hq, hpq⟩ := h.later
  obtain ⟨r, hr, hqr⟩ := (exec_ballotStep he).later h.sound hq
  refine ⟨h.sound.step (exec_ballotStep he), ⟨r, hr, hpq.trans hqr⟩, fun hactive => ?_⟩
  have hbefore := isActive_of_exec h.sound hq he hactive
  rcases hkeep hbefore with hexec | hno
  · -- Executing the proposal closes it.
    obtain rfl := Call.isExecute_iff.mp hexec
    obtain ⟨config, x, t, -, -, -, -, -, hs⟩ := govExecute_ok (World.onStore_eq_ok.mp he).1
    rw [hs] at hactive
    simp [isActive, State.publish] at hactive
  · exact (h.schedule hbefore).exec h.sound hno he

theorem OnSchedule.run {σ : Type} {host : Host σ} {w w' : World σ} {acts : List (Action σ)}
    {p : GovProposal} {id voteWindow : Nat} (h : OnSchedule p id voteWindow w.store)
    (hrun : Run (Run.Guarded (Step host) (KeepsSchedule id).Met) w acts w') :
    OnSchedule p id voteWindow w'.store := by
  refine hrun.invariant (I := fun w => OnSchedule p id voteWindow w.store) ?_ h
  rintro a l b ha ⟨hl, hmet⟩
  cases hl with
  | call he => exact ha.exec hmet he
  | others _ => exact ha

/-- What an active proposal on schedule finds in the storage. -/
theorem OnSchedule.active {s : State} {p : GovProposal} {id voteWindow : Nat}
    (h : OnSchedule p id voteWindow s) {config : GovConfig} {q : GovProposal}
    (hconfig : s.gov.config = some config) (hq : s.gov.proposal.get id = some q)
    (hactive : q.status = .active) :
    config.voteWindowLedgers = voteWindow ∧ config.timeLockLedgers = p.timeLockLedgers ∧
      q.createdLedger = p.createdLedger ∧ q.timeLockLedgers = p.timeLockLedgers := by
  obtain ⟨r, hr, hlater⟩ := h.later
  obtain rfl : q = r := Option.some.inj (hq.symm.trans hr)
  obtain ⟨hw, ht⟩ := (scheduleIs_iff hconfig).mp (h.schedule (isActive_of_get hq hactive))
  exact ⟨hw, ht, by rw [hlater.fixed], by rw [hlater.fixed]⟩

end Contract
end Linkora
