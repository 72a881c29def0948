import Linkora.Sdk.Queue

/-!
# The turns of a step's work

Everything the work of a step can do with an answer, as one relation, and what a turn leaves
of the execution.
-/

namespace Linkora
namespace Sdk

theorem eq_of_some_pair {α β : Type} {r : α × β} {a : α} {b : β} (h : some r = some (a, b)) :
    a = r.1 ∧ b = r.2 := by
  rw [Option.some.inj h]
  exact ⟨rfl, rfl⟩

/-- A new process has no executions. -/
theorem executions_nil (x : Nat) (e : Execution) : ([] : List Execution)[x]? ≠ some e := by
  rw [List.getElem?_nil]
  nofun

/-- The work waits for an answer from outside and has not failed. -/
def Work.active : Work → Bool
  | .rollingBack _ | .returned | .thrown => false
  | _ => true

/-- `executeStep` has not begun. -/
def Work.atGuard : Work → Bool
  | .locking | .sequencing => true
  | _ => false

namespace Execution

/-- The turns that an execution can take. -/
inductive Takes (e : Execution) : Turn → Prop where
  | waits {work : Work} (hwork : work = .sequencing ∨ work = .signing ∨ work = .simulating ∨
      ∃ attempt, work = .sleeping attempt)
      (htime : e.work.atGuard = true → e.timedOut = false) : e.Takes (.silent (.wait work))
  | pollsAgain {hash : TxHash} {attempt attempt' : Nat} (hwork : e.work = .polling hash attempt) :
      e.Takes (.silent (.wait (.polling hash attempt')))
  | givesUp (hguard : e.work.atGuard = true) (hlate : e.timedOut = true) :
      e.Takes (.silent .throw)
  | rejected (hguard : e.work.atGuard = true) (htime : e.timedOut = false) :
      e.Takes (.failed none .reject)
  | failed {hash : Option TxHash} (hguard : e.work.atGuard = false) :
      e.Takes (.failed hash .fail)
  | sends {attempt : Nat} (hguard : e.work.atGuard = false) :
      e.Takes ⟨[.send], .wait (.sending attempt)⟩
  | simulatedOnly (hwork : e.work = .simulating) (hdry : e.dryRun = true) :
      e.Takes ⟨[.mark .simulated none, .emit .simulated none false, .emit .confirmed none true],
        .complete⟩
  | simulatedSends {attempt : Nat} (hwork : e.work = .simulating) :
      e.Takes ⟨[.mark .simulated none, .emit .simulated none false, .send],
        .wait (.sending attempt)⟩
  | simulatedFailed (hwork : e.work = .simulating) :
      e.Takes ⟨[.mark .simulated none, .emit .simulated none false, .emit .failed none false],
        .fail⟩
  | accepted {hash : TxHash} {attempt attempt' : Nat} (hwork : e.work = .sending attempt) :
      e.Takes ⟨[.emit .submitted (some hash) false, .mark .submitted (some hash)],
        .wait (.polling hash attempt')⟩
  | acceptedFailed {hash : TxHash} {attempt : Nat} (hwork : e.work = .sending attempt) :
      e.Takes ⟨[.emit .submitted (some hash) false, .mark .submitted (some hash),
        .emit .failed (some hash) false], .fail⟩
  | confirmed {hash : TxHash} {attempt : Nat} (hwork : e.work = .polling hash attempt) :
      e.Takes ⟨[.emit .confirmed (some hash) false, .mark .confirmed (some hash)], .complete⟩

variable {cfg : QueueConfig} {b : CircuitBreaker} {e : Execution}

theorem submit_takes (attempt : Nat) (hguard : e.work.atGuard = false) :
    e.Takes (submit cfg b attempt) := by
  rw [submit]
  split
  · exact .sends hguard
  · exact .failed hguard

theorem respond_takes {a : Answer} {turn : Turn} {b' : CircuitBreaker}
    (h : e.respond cfg b a = some (turn, b')) : e.Takes turn ∧ e.work.active = true := by
  unfold respond at h
  split at h
  case h_1 hwork =>
    obtain ⟨rfl, _⟩ := Prod.mk.inj (Option.some.inj h)
    refine ⟨?_, by rw [hwork]; rfl⟩
    cases hlate : e.timedOut with
    | true => exact .givesUp (by rw [hwork]; rfl) hlate
    | false => exact .waits (Or.inl rfl) fun _ => hlate
  case h_2 expected hwork =>
    obtain ⟨rfl, _⟩ := Prod.mk.inj (Option.some.inj h)
    refine ⟨?_, by rw [hwork]; rfl⟩
    have hguard : e.work.atGuard = true := by rw [hwork]; rfl
    cases hlate : e.timedOut with
    | true => exact .givesUp hguard hlate
    | false =>
      cases expected with
      | true => exact .waits (Or.inr (Or.inl rfl)) fun _ => hlate
      | false => exact .rejected hguard hlate
  case h_3 ok hwork =>
    obtain ⟨rfl, _⟩ := Prod.mk.inj (Option.some.inj h)
    refine ⟨?_, by rw [hwork]; rfl⟩
    have hguard : e.work.atGuard = false := by rw [hwork]; rfl
    cases ok with
    | false => exact .failed hguard
    | true =>
      show e.Takes (if !e.skipSimulation || e.dryRun then .silent (.wait .simulating)
        else submit cfg b 0)
      split
      · exact .waits (Or.inr (Or.inr (Or.inl rfl))) fun hguard' => by
          rw [hguard] at hguard'
          cases hguard'
      · exact submit_takes 0 hguard
  case h_4 ok hwork =>
    obtain ⟨rfl, _⟩ := Prod.mk.inj (Option.some.inj h)
    refine ⟨?_, by rw [hwork]; rfl⟩
    have hguard : e.work.atGuard = false := by rw [hwork]; rfl
    cases ok with
    | false => exact .failed hguard
    | true =>
      cases hdry : e.dryRun with
      | true => exact .simulatedOnly hwork hdry
      | false =>
        show e.Takes ((submit cfg b 0).after _)
        rw [submit]
        split
        · exact .simulatedSends hwork
        · exact .simulatedFailed hwork
  case h_5 attempt hash hwork =>
    obtain ⟨rfl, _⟩ := Prod.mk.inj (Option.some.inj h)
    refine ⟨?_, by rw [hwork]; rfl⟩
    rw [poll]
    split
    · exact .accepted hwork
    · exact .acceptedFailed hwork
  case h_6 hwork =>
    obtain ⟨rfl, _⟩ := Prod.mk.inj (Option.some.inj h)
    exact ⟨.failed (by rw [hwork]; rfl), by rw [hwork]; rfl⟩
  case h_7 attempt hwork =>
    obtain ⟨rfl, _⟩ := Prod.mk.inj (Option.some.inj h)
    refine ⟨?_, by rw [hwork]; rfl⟩
    split
    · exact .failed (by rw [hwork]; rfl)
    · exact .waits (Or.inr (Or.inr (Or.inr ⟨_, rfl⟩))) fun hguard => by
        rw [hwork] at hguard
        cases hguard
  case h_8 attempt hwork =>
    obtain ⟨rfl, _⟩ := Prod.mk.inj (Option.some.inj h)
    exact ⟨submit_takes attempt (by rw [hwork]; rfl), by rw [hwork]; rfl⟩
  case h_9 hash attempt success hwork =>
    obtain ⟨rfl, _⟩ := Prod.mk.inj (Option.some.inj h)
    refine ⟨?_, by rw [hwork]; rfl⟩
    cases success with
    | true => exact .confirmed hwork
    | false => exact .failed (by rw [hwork]; rfl)
  case h_10 hash attempt hwork =>
    obtain ⟨rfl, _⟩ := Prod.mk.inj (Option.some.inj h)
    refine ⟨?_, by rw [hwork]; rfl⟩
    rw [poll]
    split
    · exact .pollsAgain hwork
    · exact .failed (by rw [hwork]; rfl)
  case h_11 => cases h

/-- A guard that is late gives up. -/
theorem Takes.of_late {turn : Turn} (h : e.Takes turn) (hguard : e.work.atGuard = true)
    (hlate : e.timedOut = true) : turn = .silent .throw := by
  cases h with
  | givesUp => rfl
  | waits _ htime =>
    rw [htime hguard] at hlate
    cases hlate
  | rejected _ htime =>
    rw [htime] at hlate
    cases hlate
  | failed hbegun | sends hbegun =>
    rw [hbegun] at hguard
    cases hguard
  | pollsAgain hwork | simulatedOnly hwork | simulatedSends hwork | simulatedFailed hwork
  | accepted hwork | acceptedFailed hwork | confirmed hwork =>
    rw [hwork] at hguard
    cases hguard

/-- What an execution is about. -/
structure Same (e e' : Execution) : Prop where
  run : e'.run = e.run
  index : e'.index = e.index
  step : e'.step = e.step

@[simp]
theorem settle_run (ok : Bool) : (e.settle ok).run = e.run := by
  rw [settle]
  split <;> rfl

@[simp]
theorem settle_index (ok : Bool) : (e.settle ok).index = e.index := by
  rw [settle]
  split <;> rfl

@[simp]
theorem settle_step (ok : Bool) : (e.settle ok).step = e.step := by
  rw [settle]
  split <;> rfl

@[simp]
theorem settle_work (ok : Bool) : (e.settle ok).work = e.work := by
  rw [settle]
  split <;> rfl

theorem settle_race (ok : Bool) : (e.settle ok).race = e.race.or (some ok) := by
  rw [settle]
  cases hrace : e.race with
  | none => rfl
  | some b => exact hrace

/-- A deadline that has not fired is cleared. -/
theorem settle_deadline (ok : Bool) (hrace : e.race = none) (htime : e.timedOut = false) :
    (e.settle ok).deadline = .none := by
  rw [settle, hrace]
  cases hdeadline : e.deadline <;> simp [timedOut, hdeadline] at htime ⊢

/-- A deadline that has fired stays as it is. -/
theorem settle_late (ok : Bool) (htime : e.timedOut = true) :
    (e.settle ok).deadline = e.deadline := by
  rw [settle]
  split
  · rfl
  · cases hdeadline : e.deadline <;> simp [timedOut, hdeadline] at htime ⊢

theorem rollBack_same (e : Execution) (steps : List QueueStep) (rest : List Nat) :
    e.Same (e.rollBack steps rest).1 := by
  rw [rollBack]
  split
  · exact ⟨rfl, rfl, rfl⟩
  · exact ⟨by simp, by simp, by simp⟩

theorem released_rollBack_same (e : Execution) (steps : List QueueStep) (rest : List Nat) :
    e.Same (e.released.rollBack steps rest).1 := by
  obtain ⟨hrun, hindex, hstep⟩ := e.released.rollBack_same steps rest
  exact ⟨hrun, hindex, hstep⟩

theorem rollBackLate_same (e : Execution) (steps : List QueueStep) (rest : List Nat) :
    e.Same (e.rollBackLate steps rest).1 := by
  rw [rollBackLate]
  split
  · exact ⟨rfl, rfl, rfl⟩
  · exact ⟨by simp, by simp, by simp⟩

/-- No success comes from rolling back. -/
theorem rollBack_race (e : Execution) (steps : List QueueStep) (rest : List Nat)
    (hrace : e.race ≠ some true) :
    (e.rollBack steps rest).1.race ≠ some true := by
  rw [rollBack]
  split
  · exact hrace
  · rw [settle_race]
    rcases hcase : e.race with _ | ⟨_ | _⟩
    · nofun
    · nofun
    · exact absurd hcase hrace

theorem rollBackLate_race (e : Execution) (steps : List QueueStep) (rest : List Nat)
    (hrace : e.race ≠ some true) :
    (e.rollBackLate steps rest).1.race ≠ some true := by
  rw [rollBackLate]
  split
  · exact hrace
  · rw [settle_race]
    rcases hcase : e.race with _ | ⟨_ | _⟩
    · nofun
    · nofun
    · exact absurd hcase hrace

end Execution

namespace TransactionQueue

section Begin

variable (cfg : QueueConfig) (q : TransactionQueue) (i : Nat) (step : QueueStep)
  (opts : RunOptions)

theorem begin_work : (q.begin cfg i step opts).work = .locking ∨
    (q.begin cfg i step opts).work = .signing := by
  rw [begin]
  split
  · exact Or.inl rfl
  · exact Or.inr rfl

theorem begin_deadline : (q.begin cfg i step opts).deadline = .armed ∨
    (q.begin cfg i step opts).deadline = .none := by
  show (if _ then Deadline.armed else .none) = _ ∨ (if _ then Deadline.armed else .none) = _
  split
  · exact Or.inl rfl
  · exact Or.inr rfl

theorem begin_timedOut : (q.begin cfg i step opts).timedOut = false := by
  rcases begin_deadline cfg q i step opts with h | h <;> rw [Execution.timedOut, h]

/-- A step that is begun waits, unless its transaction cannot be parsed. -/
theorem runStep_cases : q.runStep cfg i step opts = (q.begin cfg i step opts, []) ∨
    q.runStep cfg i step opts =
      (((q.begin cfg i step opts).released.rollBack q.steps (q.completed q.calls).reverse).1,
        .emit ((q.begin cfg i step opts).event .failed none false) ::
          ((q.begin cfg i step opts).released.rollBack q.steps
            (q.completed q.calls).reverse).2) := by
  rw [runStep]
  split
  · exact Or.inr rfl
  · exact Or.inl rfl

end Begin

variable {cfg : QueueConfig} {q : TransactionQueue} {x : Nat} {e : Execution} {turn : Turn}
  {b : CircuitBreaker}

@[simp]
theorem takeTurn_steps : (q.takeTurn cfg x e turn b).1.steps = q.steps := by
  show (if turn.next = .complete then q.push e else q).steps = q.steps
  split <;> rfl

@[simp]
theorem takeTurn_call : (q.takeTurn cfg x e turn b).1.call = q.call := by
  show (if turn.next = .complete then q.push e else q).call = q.call
  split <;> rfl

@[simp]
theorem takeTurn_calls : (q.takeTurn cfg x e turn b).1.calls = q.calls := by
  show (if turn.next = .complete then q.push e else q).calls = q.calls
  split <;> rfl

@[simp]
theorem takeTurn_nextId : (q.takeTurn cfg x e turn b).1.nextId = q.nextId := by
  show (if turn.next = .complete then q.push e else q).nextId = q.nextId
  split <;> rfl

@[simp]
theorem takeTurn_stepStates :
    (q.takeTurn cfg x e turn b).1.stepStates = (perform cfg e q.stepStates turn.notes).1 := rfl

@[simp]
theorem takeTurn_executions : (q.takeTurn cfg x e turn b).1.executions =
    q.executions.set x (e.goOn q.steps (q.completed e.run) turn.next).1 := rfl

theorem takeTurn_completed (h : turn.next ≠ .complete) :
    (q.takeTurn cfg x e turn b).1.completed = q.completed := by
  rw [takeTurn, if_neg h]

theorem takeTurn_completed_push (h : turn.next = .complete) :
    (q.takeTurn cfg x e turn b).1.completed =
      Function.update q.completed e.run (q.completed e.run ++ [e.index]) := by
  rw [takeTurn, if_pos h]
  rfl

theorem takeTurn_effects : (q.takeTurn cfg x e turn b).2 =
    (perform cfg e q.stepStates turn.notes).2 ++
      (e.goOn q.steps (q.completed e.run) turn.next).2 := rfl

end TransactionQueue
end Sdk
end Linkora
