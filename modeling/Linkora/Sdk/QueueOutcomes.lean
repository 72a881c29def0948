import Linkora.Sdk.QueueStanding

/-!
# One outcome for a step

Where no deadline fires during the rollbacks of its own step, no work goes on after its
deadline, and the steps stay while a deadline rolls back, a step has one outcome, nothing
follows a failure, and the rollbacks are those of the completed steps, in reverse.
-/

namespace Linkora
namespace Sdk

namespace Orderly

variable {cfg : QueueConfig} {q : TransactionQueue} {log : List Effect} {x : Nat} {e : Execution}

/-- An execution whose race is not over is that of the step the call stands at. -/
theorem current (h : Orderly q log) (hx : q.executions[x]? = some e) (hrace : e.race = none) :
    e.run = q.calls ∧ q.steps[e.index]? = some e.step ∧
      Tally log q.steps (q.completed e.run) e.run e.index := by
  obtain ⟨hlast, i, resuming, opts, hcall⟩ := h.unsettled x e hx hrace
  obtain ⟨e₂, hlast₂, hrun, hindex, hstep, htally, _⟩ := h.stepping i resuming opts hcall
  have heq : e₂ = e := by
    rw [List.getLast?_eq_getElem?, ← hlast, Nat.add_sub_cancel, hx] at hlast₂
    exact (Option.some.inj hlast₂).symm
  subst heq
  rw [hrun, hindex]
  exact ⟨rfl, hstep, htally⟩

theorem mem (hx : q.executions[x]? = some e) : e ∈ q.executions := List.mem_of_getElem? hx

theorem of_rollbacks {effects : List Effect} {run : Nat}
    (h : ∀ f ∈ effects, ∃ i, f = .rollback run i) : ∀ f ∈ effects, f.Of run := by
  intro f hf
  obtain ⟨i, rfl⟩ := h f hf
  exact Effect.of_rollback run i

theorem eventsOf_rollbacks {effects : List Effect} {run : Nat}
    (h : ∀ f ∈ effects, ∃ i, f = .rollback run i) (run' : Nat) : eventsOf effects run' = [] := by
  apply List.filterMap_eq_nil_iff.mpr
  intro f hf
  obtain ⟨i, rfl⟩ := h f hf
  rfl

theorem tally_rollbacks {effects : List Effect} {steps : List QueueStep} {completed : List Nat}
    {run run' i : Nat} (h : ∀ f ∈ effects, ∃ j, f = .rollback run j)
    (htally : Tally log steps completed run' i) : Tally (log ++ effects) steps completed run' i := by
  apply htally.congr
  rw [eventsOf_append, eventsOf_rollbacks h, List.append_nil]

/-- The step fails, and its rollbacks begin. -/
theorem fail (h : Orderly q log) (hx : q.executions[x]? = some e) {e' : Execution}
    {pre rollbacks : List Effect} {hash : Option TxHash} {q' : TransactionQueue}
    (hrace : e.race = none) (hundecided : Undecided log e.run e.index) (hpre : ∀ f ∈ pre, f.Mild e)
    (hsame : e.Same e') (hfailed : e'.race ≠ some true)
    (hbegin : ∀ log' : List Effect, OneOutcome log' →
      Rolling log' q.steps e.run (q.completed e.run).reverse →
      OneOutcome (log' ++ rollbacks) ∧ Standing (log' ++ rollbacks) q.steps e' ∧
        ∀ f ∈ rollbacks, ∃ i, f = .rollback e.run i)
    (hexecutions : q'.executions = q.executions.set x e') (hsteps : q'.steps = q.steps)
    (hcall : q'.call = q.call) (hcalls : q'.calls = q.calls)
    (hcompleted : q'.completed = q.completed) :
    Orderly q' (log ++ (pre ++ [Effect.emit (e.event .failed hash false)] ++ rollbacks)) := by
  obtain ⟨_, _, htally⟩ := h.current hx hrace
  obtain ⟨hout, hundecided', htally'⟩ := hundecided.mild h.outcome htally hpre
  obtain ⟨hout', htally'', hrolling⟩ := hundecided'.fails hout htally' hash false
  obtain ⟨hout'', hstanding, hrollbacks⟩ := hbegin _ hout' hrolling
  have hassoc : log ++ (pre ++ [Effect.emit (e.event .failed hash false)] ++ rollbacks) =
      log ++ pre ++ [Effect.emit (e.event .failed hash false)] ++ rollbacks := by
    simp only [List.append_assoc]
  refine h.move hx (by rw [hrace]; nofun) hsame (fun _ => hrace) ?_ (hassoc ▸ hout'')
    (hassoc ▸ hstanding) hexecutions hsteps hcall hcalls (fun _ _ => by rw [hcompleted]) ?_
    (fun hrace' => absurd hrace' hfailed)
  · intro f hf
    rcases List.mem_append.mp hf with hf | hf
    · rcases List.mem_append.mp hf with hf | hf
      · exact (hpre f hf).of
      · rw [List.mem_singleton.mp hf]
        exact Effect.of_event e .failed hash false
    · exact of_rollbacks hrollbacks f hf
  · intro _
    rw [hassoc, hcompleted]
    exact tally_rollbacks hrollbacks htally''

/-- The deadline fires before the step has an outcome. -/
theorem timeout (h : Orderly q log) {q' : TransactionQueue} {effects : List Effect}
    (hcond : ∀ e, q.executions[x]? = some e → ∀ rest, e.work ≠ .rollingBack rest)
    (hact : q.timeout x = some (q', effects)) : Orderly q' (log ++ effects) := by
  rw [TransactionQueue.timeout] at hact
  cases hx : q.executions[x]? with
  | none =>
    rw [hx] at hact
    cases hact
  | some e =>
    rw [hx] at hact
    by_cases harmed : e.deadline = .armed
    · simp only [harmed, if_true] at hact
      obtain ⟨rfl, rfl⟩ := Prod.mk.inj (Option.some.inj hact)
      cases h.standing e (mem hx) with
      | working hwork htime hrace hundecided =>
        have hnone : ∀ f ∈ ([] : List Effect), f.Mild e := List.forall_mem_nil _
        have hrace' : e.race ≠ some true := by
          rw [hrace]
          nofun
        refine h.fail hx hrace hundecided hnone (e.rollBackLate_same _ _)
          (e.rollBackLate_race _ _ hrace') ?_ rfl rfl rfl rfl rfl
        intro log' hout hrolling
        obtain ⟨hout', hstanding, hrollbacks, _⟩ :=
          rollBackLate_spec hrolling hout (Or.inl hwork) hrace'
        exact ⟨hout', hstanding, hrollbacks⟩
      | rollingBack hwork => exact absurd hwork (hcond e hx _)
      | late hdeadline =>
        rw [harmed] at hdeadline
        cases hdeadline
      | failed _ hdeadline =>
        rw [harmed] at hdeadline
        rcases hdeadline with hdeadline | hdeadline <;> cases hdeadline
      | completed _ hdeadline =>
        rw [harmed] at hdeadline
        cases hdeadline
    · simp only [harmed, if_false] at hact
      cases hact

/-- A rollback that the deadline called is through. -/
theorem rolledBack (h : Orderly q log) {q' : TransactionQueue} {effects : List Effect}
    (hact : q.rolledBack x = some (q', effects)) : Orderly q' (log ++ effects) := by
  rw [TransactionQueue.rolledBack] at hact
  cases hx : q.executions[x]? with
  | none =>
    rw [hx] at hact
    cases hact
  | some e =>
    rw [hx] at hact
    cases hdeadline : e.deadline with
    | fired rest =>
      simp only [hdeadline] at hact
      obtain ⟨rfl, rfl⟩ := Prod.mk.inj (Option.some.inj hact)
      have hlate : ∃ rest', e.deadline = .fired rest' ∧
          (e.work.active = true ∨ e.work = .thrown) ∧ e.race ≠ some true ∧
          Rolling log q.steps e.run rest' := by
        cases h.standing e (mem hx) with
        | late hfired hwork hrace hrolling => exact ⟨_, hfired, hwork, hrace, hrolling⟩
        | working _ htime | rollingBack _ htime =>
          rw [Execution.timedOut, hdeadline] at htime
          cases htime
        | failed _ hover =>
          rw [hdeadline] at hover
          rcases hover with hover | hover <;> cases hover
        | completed _ hnone =>
          rw [hdeadline] at hnone
          cases hnone
      obtain ⟨rest', hfired, hwork, hrace, hrolling⟩ := hlate
      rw [hdeadline] at hfired
      obtain rfl := Deadline.fired.inj hfired
      obtain ⟨hout, hstanding, hrollbacks, hkeep⟩ :=
        rollBackLate_spec hrolling h.outcome hwork hrace
      exact h.move hx hrace (e.rollBackLate_same _ _) hkeep (of_rollbacks hrollbacks) hout
        hstanding rfl rfl rfl rfl (fun _ _ => rfl) (tally_rollbacks hrollbacks)
        fun hrace' => absurd hrace' (e.rollBackLate_race _ _ hrace)
    | _ =>
      simp only [hdeadline] at hact
      cases hact

end Orderly

namespace Orderly

variable {cfg : QueueConfig} {q : TransactionQueue} {log : List Effect} {x : Nat} {e : Execution}
  {turn : Turn} {b : CircuitBreaker}

/-- The work of a step takes a turn before the step has an outcome. -/
theorem takeTurn (h : Orderly q log) (hx : q.executions[x]? = some e) (htakes : e.Takes turn)
    (htime : e.timedOut = false) (hrace : e.race = none)
    (hundecided : Undecided log e.run e.index) :
    Orderly (q.takeTurn cfg x e turn b).1 (log ++ (q.takeTurn cfg x e turn b).2) := by
  obtain ⟨_, hstep, htally⟩ := h.current hx hrace
  have hmove : e.race ≠ some true := by
    rw [hrace]
    nofun
  rw [TransactionQueue.takeTurn_effects]
  rcases htakes.decides cfg q.stepStates with ⟨work, hnext, hactive, hmild⟩ |
    ⟨hnext, pre, hash, dryRun, post, heffects, hpre, hpost⟩ | ⟨hnext, pre, hash, heffects, hpre⟩ |
    ⟨_, hlate⟩
  · -- The work waits again.
    obtain ⟨hout, hundecided', htally'⟩ := hundecided.mild h.outcome htally hmild
    have hgo : e.goOn q.steps (q.completed e.run) turn.next = ({ e with work }, []) := by
      rw [hnext]
      rfl
    have hcompleted : (q.takeTurn cfg x e turn b).1.completed = q.completed :=
      TransactionQueue.takeTurn_completed (by rw [hnext]; nofun)
    rw [hgo, List.append_nil]
    have hsame : e.Same { e with work } := ⟨rfl, rfl, rfl⟩
    refine h.move hx hmove hsame id (fun f hf => (hmild f hf).of) hout
      (.working hactive htime hrace hundecided') ?_ (by simp) (by simp) (by simp)
      (fun _ _ => by rw [hcompleted]) ?_ (fun hrace' => absurd hrace' hmove)
    · rw [TransactionQueue.takeTurn_executions, hgo]
    · intro _
      rw [hcompleted]
      exact htally'
  · -- The step is confirmed.
    obtain ⟨hout, hundecided', htally'⟩ := hundecided.mild h.outcome htally hpre
    have hout' := hout.snoc (hundecided'.allowed .confirmed hash dryRun)
    have htally'' := htally'.confirmed hstep hash dryRun
    have hgo : e.goOn q.steps (q.completed e.run) turn.next =
        ({ e with work := .returned }.settle true, []) := by
      rw [hnext]
      rfl
    have hassoc : log ++ (pre ++ Effect.emit (e.event .confirmed hash dryRun) :: post) =
        log ++ pre ++ [Effect.emit (e.event .confirmed hash dryRun)] ++ post := by
      simp only [List.append_assoc, List.singleton_append]
    have hcompleted : (q.takeTurn cfg x e turn b).1.completed =
        Function.update q.completed e.run (q.completed e.run ++ [e.index]) :=
      TransactionQueue.takeTurn_completed_push hnext
    rw [hgo, List.append_nil, heffects]
    have hsame : e.Same ({ e with work := .returned }.settle true) := ⟨by simp, by simp, by simp⟩
    refine h.move hx hmove hsame (fun _ => hrace) ?_ ?_ (.completed (by simp) ?_ ?_) ?_ (by simp)
      (by simp) (by simp) ?_ ?_ ?_
    · intro f hf
      rcases List.mem_append.mp hf with hf | hf
      · exact (hpre f hf).of
      · rcases List.mem_cons.mp hf with rfl | hf
        · exact Effect.of_event e .confirmed hash dryRun
        · exact fun run' _ => hpost f hf run'
    · rw [hassoc]
      exact hout'.outside hpost
    · exact Execution.settle_deadline true hrace htime
    · rw [Execution.settle_race]
      show e.race.or (some true) = some true
      rw [hrace]
      rfl
    · rw [TransactionQueue.takeTurn_executions, hgo]
    · intro run hne
      rw [hcompleted]
      exact Function.update_of_ne hne _ _
    · intro _
      rw [hcompleted, Function.update_self, hassoc]
      exact htally''.congr (views_of_outside _ e.run hpost).1
    · intro _
      obtain ⟨hevents, hrollbacks⟩ := views_of_outside
        (log ++ pre ++ [Effect.emit (e.event .confirmed hash dryRun)]) e.run hpost
      rw [hassoc]
      refine ⟨?_, ?_⟩
      · rw [hevents, eventsOf_event]
        rintro ⟨event, hevent, hfailed⟩
        rcases List.mem_append.mp hevent with hevent | hevent
        · exact hundecided'.unfailed ⟨event, hevent, hfailed⟩
        · rw [List.mem_singleton.mp hevent] at hfailed
          cases hfailed
      · rw [hrollbacks, rollbacksOf_event]
        exact hundecided'.noRollback
  · -- The step fails.
    have hcompleted : (q.takeTurn cfg x e turn b).1.completed = q.completed := by
      apply TransactionQueue.takeTurn_completed
      rcases hnext with hnext | hnext <;> rw [hnext] <;> nofun
    rw [heffects]
    rcases hnext with hnext | hnext
    · have hgo : e.goOn q.steps (q.completed e.run) turn.next =
          e.rollBack q.steps (q.completed e.run).reverse := by
        rw [hnext]
        rfl
      rw [hgo]
      have hsame := e.rollBack_same q.steps (q.completed e.run).reverse
      refine h.fail hx hrace hundecided hpre hsame (e.rollBack_race q.steps _ hmove) ?_ ?_
        (by simp) (by simp) (by simp) hcompleted
      · exact fun log' hout hrolling => rollBack_spec hrolling hout htime hrace
      · rw [TransactionQueue.takeTurn_executions, hgo]
    · have hgo : e.goOn q.steps (q.completed e.run) turn.next =
          e.released.rollBack q.steps (q.completed e.run).reverse := by
        rw [hnext]
        rfl
      rw [hgo]
      have hsame := e.released_rollBack_same q.steps (q.completed e.run).reverse
      refine h.fail hx hrace hundecided hpre hsame (e.released.rollBack_race q.steps _ hmove) ?_ ?_
        (by simp) (by simp) (by simp) hcompleted
      · intro log' hout hrolling
        exact rollBack_spec (e := e.released) hrolling hout rfl hrace
      · rw [TransactionQueue.takeTurn_executions, hgo]
  · rw [htime] at hlate
    cases hlate

/-- The work gives up after its deadline. -/
theorem giveUp (h : Orderly q log) (hx : q.executions[x]? = some e)
    (hactive : e.work.active = true) (hlate : e.timedOut = true) :
    Orderly (q.takeTurn cfg x e (.silent .throw) b).1
      (log ++ (q.takeTurn cfg x e (.silent .throw) b).2) := by
  have hmove : e.race ≠ some true ∧
      Standing log q.steps ({ e with work := .thrown }.settle false) := by
    have hdeadline : ({ e with work := .thrown }.settle false : Execution).deadline = e.deadline :=
      Execution.settle_late false hlate
    have hrace' : ({ e with work := .thrown }.settle false : Execution).race =
        e.race.or (some false) := Execution.settle_race false
    cases h.standing e (mem hx) with
    | working _ htime | rollingBack _ htime =>
      rw [htime] at hlate
      cases hlate
    | late hfired _ hrace hrolling =>
      refine ⟨hrace, .late (hdeadline.trans hfired) (Or.inr (by simp)) ?_ ?_⟩
      · rw [hrace']
        rcases hcase : e.race with _ | ⟨_ | _⟩
        · nofun
        · nofun
        · exact absurd hcase hrace
      · rw [Execution.settle_run]
        exact hrolling
    | failed _ hover hrace hdone =>
      refine ⟨by rw [hrace]; nofun, .failed (Or.inr (by simp)) ?_ ?_ ?_⟩
      · rw [hdeadline]
        exact hover
      · rw [hrace', hrace]
        rfl
      · rw [Execution.settle_run]
        exact hdone
    | completed hwork =>
      rw [hwork] at hactive
      cases hactive
  obtain ⟨hrace, hstanding⟩ := hmove
  have hcompleted : (q.takeTurn cfg x e (.silent .throw) b).1.completed = q.completed :=
    TransactionQueue.takeTurn_completed nofun
  have heffects : log ++ (q.takeTurn cfg x e (.silent .throw) b).2 = log ++ [] := rfl
  rw [heffects]
  have hsame : e.Same ({ e with work := .thrown }.settle false) := ⟨by simp, by simp, by simp⟩
  refine h.move hx hrace hsame ?_ (List.forall_mem_nil _) ?_ ?_ rfl (by simp) (by simp) (by simp)
    (fun _ _ => by rw [hcompleted]) ?_ ?_
  · intro hnone
    rw [Execution.settle_race] at hnone
    exact (Option.or_eq_none_iff.mp hnone).1
  · rw [List.append_nil]
    exact h.outcome
  · rw [List.append_nil]
    exact hstanding
  · intro htally
    rw [List.append_nil, hcompleted]
    exact htally
  · intro hrace'
    rw [Execution.settle_race] at hrace'
    rcases hcase : e.race with _ | ⟨_ | _⟩
    · rw [show ({ e with work := .thrown } : Execution).race = none from hcase] at hrace'
      cases hrace'
    · rw [show ({ e with work := .thrown } : Execution).race = some false from hcase] at hrace'
      cases hrace'
    · exact absurd hcase hrace

/-- An answer reaches an execution, which past its guard has not timed out. -/
theorem answer (h : Orderly q log) {a : Answer} {q' : TransactionQueue} {effects : List Effect}
    (hcond : ∀ e, q.executions[x]? = some e → e.timedOut = true → e.work.atGuard = true)
    (hact : q.answer cfg x a = some (q', effects)) : Orderly q' (log ++ effects) := by
  rw [TransactionQueue.answer] at hact
  cases hx : q.executions[x]? with
  | none =>
    rw [hx] at hact
    cases hact
  | some e =>
    rw [hx] at hact
    simp only at hact
    split at hact
    case h_1 rest hwork =>
      obtain ⟨rfl, rfl⟩ := Prod.mk.inj (Option.some.inj hact)
      cases h.standing e (mem hx) with
      | @rollingBack rest' hwork' htime hrace hrolling =>
        rw [hwork] at hwork'
        obtain rfl := Work.rollingBack.inj hwork'
        obtain ⟨hout, hstanding, hrollbacks⟩ := rollBack_spec hrolling h.outcome htime hrace
        have hmove : e.race ≠ some true := by
          rw [hrace]
          nofun
        exact h.move hx hmove (e.rollBack_same q.steps rest) (fun _ => hrace)
          (of_rollbacks hrollbacks) hout hstanding rfl rfl rfl rfl (fun _ _ => rfl)
          (tally_rollbacks hrollbacks)
          fun hrace' => absurd hrace' (e.rollBack_race q.steps rest hmove)
      | working hactive =>
        rw [hwork] at hactive
        cases hactive
      | late _ hactive =>
        rw [hwork] at hactive
        rcases hactive with hactive | hactive <;> cases hactive
      | failed hactive =>
        rw [hwork] at hactive
        rcases hactive with ⟨hactive, _⟩ | hactive <;> cases hactive
      | completed hreturned =>
        rw [hwork] at hreturned
        cases hreturned
    case h_2 =>
      split at hact
      · cases hact
      · obtain ⟨⟨turn, b'⟩, hrespond, heq⟩ := Option.map_eq_some_iff.mp hact
        obtain ⟨htakes, hactive⟩ := Execution.respond_takes hrespond
        obtain ⟨rfl, rfl⟩ := Prod.mk.inj heq
        cases hlate : e.timedOut with
        | true =>
          obtain rfl := htakes.of_late (hcond e hx hlate) hlate
          show Orderly (q.takeTurn cfg x e (.silent .throw) b').1
            (log ++ (q.takeTurn cfg x e (.silent .throw) b').2)
          exact h.giveUp hx hactive hlate
        | false =>
          cases h.standing e (mem hx) with
          | working _ htime hrace hundecided => exact h.takeTurn hx htakes htime hrace hundecided
          | rollingBack hwork | completed hwork =>
            rw [hwork] at hactive
            cases hactive
          | late hfired =>
            rw [Execution.timedOut, hfired] at hlate
            cases hlate
          | failed hwork =>
            rcases hwork with ⟨_, hover⟩ | hwork
            · rw [Execution.timedOut, hover] at hlate
              cases hlate
            · rw [hwork] at hactive
              cases hactive

end Orderly

/-! ## The steps of a call -/

/-- The call can go on to the step at an index. -/
structure Ready (q : TransactionQueue) (log : List Effect) (i : Nat) : Prop where
  outcome : OneOutcome log
  later : ∀ run, q.calls < run → eventsOf log run = [] ∧ rollbacksOf log run = [] ∧
    q.completed run = [] ∧ ∀ e ∈ q.executions, e.run ≠ run
  standing : ∀ e ∈ q.executions, Standing log q.steps e
  single : ∀ (x y : Nat) (e e' : Execution), q.executions[x]? = some e →
    q.executions[y]? = some e' → x < y → e.run = e'.run → e.race = some true
  settled : ∀ e ∈ q.executions, e.race ≠ none
  passed : ∀ e ∈ q.executions, e.run = q.calls → e.race = some true
  unfailed : ¬HasFailed (eventsOf log q.calls)
  noRollback : rollbacksOf log q.calls = []
  events_lt : ∀ event ∈ eventsOf log q.calls, event.index < i
  tally : Tally log q.steps (q.completed q.calls) q.calls i

/-- A step is begun. -/
theorem Ready.begin {q q' : TransactionQueue} {log : List Effect} {i : Nat} {step : QueueStep}
    {resuming : Bool} {opts : RunOptions} {e e' : Execution} {effects : List Effect}
    (h : Ready q log i) (hstep : q.steps[i]? = some step) (hrun : e.run = q.calls)
    (hindex : e.index = i) (hestep : e.step = step) (hsame : e.Same e')
    (hrace : e'.race ≠ some true)
    (hbegin : ∀ log', OneOutcome log' → Undecided log' e.run e.index →
      Tally log' q.steps (q.completed q.calls) e.run e.index →
      OneOutcome (log' ++ effects) ∧ Standing (log' ++ effects) q.steps e' ∧
        (∀ f ∈ effects, f.Of e.run) ∧
        Tally (log' ++ effects) q.steps (q.completed q.calls) e.run e.index)
    (hq' : q' = { q with executions := q.executions ++ [e'], call := .stepping i resuming opts }) :
    Orderly q' (log ++ Effect.emit (e.event .pending none false) :: effects) := by
  subst hq' hindex hestep
  have hundecided : Undecided log e.run e.index := by
    rw [hrun]
    refine ⟨h.unfailed, ?_, h.noRollback⟩
    intro event hevent _
    exact Nat.ne_of_lt (h.events_lt event hevent)
  have htally : Tally log q.steps (q.completed q.calls) e.run e.index := by
    rw [hrun]
    exact h.tally
  have hmild : ∀ f ∈ [Effect.emit (e.event .pending none false)], f.Mild e := by
    intro f hf
    rw [List.mem_singleton.mp hf]
    exact Or.inr ⟨_, _, rfl, rfl⟩
  obtain ⟨hout, hundecided', htally⟩ := hundecided.mild h.outcome htally hmild
  obtain ⟨hout', hstanding, hof, htally'⟩ := hbegin _ hout hundecided' htally
  have hassoc : log ++ Effect.emit (e.event .pending none false) :: effects =
      log ++ [Effect.emit (e.event .pending none false)] ++ effects := by
    simp only [List.append_assoc, List.singleton_append]
  have hofs : ∀ f ∈ Effect.emit (e.event .pending none false) :: effects, f.Of e.run := by
    intro f hf
    rcases List.mem_cons.mp hf with rfl | hf
    · exact Effect.of_event e .pending none false
    · exact hof f hf
  have hget : ∀ x e₂, (q.executions ++ [e'])[x]? = some e₂ →
      q.executions[x]? = some e₂ ∨ (x = q.executions.length ∧ e₂ = e') := by
    intro x e₂ hx
    rcases Nat.lt_or_ge x q.executions.length with hlt | hge
    · rw [List.getElem?_append_left hlt] at hx
      exact Or.inl hx
    · rw [List.getElem?_append_right hge] at hx
      have hmem := List.mem_singleton.mp (List.mem_of_getElem? hx)
      have hlen := (List.getElem?_eq_some_iff.mp hx).1
      rw [List.length_singleton] at hlen
      exact Or.inr ⟨by omega, hmem⟩
  refine ⟨hassoc ▸ hout', ?_, ?_, ?_, ?_, ?_⟩
  · intro run hunused
    have hlt : q.calls < run := by
      rcases hunused with hlt | ⟨_, hpreparing⟩
      · exact hlt
      · cases hpreparing
    obtain ⟨hevents, hrollbacks, hempty, hfresh⟩ := h.later run hlt
    obtain ⟨hevents', hrollbacks'⟩ := views_of_other log hofs (by omega : run ≠ e.run)
    refine ⟨hevents'.trans hevents, hrollbacks'.trans hrollbacks, hempty, ?_⟩
    intro e₂ hmem
    rcases List.mem_append.mp hmem with hmem | hmem
    · exact hfresh e₂ hmem
    · rw [List.mem_singleton.mp hmem, hsame.run]
      omega
  · intro e₂ hmem
    rcases List.mem_append.mp hmem with hmem | hmem
    · by_cases hcurrent : e₂.run = e.run
      · have hrace := h.passed e₂ hmem (hcurrent.trans hrun)
        cases h.standing e₂ hmem with
        | completed hwork hdeadline _ => exact .completed hwork hdeadline hrace
        | working _ _ hnone | rollingBack _ _ hnone | failed _ _ hnone =>
          rw [hrace] at hnone
          cases hnone
        | late _ _ hnone => exact absurd hrace hnone
      · obtain ⟨hevents, hrollbacks⟩ := views_of_other log hofs hcurrent
        exact (h.standing e₂ hmem).congr hevents hrollbacks fun _ _ => id
    · rw [List.mem_singleton.mp hmem, hassoc]
      exact hstanding
  · intro x y e₂ e₃ hx hy hlt hruns
    rcases hget x e₂ hx with hx' | ⟨rfl, rfl⟩
    · rcases hget y e₃ hy with hy' | ⟨rfl, rfl⟩
      · exact h.single x y e₂ e₃ hx' hy' hlt hruns
      · have hmem : e₂ ∈ q.executions := List.mem_of_getElem? hx'
        exact h.passed e₂ hmem (hruns.trans (hsame.run.trans hrun))
    · have hlen := (List.getElem?_eq_some_iff.mp hy).1
      rw [List.length_append, List.length_singleton] at hlen
      omega
  · intro x e₂ hx hnone
    rcases hget x e₂ hx with hx | ⟨rfl, rfl⟩
    · exact absurd hnone (h.settled e₂ (List.mem_of_getElem? hx))
    · exact ⟨by rw [List.length_append, List.length_singleton], _, _, _, rfl⟩
  · intro i resuming' opts' hcall
    obtain ⟨rfl, _⟩ := Call.stepping.inj hcall
    refine ⟨e', List.getLast?_concat, hsame.run.trans hrun, hsame.index, ?_, ?_,
      fun hrace' => absurd hrace' hrace⟩
    · rw [hsame.step]
      exact hstep
    · rw [hassoc]
      rw [hrun] at htally'
      exact htally'

/-- The loop goes on with the step at the index. -/
theorem Ready.loop {cfg : QueueConfig} {q : TransactionQueue} {log : List Effect} {i : Nat}
    {step : QueueStep} (h : Ready q log i) (hstep : q.steps[i]? = some step) (resuming : Bool)
    (opts : RunOptions) :
    Orderly (q.loop cfg i resuming opts).1 (log ++ (q.loop cfg i resuming opts).2) := by
  have hactive : (q.begin cfg i step opts).work.active = true := by
    rcases q.begin_work cfg i step opts with hwork | hwork <;> rw [hwork] <;> rfl
  have htime := q.begin_timedOut cfg i step opts
  rw [TransactionQueue.loop, hstep]
  rcases q.runStep_cases cfg i step opts with hrun | hrun
  · simp only [hrun]
    refine h.begin hstep rfl rfl rfl ⟨rfl, rfl, rfl⟩ nofun ?_ rfl
    intro log' hout hundecided htally
    rw [List.append_nil]
    exact ⟨hout, .working hactive htime rfl hundecided, List.forall_mem_nil _, htally⟩
  · simp only [hrun]
    refine h.begin hstep rfl rfl rfl (Execution.released_rollBack_same _ _ _)
      (Execution.rollBack_race _ _ _ nofun) ?_ rfl
    intro log' hout hundecided htally
    obtain ⟨hout', htally', hrolling⟩ := hundecided.fails hout htally none false
    obtain ⟨hout'', hstanding, hrollbacks⟩ := rollBack_spec
      (e := (q.begin cfg i step opts).released) hrolling hout' rfl rfl
    rw [← List.singleton_append, ← List.append_assoc]
    refine ⟨hout'', hstanding, ?_, Orderly.tally_rollbacks hrollbacks htally'⟩
    intro f hf
    rcases List.mem_append.mp hf with hf | hf
    · rw [List.mem_singleton.mp hf]
      exact Effect.of_event _ .failed none false
    · exact Orderly.of_rollbacks hrollbacks f hf

namespace Orderly

variable {cfg : QueueConfig} {q q' : TransactionQueue} {log effects : List Effect}

/-- No execution is under way where the call is not at a step. -/
theorem settled_of_call (h : Orderly q log)
    (hcall : ∀ i resuming opts, q.call ≠ .stepping i resuming opts) :
    ∀ e ∈ q.executions, e.race ≠ none := by
  intro e hmem hnone
  obtain ⟨x, hx⟩ := List.getElem?_of_mem hmem
  obtain ⟨_, i, resuming, opts, hstepping⟩ := h.unsettled x e hx hnone
  exact hcall i resuming opts hstepping

theorem settled_of_race (h : Orderly q log) {b : Bool}
    (hrace : q.executions.getLast?.bind Execution.race = some b) :
    ∀ e ∈ q.executions, e.race ≠ none := by
  intro e hmem hnone
  obtain ⟨x, hx⟩ := List.getElem?_of_mem hmem
  obtain ⟨hlast, _⟩ := h.unsettled x e hx hnone
  rw [List.getLast?_eq_getElem?, ← hlast, Nat.add_sub_cancel, hx, Option.bind_some, hnone] at hrace
  cases hrace

/-- After a step that is completed the next one can be begun. -/
theorem ready (h : Orderly q log) {i : Nat} {resuming : Bool} {opts : RunOptions}
    (hcall : q.call = .stepping i resuming opts)
    (hrace : q.executions.getLast?.bind Execution.race = some true) : Ready q log (i + 1) := by
  obtain ⟨e, hlast, hrun, hindex, hstep, htally, hclean⟩ := h.stepping i resuming opts hcall
  rw [hlast, Option.bind_some] at hrace
  obtain ⟨hunfailed, hempty⟩ := hclean hrace
  refine ⟨h.outcome, fun run hlt => h.unused run (Or.inl hlt), h.standing, h.single, ?_, ?_,
    hunfailed, hempty, fun event hevent => Nat.lt_succ_of_le (htally.events_le event hevent),
    ⟨fun event hevent => Nat.le_succ_of_le (htally.events_le event hevent), htally.completed_eq,
      htally.rollbacks⟩⟩
  · apply h.settled_of_race (b := true)
    rw [hlast]
    exact hrace
  · intro e₂ hmem hcurrent
    obtain ⟨x, hx⟩ := List.getElem?_of_mem hmem
    rw [List.getLast?_eq_getElem?] at hlast
    have hlen := (List.getElem?_eq_some_iff.mp hx).1
    by_cases hxlast : x = q.executions.length - 1
    · rw [hxlast, hlast] at hx
      rw [← Option.some.inj hx]
      exact hrace
    · exact h.single x _ e₂ e hx hlast (by omega) (hcurrent.trans hrun.symm)

/-- The first step of a call can be begun. -/
theorem ready_first (h : Orderly q log) (hq : q'.executions = q.executions)
    (hcompleted : q'.completed = q.completed) (hunused : ∀ run, q'.calls ≤ run → q.Unused run)
    (hsettled : ∀ e ∈ q.executions, e.race ≠ none)
    (hstanding : ∀ e ∈ q.executions, Standing log q'.steps e) : Ready q' log 0 := by
  obtain ⟨hevents, hrollbacks, hempty, hfresh⟩ := h.unused q'.calls (hunused _ (Nat.le_refl _))
  refine ⟨h.outcome, ?_, hq ▸ hstanding, hq ▸ h.single, hq ▸ hsettled, ?_, ?_, hrollbacks, ?_,
    ?_, ?_, ?_⟩
  · intro run hlt
    rw [hq, hcompleted]
    exact h.unused run (hunused run (Nat.le_of_lt hlt))
  · intro e hmem hrun
    exact absurd hrun (hfresh e (hq ▸ hmem))
  · rw [hevents]
    rintro ⟨event, hevent, _⟩
    cases hevent
  · rw [hevents]
    nofun
  · rw [hevents]
    nofun
  · rw [hcompleted, hempty, hevents]
    rfl
  · rw [hevents]
    nofun

/-- The call moves where no step is executed. -/
theorem quiet (h : Orderly q log) (hsettled : ∀ e ∈ q.executions, e.race ≠ none)
    (hstanding : ∀ e ∈ q.executions, Standing log q'.steps e)
    (hexecutions : q'.executions = q.executions) (hcompleted : q'.completed = q.completed)
    (hcall : ∀ i resuming opts, q'.call ≠ .stepping i resuming opts)
    (hunused : ∀ run, q'.Unused run → q.Unused run) (houtside : ∀ f ∈ effects, f.Outside) :
    Orderly q' (log ++ effects) := by
  have hviews := fun run => views_of_outside log run houtside
  refine ⟨h.outcome.outside houtside, ?_, ?_, hexecutions ▸ h.single, ?_, ?_⟩
  · intro run hrun
    rw [(hviews run).1, (hviews run).2, hcompleted, hexecutions]
    exact h.unused run (hunused run hrun)
  · intro e hmem
    rw [hexecutions] at hmem
    exact (hstanding e hmem).congr (hviews e.run).1 (hviews e.run).2 fun _ _ => id
  · intro x e hx hnone
    rw [hexecutions] at hx
    exact absurd hnone (hsettled e (List.mem_of_getElem? hx))
  · intro i resuming opts hstepping
    exact absurd hstepping (hcall i resuming opts)

end Orderly

/-! ## What disturbs a call -/

namespace Execution

def rollsBack (e : Execution) : Bool :=
  match e.work with
  | .rollingBack _ => true
  | _ => false

def rollsBackLate (e : Execution) : Bool :=
  match e.deadline with
  | .fired _ => true
  | _ => false

/-- A rollback is outstanding. -/
def outstanding (e : Execution) : Bool := e.rollsBack || e.rollsBackLate

end Execution

namespace TransactionQueue

/-- The call is about to replace `steps`. -/
def replacesSteps (q : TransactionQueue) : Bool :=
  match q.call with
  | .stepping i _ _ =>
    q.executions.getLast?.bind Execution.race == some true && q.steps.length ≤ i + 1
  | .reconciling rows i _ _ => rows.length ≤ i
  | _ => false

/-- No deadline fires while its step rolls back, no work is answered past its guard when its
deadline has fired, and `steps` are not replaced while a deadline rolls back. -/
def undisturbed (q : TransactionQueue) : Action → Bool
  | .timeout x => q.executions[x]?.all fun e => !e.rollsBack
  | .answer x _ => q.executions[x]?.all fun e => !e.timedOut || e.work.atGuard
  | .proceed => !(q.executions.any Execution.rollsBackLate && q.replacesSteps)
  | _ => true

end TransactionQueue

/-- An execution with no rollback outstanding does not look at the steps. -/
theorem Standing.replace {log : List Effect} {steps steps' : List QueueStep} {e : Execution}
    (h : Standing log steps e) (hrace : e.race ≠ none) (hlate : e.rollsBackLate = false) :
    Standing log steps' e := by
  cases h with
  | working _ _ hnone | rollingBack _ _ hnone => exact absurd hnone hrace
  | late hdeadline =>
    rw [Execution.rollsBackLate, hdeadline] at hlate
    cases hlate
  | failed hwork hdeadline hrace hdone => exact .failed hwork hdeadline hrace hdone
  | completed hwork hdeadline hrace => exact .completed hwork hdeadline hrace

namespace Orderly

variable {cfg : QueueConfig} {q q' : TransactionQueue} {log effects : List Effect}

theorem replaced (h : Orderly q log) (hsettled : ∀ e ∈ q.executions, e.race ≠ none)
    (hlate : q.executions.any Execution.rollsBackLate = false) (steps' : List QueueStep) :
    ∀ e ∈ q.executions, Standing log steps' e := by
  intro e hmem
  have hnone := List.any_eq_false.mp hlate e hmem
  exact (h.standing e hmem).replace (hsettled e hmem) (by simpa using hnone)

theorem not_late (hcond : q.undisturbed .proceed = true) (hreplaces : q.replacesSteps = true) :
    q.executions.any Execution.rollsBackLate = false := by
  rw [TransactionQueue.undisturbed, hreplaces, Bool.and_true] at hcond
  simpa using hcond

/-- The call ends, and the adapter is cleared. -/
theorem finish_outside (cfg : QueueConfig) (resuming : Bool) :
    ∀ f ∈ (if cfg.persistence then [Effect.clear] else []) ++
      (if resuming then [Effect.resumed] else []), f.Outside := by
  intro f hf
  rcases List.mem_append.mp hf with hf | hf
  · split at hf
    · rw [List.mem_singleton.mp hf]
      exact fun _ => ⟨rfl, rfl⟩
    · cases hf
  · split at hf
    · rw [List.mem_singleton.mp hf]
      exact fun _ => ⟨rfl, rfl⟩
    · cases hf

theorem single_outside {f : Effect} (h : f.Outside) : ∀ g ∈ [f], g.Outside := by
  intro g hg
  rw [List.mem_singleton.mp hg]
  exact h

theorem enqueue (h : Orderly q log) (xdr : String) (rollback : Bool)
    (stepTimeoutMs : Option Nat) :
    Orderly (q.enqueue cfg xdr rollback stepTimeoutMs).1
      (log ++ (q.enqueue cfg xdr rollback stepTimeoutMs).2) := by
  have hviews := fun run => views_of_outside log run
    (persist_outside cfg (q.enqueue cfg xdr rollback stepTimeoutMs).1.stepStates)
  have hsteps : ∀ (i : Nat) (step : QueueStep), q.steps[i]? = some step →
      (q.enqueue cfg xdr rollback stepTimeoutMs).1.steps[i]? = some step := by
    intro i step hstep
    have hlt := (List.getElem?_eq_some_iff.mp hstep).1
    exact (List.getElem?_append_left hlt).trans hstep
  refine ⟨h.outcome.outside (persist_outside cfg _), ?_, ?_, h.single, h.unsettled, ?_⟩
  · intro run hunused
    obtain ⟨hevents, hrollbacks, hrest⟩ := h.unused run hunused
    exact ⟨(hviews run).1.trans hevents, (hviews run).2.trans hrollbacks, hrest⟩
  · intro e hmem
    exact (h.standing e hmem).congr (hviews e.run).1 (hviews e.run).2 hsteps
  · intro i resuming opts hcall
    obtain ⟨e, hlast, hrun, hindex, hstep, htally, hclean⟩ := h.stepping i resuming opts hcall
    refine ⟨e, hlast, hrun, hindex, hsteps i e.step hstep, ?_, ?_⟩
    · have hsame := htally.congr (hviews q.calls).1
      refine ⟨hsame.events_le, hsame.completed_eq, ?_⟩
      intro event hevent
      obtain ⟨step, hstep', hflag⟩ := hsame.rollbacks event hevent
      exact ⟨step, hsteps event.index step hstep', hflag⟩
    · intro hrace
      obtain ⟨hnone, hempty⟩ := hclean hrace
      refine ⟨?_, (hviews q.calls).2.trans hempty⟩
      intro hfailed
      apply hnone
      rw [← (hviews q.calls).1]
      exact hfailed

theorem run (h : Orderly q log) (hidle : q.call = .idle) (opts : RunOptions) :
    Orderly (q.run cfg opts).1 (log ++ (q.run cfg opts).2) := by
  have hsettled := h.settled_of_call (by rw [hidle]; nofun)
  rw [TransactionQueue.run]
  cases hstep : q.steps[0]? with
  | some step =>
    have hready : Ready { q with submittedHashes := [], calls := q.calls + 1 } log 0 := by
      refine h.ready_first rfl rfl ?_ hsettled h.standing
      exact fun run hle => Or.inl hle
    exact hready.loop hstep false opts
  | none =>
    have hempty : q.steps = [] := by
      rw [List.getElem?_eq_none_iff] at hstep
      exact List.length_eq_zero_iff.mp (by omega)
    rw [TransactionQueue.loop, hstep]
    refine h.quiet hsettled ?_ rfl rfl (fun _ _ _ h => by cases h) ?_ (finish_outside cfg false)
    · intro e hmem
      exact hempty ▸ h.standing e hmem
    · rintro run (hlt | ⟨_, hpreparing⟩)
      · exact Or.inl (Nat.lt_of_succ_lt hlt)
      · cases hpreparing

theorem resume (h : Orderly q log) (hidle : q.call = .idle) (disk : Option Rows)
    (opts : RunOptions) :
    Orderly (q.resume cfg disk opts).1 (log ++ (q.resume cfg disk opts).2) := by
  have hsettled := h.settled_of_call (by rw [hidle]; nofun)
  rw [TransactionQueue.resume]
  split
  · refine h.quiet hsettled h.standing rfl rfl (fun _ _ _ h => by cases h) ?_ (List.forall_mem_nil _)
    rintro run (hlt | ⟨hrun, _⟩)
    · exact Or.inl (Nat.lt_of_succ_lt hlt)
    · exact Or.inl (hrun ▸ Nat.lt_succ_self q.calls)
  · refine h.quiet hsettled h.standing rfl rfl ?_ (fun _ => id)
      (single_outside fun _ => ⟨rfl, rfl⟩)
    intro i resuming opts hcall
    have hcall' : q.call = .stepping i resuming opts := hcall
    rw [hidle] at hcall'
    cases hcall'

/-- While the call prepares it moves on, or ends. -/
theorem prepare (h : Orderly q log) (hpreparing : q.call.preparing = true)
    (hsteps : q'.steps = q.steps) (hexecutions : q'.executions = q.executions)
    (hcompleted : q'.completed = q.completed) (hcalls : q'.calls = q.calls)
    (hcall : ∀ i resuming opts, q'.call ≠ .stepping i resuming opts)
    (houtside : ∀ f ∈ effects, f.Outside) : Orderly q' (log ++ effects) := by
  have hsettled : ∀ e ∈ q.executions, e.race ≠ none := by
    apply h.settled_of_call
    intro i resuming opts hstepping
    rw [hstepping] at hpreparing
    cases hpreparing
  refine h.quiet hsettled (hsteps ▸ h.standing) hexecutions hcompleted hcall ?_ houtside
  rintro run (hlt | ⟨hrun, _⟩)
  · exact Or.inl (hcalls ▸ hlt)
  · exact Or.inr ⟨hcalls ▸ hrun, hpreparing⟩

theorem row_outside (row : PersistedQueueStep) (index : Nat) (status : TxStatus)
    (hash : Option TxHash) : (Effect.emit (row.event index status hash)).Outside := by
  intro run
  exact ⟨rfl, rfl⟩

theorem requeue (h : Orderly q log) (hpreparing : q.call.preparing = true)
    (hlate : q.executions.any Execution.rollsBackLate = false) (unfinished : List QueueStep)
    (opts : RunOptions) :
    Orderly (q.requeue cfg unfinished opts).1 (log ++ (q.requeue cfg unfinished opts).2) := by
  have hsettled : ∀ e ∈ q.executions, e.race ≠ none := by
    apply h.settled_of_call
    intro i resuming opts hstepping
    rw [hstepping] at hpreparing
    cases hpreparing
  have hstanding := h.replaced hsettled hlate unfinished
  rw [TransactionQueue.requeue]
  cases unfinished with
  | nil =>
    refine h.quiet hsettled hstanding rfl rfl (fun _ _ _ h => by cases h) ?_ (single_outside fun _ => ⟨rfl, rfl⟩)
    rintro run (hlt | ⟨_, hidle⟩)
    · exact Or.inl hlt
    · cases hidle
  | cons step rest =>
    have hready : Ready (q.refill (step :: rest)) log 0 := by
      refine h.ready_first rfl rfl ?_ hsettled hstanding
      intro run hle
      rcases Nat.lt_or_eq_of_le hle with hlt | heq
      · exact Or.inl hlt
      · exact Or.inr ⟨heq.symm, hpreparing⟩
    exact hready.loop rfl true opts

theorem reconcile (h : Orderly q log) {rows : Rows} {i : Nat} {unfinished : List QueueStep}
    {opts : RunOptions} (hcall : q.call = .reconciling rows i unfinished opts)
    (hcond : q.undisturbed .proceed = true) :
    Orderly (q.reconcile cfg rows i unfinished opts).1
      (log ++ (q.reconcile cfg rows i unfinished opts).2) := by
  have hpreparing : q.call.preparing = true := by
    rw [hcall]
    rfl
  rw [TransactionQueue.reconcile]
  cases hrow : rows[i]? with
  | none =>
    have hlate := not_late hcond (by
      rw [TransactionQueue.replacesSteps, hcall]
      exact decide_eq_true (List.getElem?_eq_none_iff.mp hrow))
    exact h.requeue hpreparing hlate unfinished opts
  | some row =>
    cases row with
    | none => exact h.prepare hpreparing rfl rfl rfl rfl (fun _ _ _ h => by cases h) (List.forall_mem_nil _)
    | some row =>
      dsimp only
      split
      · split
        · exact h.prepare hpreparing rfl rfl rfl rfl (fun _ _ _ h => by cases h)
            (single_outside (row_outside row i _ _))
        · refine h.prepare hpreparing rfl rfl rfl rfl (fun _ _ _ h => by cases h) ?_
          intro f hf
          rcases List.mem_cons.mp hf with rfl | hf
          · exact row_outside row i _ _
          · rw [List.mem_singleton.mp hf]
            exact row_outside row i _ _
      · exact h.prepare hpreparing rfl rfl rfl rfl (fun _ _ _ h => by cases h) (List.forall_mem_nil _)
      · exact h.prepare hpreparing rfl rfl rfl rfl (fun _ _ _ h => by cases h) (single_outside (row_outside row i _ _))

theorem polled (h : Orderly q log) {a : Answer} (hact : q.polled cfg a = some (q', effects)) :
    Orderly q' (log ++ effects) := by
  rw [TransactionQueue.polled] at hact
  split at hact
  case h_2 => cases hact
  case h_1 rows i attempt unfinished opts hcall =>
    have hpreparing : q.call.preparing = true := by
      rw [hcall]
      rfl
    split at hact
    · cases hact
    · rename_i row hrow
      split at hact
      · obtain ⟨rfl, rfl⟩ := eq_of_some_pair hact
        exact h.prepare hpreparing rfl rfl rfl rfl (fun _ _ _ h => by cases h) (single_outside (row_outside row i _ _))
      · obtain ⟨rfl, rfl⟩ := eq_of_some_pair hact
        exact h.prepare hpreparing rfl rfl rfl rfl (fun _ _ _ h => by cases h) (single_outside (row_outside row i _ _))
      · split at hact
        · obtain ⟨rfl, rfl⟩ := eq_of_some_pair hact
          exact h.prepare hpreparing rfl rfl rfl rfl (fun _ _ _ h => by cases h) (List.forall_mem_nil _)
        · obtain ⟨rfl, rfl⟩ := eq_of_some_pair hact
          exact h.prepare hpreparing rfl rfl rfl rfl (fun _ _ _ h => by cases h)
            (single_outside (row_outside row i _ _))
      · cases hact

theorem proceed (h : Orderly q log) (hcond : q.undisturbed .proceed = true)
    (hact : q.proceed cfg = some (q', effects)) : Orderly q' (log ++ effects) := by
  rw [TransactionQueue.proceed] at hact
  split at hact
  case h_1 state opts hcall =>
    obtain ⟨rfl, rfl⟩ := eq_of_some_pair hact
    exact h.prepare (by rw [hcall]; rfl) rfl rfl rfl rfl (fun _ _ _ h => by cases h)
      (single_outside fun _ => ⟨rfl, rfl⟩)
  case h_2 hcall | h_3 hcall =>
    obtain ⟨rfl, rfl⟩ := eq_of_some_pair hact
    exact h.prepare (by rw [hcall]; rfl) rfl rfl rfl rfl (fun _ _ _ h => by cases h)
      (single_outside fun _ => ⟨rfl, rfl⟩)
  case h_4 rows opts _ hcall =>
    obtain ⟨rfl, rfl⟩ := eq_of_some_pair hact
    exact h.prepare (by rw [hcall]; rfl) rfl rfl rfl rfl (fun _ _ _ h => by cases h) (List.forall_mem_nil _)
  case h_5 rows i unfinished opts hcall =>
    obtain ⟨rfl, rfl⟩ := eq_of_some_pair hact
    exact h.reconcile hcall hcond
  case h_6 i resuming opts hcall =>
    split at hact
    · rename_i hrace
      obtain ⟨rfl, rfl⟩ := eq_of_some_pair hact
      cases hstep : q.steps[i + 1]? with
      | some step => exact (h.ready hcall hrace).loop hstep resuming opts
      | none =>
        have hsettled := h.settled_of_race hrace
        have hlate := not_late hcond (by
          rw [TransactionQueue.replacesSteps, hcall, hrace]
          exact decide_eq_true (List.getElem?_eq_none_iff.mp hstep))
        rw [TransactionQueue.loop, hstep]
        refine h.quiet hsettled (h.replaced hsettled hlate []) rfl rfl (fun _ _ _ h => by cases h) ?_
          (finish_outside cfg resuming)
        rintro run (hlt | ⟨_, hidle⟩)
        · exact Or.inl hlt
        · cases hidle
    · rename_i hrace
      obtain ⟨rfl, rfl⟩ := eq_of_some_pair hact
      refine h.quiet (h.settled_of_race hrace) h.standing rfl rfl (fun _ _ _ h => by cases h) ?_ (List.forall_mem_nil _)
      rintro run (hlt | ⟨_, hidle⟩)
      · exact Or.inl hlt
      · cases hidle
    · cases hact
  case h_7 => cases hact

theorem act (h : Orderly q log) {disk : Option Rows} {a : Action}
    (hcond : q.undisturbed a = true) (hact : q.act cfg disk a = some (q', effects)) :
    Orderly q' (log ++ effects) := by
  cases a with
  | enqueue xdr rollback stepTimeoutMs =>
    obtain ⟨rfl, rfl⟩ := eq_of_some_pair hact
    exact h.enqueue xdr rollback stepTimeoutMs
  | run opts =>
    rw [TransactionQueue.act] at hact
    split at hact
    · obtain ⟨rfl, rfl⟩ := eq_of_some_pair hact
      exact h.run ‹_› opts
    · cases hact
  | resume opts =>
    rw [TransactionQueue.act] at hact
    split at hact
    · obtain ⟨rfl, rfl⟩ := eq_of_some_pair hact
      exact h.resume ‹_› disk opts
    · cases hact
  | proceed => exact h.proceed hcond hact
  | polled a => exact h.polled hact
  | answer x a =>
    refine h.answer ?_ hact
    intro e hx hlate
    rw [TransactionQueue.undisturbed, hx] at hcond
    have hcond' : (!e.timedOut || e.work.atGuard) = true := hcond
    rw [hlate] at hcond'
    exact hcond'
  | timeout x =>
    refine h.timeout ?_ hact
    intro e hx rest hwork
    rw [TransactionQueue.undisturbed, hx] at hcond
    have hcond' : (!e.rollsBack) = true := hcond
    rw [Execution.rollsBack, hwork] at hcond'
    cases hcond'
  | rolledBack x => exact h.rolledBack hact

end Orderly

/-! ## All runs -/

/-- A process that has just begun. -/
theorem Orderly.new {log : List Effect} (nextId : Nat) {calls : Nat} (houtcome : OneOutcome log)
    (hlater : ∀ run, calls < run → eventsOf log run = [] ∧ rollbacksOf log run = []) :
    Orderly (.new nextId calls) log := by
  refine ⟨houtcome, ?_, fun e hmem => absurd hmem List.not_mem_nil,
    fun x _ e _ hx => absurd hx (executions_nil x e),
    fun x e hx => absurd hx (executions_nil x e), fun _ _ _ h => by cases h⟩
  rintro run (hlt | ⟨_, hidle⟩)
  · obtain ⟨hevents, hrollbacks⟩ := hlater run hlt
    exact ⟨hevents, hrollbacks, rfl, fun e hmem => absurd hmem List.not_mem_nil⟩
  · cases hidle

namespace QueueWorld

variable {cfg : QueueConfig} {w w' : QueueWorld}

/-- The condition on a step of a run. -/
def Undisturbed (w : QueueWorld) : Label → Prop
  | .act action | .crashIn action _ _ => w.queue.undisturbed action = true
  | .crash _ => True

instance (w : QueueWorld) (l : Label) : Decidable (w.Undisturbed l) := by
  cases l <;> rw [Undisturbed] <;> infer_instance

def Orderly (w : QueueWorld) : Prop := Sdk.Orderly w.queue w.log

theorem Orderly.restart (houtcome : OneOutcome w.log) (hlater : ∀ run, w.queue.calls < run →
    eventsOf w.log run = [] ∧ rollbacksOf w.log run = []) (opts : RunOptions) :
    (w.restart cfg opts).Orderly := by
  have hcrash : ∀ f ∈ [Effect.crash w.queue.nextId], f.Outside :=
    Sdk.Orderly.single_outside fun _ => ⟨rfl, rfl⟩
  have hnew : Sdk.Orderly (.new w.queue.nextId w.queue.calls)
      (w.log ++ [Effect.crash w.queue.nextId]) := by
    refine Sdk.Orderly.new _ (houtcome.outside hcrash) ?_
    intro run hlt
    obtain ⟨hevents, hrollbacks⟩ := views_of_outside w.log run hcrash
    rw [hevents, hrollbacks]
    exact hlater run hlt
  have hlog : (w.restart cfg opts).log = w.log ++ [Effect.crash w.queue.nextId] ++
      ((TransactionQueue.new w.queue.nextId w.queue.calls).resume cfg w.disk opts).2 := by
    rw [List.append_assoc, List.singleton_append]
    rfl
  rw [Orderly, hlog]
  exact hnew.resume rfl w.disk opts

theorem Orderly.step (h : w.Orderly) {l : Label} (hcond : w.Undisturbed l)
    (hnext : w.next cfg l = some w') : w'.Orderly := by
  cases l with
  | act action =>
    obtain ⟨⟨q, effects⟩, hact, rfl⟩ := Option.map_eq_some_iff.mp hnext
    exact Sdk.Orderly.act h hcond hact
  | crash opts =>
    obtain rfl := Option.some.inj hnext
    refine Orderly.restart h.outcome ?_ opts
    intro run hlt
    obtain ⟨hevents, hrollbacks, _⟩ := h.unused run (Or.inl hlt)
    exact ⟨hevents, hrollbacks⟩
  | crashIn action k opts =>
    obtain ⟨⟨q, effects⟩, hact, rfl⟩ := Option.map_eq_some_iff.mp hnext
    -- What is told before the crash is the beginning of what the whole action tells.
    have hafter := Sdk.Orderly.act h hcond hact
    have hsplit : w.log ++ effects =
        w.log ++ effects.take (k + 1) ++ effects.drop (k + 1) := by
      rw [List.append_assoc, List.take_append_drop]
    refine Orderly.restart ?_ ?_ opts
    · have houtcome := hafter.outcome
      rw [hsplit] at houtcome
      exact houtcome.of_append
    · intro run hlt
      obtain ⟨hevents, hrollbacks, _⟩ := hafter.unused run (Or.inl hlt)
      rw [hsplit, eventsOf_append] at hevents
      rw [hsplit, rollbacksOf_append] at hrollbacks
      exact ⟨(List.append_eq_nil_iff.mp hevents).1, (List.append_eq_nil_iff.mp hrollbacks).1⟩

theorem Orderly.initial : QueueWorld.initial.Orderly :=
  Sdk.Orderly.new 0 OneOutcome.nil fun _ _ => ⟨rfl, rfl⟩

end QueueWorld

/-- However timers, signer, RPC and crashes come in between: in a run that nothing disturbs every
step has one outcome, nothing follows a failure, the rollbacks are those that are due, in
reverse, and all of them are called where a step has failed and none is outstanding. -/
theorem steps_have_one_outcome {cfg : QueueConfig} {labels : List QueueWorld.Label}
    {w : QueueWorld} (h : Run (Run.Guarded (StepOf (QueueWorld.next cfg)) QueueWorld.Undisturbed)
      QueueWorld.initial labels w) :
    OneOutcome w.log ∧ ∀ e ∈ w.queue.executions, e.race = some false → e.outstanding = false →
      rollbacksOf w.log e.run = due (eventsOf w.log e.run) := by
  have horderly : w.Orderly :=
    h.invariant (fun _ _ _ hw hstep => hw.step hstep.2 hstep.1) QueueWorld.Orderly.initial
  refine ⟨horderly.outcome, ?_⟩
  intro e hmem hrace hnone
  obtain ⟨_, hlate⟩ := Bool.or_eq_false_iff.mp hnone
  cases horderly.standing e hmem with
  | failed _ _ _ hdone => exact hdone.all
  | late hfired =>
    rw [Execution.rollsBackLate, hfired] at hlate
    cases hlate
  | working _ _ hopen | rollingBack _ _ hopen | completed _ _ hopen =>
    rw [hrace] at hopen
    cases hopen

/-- Two steps of which the second is not signed. -/
def failedRun : List QueueWorld.Label :=
  [QueueWorld.Label.act (.enqueue "first" true none), .act (.enqueue "second" false none),
    .act (.run plainOptions)] ++ confirmed 0 ++
    [QueueWorld.Label.act (.answer 1 (.signed false)), .act (.answer 1 .rolledBack), .act .proceed]

theorem steps_have_one_outcome_failed : ∃ w : QueueWorld,
    (OneOutcome w.log ∧ ∀ e ∈ w.queue.executions, e.race = some false → e.outstanding = false →
      rollbacksOf w.log e.run = due (eventsOf w.log e.run)) ∧ rollbacksOf w.log 1 = [0] := by
  obtain ⟨w, hw⟩ := Option.isSome_iff_exists.mp (by decide :
    (walk (restrict (QueueWorld.next plainConfig) QueueWorld.Undisturbed) failedRun
      QueueWorld.initial).isSome = true)
  have hrollbacks : (walk (restrict (QueueWorld.next plainConfig) QueueWorld.Undisturbed) failedRun
      QueueWorld.initial).map (fun w => rollbacksOf w.log 1) = some [0] := by decide
  rw [hw] at hrollbacks
  exact ⟨w, steps_have_one_outcome (guarded_of_walk hw), Option.some.inj hrollbacks⟩

/-- The deadline of the only step fires while it is signed, and the step goes on. -/
def lateRun : List QueueWorld.Label :=
  [QueueWorld.Label.act (.enqueue "step" false (some 50)), .act (.run plainOptions),
    .act (.timeout 0)] ++ submitted 0 ++ [QueueWorld.Label.act (.answer 0 (.found true))]

/-- A step that has failed is confirmed after that. -/
theorem confirmed_after_failed : ∃ w : QueueWorld,
    Run (StepOf (QueueWorld.next plainConfig)) QueueWorld.initial lateRun w ∧
      (eventsOf w.log 1).map (fun event => event.status) =
        [.pending, .failed, .simulated, .submitted, .confirmed] ∧ ¬OneOutcome w.log := by
  obtain ⟨w, hw⟩ := Option.isSome_iff_exists.mp (by decide :
    (walk (QueueWorld.next plainConfig) lateRun QueueWorld.initial).isSome = true)
  have hstatuses : (walk (QueueWorld.next plainConfig) lateRun QueueWorld.initial).map
      (fun w => (eventsOf w.log 1).map fun event => event.status) =
        some [.pending, .failed, .simulated, .submitted, .confirmed] := by decide
  have hcount : (walk (QueueWorld.next plainConfig) lateRun QueueWorld.initial).map
      (fun w => (eventsOf w.log 1).countP fun event =>
        decide (event.index = 0) && event.status.terminal) = some 2 := by decide
  rw [hw] at hstatuses hcount
  refine ⟨w, run_of_walk hw, Option.some.inj hstatuses, ?_⟩
  intro houtcome
  have honce := houtcome.once 1 0
  have htwo : ((eventsOf w.log 1).countP fun event =>
    decide (event.index = 0) && event.status.terminal) = 2 := Option.some.inj hcount
  omega

end Sdk
end Linkora
