import Linkora.Sdk.QueueLog

/-!
# How the executions of a call stand

An execution works on its step, or rolls back, or its deadline does, or it is through; what
its turns and its deadline make of that, and of the log.
-/

namespace Linkora
namespace Sdk

/-! ## Rollbacks -/

/-- A call has failed, and the rollbacks of `rest` are those that are still due. -/
structure Rolling (log : List Effect) (steps : List QueueStep) (run : Nat) (rest : List Nat) :
    Prop where
  failed : HasFailed (eventsOf log run)
  left : ∃ events : List TxStatusEvent, rest = events.map (fun event => event.index) ∧
    rollbacksOf log run ++ withRollback events = due (eventsOf log run) ∧
    ∀ event ∈ events, ∃ step, steps[event.index]? = some step ∧ step.rollback = event.rollback

/-- A call has failed, and what is due is rolled back. -/
structure RolledBack (log : List Effect) (run : Nat) : Prop where
  failed : HasFailed (eventsOf log run)
  all : rollbacksOf log run = due (eventsOf log run)

theorem withRollback_cons (event : TxStatusEvent) (events : List TxStatusEvent) :
    withRollback (event :: events) =
      if event.rollback = true then event.index :: withRollback events
      else withRollback events := by
  rw [withRollback, List.filter_cons]
  split <;> rfl

/-- The next rollback is the first of those that are left. -/
theorem rollbackFrom_spec {steps : List QueueStep} {events : List TxStatusEvent}
    (h : ∀ event ∈ events, ∃ step, steps[event.index]? = some step ∧
      step.rollback = event.rollback) :
    (rollbackFrom steps (events.map fun event => event.index) = none ∧ withRollback events = []) ∨
      ∃ i events', rollbackFrom steps (events.map fun event => event.index) =
          some (i, events'.map fun event => event.index) ∧
        withRollback events = i :: withRollback events' ∧ ∀ event ∈ events', event ∈ events := by
  induction events with
  | nil => exact Or.inl ⟨rfl, rfl⟩
  | cons event events ih =>
    obtain ⟨step, hstep, hflag⟩ := h event List.mem_cons_self
    rw [List.map_cons, rollbackFrom, hstep, withRollback_cons]
    cases hrollback : event.rollback with
    | true =>
      simp only [hflag, hrollback, if_true]
      exact Or.inr ⟨event.index, events, rfl, rfl, fun _ => List.mem_cons_of_mem event⟩
    | false =>
      simp only [hflag, hrollback, Bool.false_eq_true, if_false]
      rcases ih fun event' hmem => h event' (List.mem_cons_of_mem event hmem) with
        hnone | ⟨i, events', hsome, heq, hmem⟩
      · exact Or.inl hnone
      · exact Or.inr ⟨i, events', hsome, heq, fun e he => List.mem_cons_of_mem event (hmem e he)⟩

theorem Rolling.next {log : List Effect} {steps : List QueueStep} {run : Nat} {rest : List Nat}
    (h : Rolling log steps run rest) :
    (rollbackFrom steps rest = none ∧ RolledBack log run) ∨
      ∃ i rest', rollbackFrom steps rest = some (i, rest') ∧ Allowed log (.rollback run i) ∧
        Rolling (log ++ [Effect.rollback run i]) steps run rest' := by
  obtain ⟨hfailed, events, rfl, hdue, hflags⟩ := h
  rcases rollbackFrom_spec hflags with ⟨hnone, hempty⟩ | ⟨i, events', hsome, heq, hmem⟩
  · rw [hempty, List.append_nil] at hdue
    exact Or.inl ⟨hnone, hfailed, hdue⟩
  · have hevents : eventsOf (log ++ [Effect.rollback run i]) run = eventsOf log run := by
      rw [eventsOf_append, eventsOf_unseen rfl, eventsOf_nil, List.append_nil]
    have hsplit : rollbacksOf log run ++ [i] ++ withRollback events' = due (eventsOf log run) := by
      rw [← hdue, heq, List.append_assoc]
      rfl
    refine Or.inr ⟨i, _, hsome, ⟨hfailed, ⟨withRollback events', hsplit⟩⟩, ?_⟩
    refine ⟨by rw [hevents]; exact hfailed, events', rfl, ?_, fun e he => hflags e (hmem e he)⟩
    rw [hevents, rollbacksOf_append, rollbacksOf_rollback, if_pos rfl]
    exact hsplit

/-! ## The executions -/

/-- The step of an execution has no outcome yet, and its call has not failed. -/
structure Undecided (log : List Effect) (run index : Nat) : Prop where
  unfailed : ¬HasFailed (eventsOf log run)
  noOutcome : ∀ event ∈ eventsOf log run, event.status.terminal = true → event.index ≠ index
  noRollback : rollbacksOf log run = []

/-- How an execution stands. -/
inductive Standing (log : List Effect) (steps : List QueueStep) (e : Execution) : Prop where
  | working (hwork : e.work.active = true) (htime : e.timedOut = false) (hrace : e.race = none)
      (hundecided : Undecided log e.run e.index)
  | rollingBack {rest : List Nat} (hwork : e.work = .rollingBack rest) (htime : e.timedOut = false)
      (hrace : e.race = none) (hrolling : Rolling log steps e.run rest)
  | late {rest : List Nat} (hdeadline : e.deadline = .fired rest)
      (hwork : e.work.active = true ∨ e.work = .thrown) (hrace : e.race ≠ some true)
      (hrolling : Rolling log steps e.run rest)
  | failed (hwork : e.work.active = true ∧ e.deadline = .over ∨ e.work = .thrown)
      (hdeadline : e.deadline = .none ∨ e.deadline = .over) (hrace : e.race = some false)
      (hdone : RolledBack log e.run)
  | completed (hwork : e.work = .returned) (hdeadline : e.deadline = .none)
      (hrace : e.race = some true)

theorem Standing.congr {log log' : List Effect} {steps steps' : List QueueStep} {e : Execution}
    (h : Standing log steps e) (hevents : eventsOf log' e.run = eventsOf log e.run)
    (hrollbacks : rollbacksOf log' e.run = rollbacksOf log e.run)
    (hsteps : ∀ (i : Nat) (step : QueueStep), steps[i]? = some step → steps'[i]? = some step) :
    Standing log' steps' e := by
  have hrolling : ∀ rest, Rolling log steps e.run rest → Rolling log' steps' e.run rest := by
    rintro rest ⟨hfailed, events, hrest, hdue, hflags⟩
    refine ⟨hevents ▸ hfailed, events, hrest, by rw [hevents, hrollbacks]; exact hdue, ?_⟩
    intro event hevent
    obtain ⟨step, hstep, hflag⟩ := hflags event hevent
    exact ⟨step, hsteps _ _ hstep, hflag⟩
  cases h with
  | working hwork htime hrace hopen =>
    refine .working hwork htime hrace ⟨?_, ?_, ?_⟩
    · rw [hevents]
      exact hopen.unfailed
    · rw [hevents]
      exact hopen.noOutcome
    · rw [hrollbacks]
      exact hopen.noRollback
  | rollingBack hwork htime hrace hrest => exact .rollingBack hwork htime hrace (hrolling _ hrest)
  | late hdeadline hwork hrace hrest => exact .late hdeadline hwork hrace (hrolling _ hrest)
  | failed hwork hdeadline hrace hdone =>
    refine .failed hwork hdeadline hrace ⟨?_, ?_⟩
    · rw [hevents]
      exact hdone.failed
    · rw [hevents, hrollbacks]
      exact hdone.all
  | completed hwork hdeadline hrace => exact .completed hwork hdeadline hrace

section Chains

variable {log : List Effect} {steps : List QueueStep} {e : Execution} {rest : List Nat}

/-- The work rolls back, or throws when nothing is left. -/
theorem rollBack_spec (h : Rolling log steps e.run rest) (hout : OneOutcome log)
    (htime : e.timedOut = false) (hrace : e.race = none) :
    OneOutcome (log ++ (e.rollBack steps rest).2) ∧
      Standing (log ++ (e.rollBack steps rest).2) steps (e.rollBack steps rest).1 ∧
      ∀ f ∈ (e.rollBack steps rest).2, ∃ i, f = .rollback e.run i := by
  rw [Execution.rollBack]
  rcases h.next with ⟨hnone, hdone⟩ | ⟨i, rest', hsome, hallowed, hrolling⟩
  · rw [hnone, List.append_nil]
    refine ⟨hout, .failed (Or.inr (by simp)) (Or.inl ?_)
      (by simp [Execution.settle_race, hrace]) ?_, List.forall_mem_nil _⟩
    · exact Execution.settle_deadline false hrace htime
    · rw [Execution.settle_run]
      exact hdone
  · rw [hsome]
    refine ⟨hout.snoc hallowed, .rollingBack rfl htime hrace hrolling, ?_⟩
    intro f hf
    exact ⟨i, List.mem_singleton.mp hf⟩

/-- The deadline rolls back, or throws when nothing is left. -/
theorem rollBackLate_spec (h : Rolling log steps e.run rest) (hout : OneOutcome log)
    (hwork : e.work.active = true ∨ e.work = .thrown) (hrace : e.race ≠ some true) :
    OneOutcome (log ++ (e.rollBackLate steps rest).2) ∧
      Standing (log ++ (e.rollBackLate steps rest).2) steps (e.rollBackLate steps rest).1 ∧
      (∀ f ∈ (e.rollBackLate steps rest).2, ∃ i, f = .rollback e.run i) ∧
      ((e.rollBackLate steps rest).1.race = none → e.race = none) := by
  rw [Execution.rollBackLate]
  rcases h.next with ⟨hnone, hdone⟩ | ⟨i, rest', hsome, hallowed, hrolling⟩
  · rw [hnone, List.append_nil]
    have hrace' : (Execution.settle false { e with deadline := .over }).race = some false := by
      rw [Execution.settle_race]
      rcases hcase : e.race with _ | ⟨_ | _⟩
      · rfl
      · rfl
      · exact absurd hcase hrace
    have hover : (Execution.settle false { e with deadline := .over }).deadline = .over :=
      Execution.settle_late false rfl
    refine ⟨hout, .failed ?_ (Or.inr hover) hrace' ?_, List.forall_mem_nil _, ?_⟩
    · rw [Execution.settle_work, hover]
      rcases hwork with hwork | hwork
      · exact Or.inl ⟨hwork, rfl⟩
      · exact Or.inr hwork
    · rw [Execution.settle_run]
      exact hdone
    · intro hnone'
      rw [hrace'] at hnone'
      cases hnone'
  · rw [hsome]
    refine ⟨hout.snoc hallowed, .late rfl hwork hrace hrolling, ?_, id⟩
    intro f hf
    exact ⟨i, List.mem_singleton.mp hf⟩

end Chains

/-! ## The calls -/

/-- The call looks at what is stored, and executes no steps yet. -/
def Call.preparing : Call → Bool
  | .loading _ _ | .clearing _ _ | .reconciling _ _ _ _ | .polling _ _ _ _ _ => true
  | _ => false

/-- No step was executed for the call. -/
def TransactionQueue.Unused (q : TransactionQueue) (run : Nat) : Prop :=
  q.calls < run ∨ run = q.calls ∧ q.call.preparing = true

/-- The completed steps of a call are those that the log tells of. -/
structure Tally (log : List Effect) (steps : List QueueStep) (completed : List Nat)
    (run i : Nat) : Prop where
  events_le : ∀ event ∈ eventsOf log run, event.index ≤ i
  completed_eq : completed = (completedOf (eventsOf log run)).map fun event => event.index
  rollbacks : ∀ event ∈ completedOf (eventsOf log run),
    ∃ step, steps[event.index]? = some step ∧ step.rollback = event.rollback

theorem Tally.congr {log log' : List Effect} {steps : List QueueStep} {completed : List Nat}
    {run i : Nat} (h : Tally log steps completed run i)
    (hevents : eventsOf log' run = eventsOf log run) : Tally log' steps completed run i := by
  refine ⟨?_, ?_, ?_⟩
  · rw [hevents]
    exact h.events_le
  · rw [hevents]
    exact h.completed_eq
  · rw [hevents]
    exact h.rollbacks

/-- No step of the call has failed. -/
structure Unfailed (log : List Effect) (run : Nat) : Prop where
  unfailed : ¬HasFailed (eventsOf log run)
  noRollback : rollbacksOf log run = []

structure Orderly (q : TransactionQueue) (log : List Effect) : Prop where
  outcome : OneOutcome log
  unused : ∀ run, q.Unused run → eventsOf log run = [] ∧ rollbacksOf log run = [] ∧
    q.completed run = [] ∧ ∀ e ∈ q.executions, e.run ≠ run
  standing : ∀ e ∈ q.executions, Standing log q.steps e
  single : ∀ (x y : Nat) (e e' : Execution), q.executions[x]? = some e →
    q.executions[y]? = some e' → x < y → e.run = e'.run → e.race = some true
  unsettled : ∀ (x : Nat) (e : Execution), q.executions[x]? = some e → e.race = none →
    x + 1 = q.executions.length ∧ ∃ i resuming opts, q.call = .stepping i resuming opts
  stepping : ∀ i resuming opts, q.call = .stepping i resuming opts →
    ∃ e, q.executions.getLast? = some e ∧ e.run = q.calls ∧ e.index = i ∧
      q.steps[i]? = some e.step ∧ Tally log q.steps (q.completed q.calls) q.calls i ∧
      (e.race = some true → Unfailed log q.calls)

theorem Tally.rolling {log : List Effect} {steps : List QueueStep} {completed : List Nat}
    {run i : Nat} (h : Tally log steps completed run i) (hfailed : HasFailed (eventsOf log run))
    (hnone : rollbacksOf log run = []) : Rolling log steps run completed.reverse := by
  refine ⟨hfailed, (completedOf (eventsOf log run)).reverse, ?_, ?_, ?_⟩
  · rw [h.completed_eq, List.map_reverse]
  · rw [hnone]
    rfl
  · intro event hevent
    exact h.rollbacks event (List.mem_reverse.mp hevent)

namespace Orderly

variable {q q' : TransactionQueue} {log effects : List Effect} {x : Nat} {e e' : Execution}

theorem not_unused (h : Orderly q log) (hx : q.executions[x]? = some e) : ¬q.Unused e.run := by
  intro hunused
  exact (h.unused e.run hunused).2.2.2 e (List.mem_of_getElem? hx) rfl

/-- Other executions of the same call are completed. -/
theorem completed_of_ne (h : Orderly q log) (hx : q.executions[x]? = some e)
    (hrace : e.race ≠ some true) {y : Nat} {e₂ : Execution} (hy : q.executions[y]? = some e₂)
    (hne : y ≠ x) (hrun : e₂.run = e.run) : e₂.work = .returned ∧ e₂.deadline = .none ∧
      e₂.race = some true := by
  have hrace₂ : e₂.race = some true := by
    rcases Nat.lt_or_gt_of_ne hne with hlt | hlt
    · exact h.single y x e₂ e hy hx hlt hrun
    · exact absurd (h.single x y e e₂ hx hy hlt hrun.symm) hrace
  cases h.standing e₂ (List.mem_of_getElem? hy) with
  | completed hwork hdeadline _ => exact ⟨hwork, hdeadline, hrace₂⟩
  | working _ _ hnone | rollingBack _ _ hnone =>
    rw [hrace₂] at hnone
    cases hnone
  | late _ _ hnone => exact absurd hrace₂ hnone
  | failed _ _ hnone =>
    rw [hrace₂] at hnone
    cases hnone

/-- Only the last execution of the latest call has no success yet. -/
theorem last_of_current (h : Orderly q log) (hx : q.executions[x]? = some e)
    (hrace : e.race ≠ some true) (hrun : e.run = q.calls) {i : Nat} {resuming : Bool}
    {opts : RunOptions} (hcall : q.call = .stepping i resuming opts) :
    x + 1 = q.executions.length := by
  obtain ⟨e₂, hlast, hrun₂, _⟩ := h.stepping i resuming opts hcall
  have hlen : x < q.executions.length := (List.getElem?_eq_some_iff.mp hx).1
  rw [List.getLast?_eq_getElem?] at hlast
  by_contra hne
  exact hrace (h.single x _ e e₂ hx hlast (by omega) (hrun.trans hrun₂.symm))

theorem getLast?_set (hx : q.executions[x]? = some e) :
    (q.executions.set x e').getLast? =
      if x + 1 = q.executions.length then some e' else q.executions.getLast? := by
  have hlen : x < q.executions.length := (List.getElem?_eq_some_iff.mp hx).1
  rw [List.getLast?_eq_getElem?, List.getLast?_eq_getElem?, List.length_set, List.getElem?_set]
  by_cases hlast : x + 1 = q.executions.length
  · rw [if_pos hlast, if_pos (by omega), if_pos (by omega)]
  · rw [if_neg hlast, if_neg (by omega)]

/-- An execution that has had no success yet moves. -/
theorem move (h : Orderly q log) (hx : q.executions[x]? = some e) (hrace : e.race ≠ some true)
    (hsame : e.Same e') (hkeep : e'.race = none → e.race = none)
    (hof : ∀ f ∈ effects, f.Of e.run) (hout : OneOutcome (log ++ effects))
    (hstanding : Standing (log ++ effects) q.steps e')
    (hexecutions : q'.executions = q.executions.set x e') (hsteps : q'.steps = q.steps)
    (hcall : q'.call = q.call) (hcalls : q'.calls = q.calls)
    (hcompleted : ∀ run, run ≠ e.run → q'.completed run = q.completed run)
    (htally : Tally log q.steps (q.completed e.run) e.run e.index →
      Tally (log ++ effects) q.steps (q'.completed e.run) e.run e.index)
    (hunfailed : e'.race = some true → Unfailed (log ++ effects) e.run) :
    Orderly q' (log ++ effects) := by
  have hget : ∀ y, (q.executions.set x e')[y]? = if x = y then some e' else q.executions[y]? := by
    intro y
    rw [List.getElem?_set]
    by_cases hxy : x = y
    · rw [if_pos hxy, if_pos hxy, if_pos (hxy ▸ (List.getElem?_eq_some_iff.mp hx).1)]
    · rw [if_neg hxy, if_neg hxy]
  refine ⟨hout, ?_, ?_, ?_, ?_, ?_⟩
  · intro run hunused
    have hunused' : q.Unused run := by
      rw [TransactionQueue.Unused, hcalls, hcall] at hunused
      exact hunused
    obtain ⟨hevents, hrollbacks, hempty, hfresh⟩ := h.unused run hunused'
    have hne : run ≠ e.run := fun heq => h.not_unused hx (heq ▸ hunused')
    obtain ⟨hevents', hrollbacks'⟩ := views_of_other log hof hne
    refine ⟨hevents'.trans hevents, hrollbacks'.trans hrollbacks,
      (hcompleted run hne).trans hempty, ?_⟩
    intro e₂ hmem
    rw [hexecutions] at hmem
    rcases List.mem_or_eq_of_mem_set hmem with hmem | rfl
    · exact hfresh e₂ hmem
    · rw [hsame.run]
      exact Ne.symm hne
  · intro e₂ hmem
    rw [hexecutions] at hmem
    obtain ⟨y, hy⟩ := List.getElem?_of_mem hmem
    rw [hget] at hy
    rw [hsteps]
    by_cases hxy : x = y
    · rw [if_pos hxy] at hy
      rw [← Option.some.inj hy]
      exact hstanding
    · rw [if_neg hxy] at hy
      by_cases hrun : e₂.run = e.run
      · obtain ⟨hwork, hdeadline, hdone⟩ := h.completed_of_ne hx hrace hy (Ne.symm hxy) hrun
        exact .completed hwork hdeadline hdone
      · obtain ⟨hevents, hrollbacks⟩ := views_of_other log hof hrun
        exact (h.standing e₂ (List.mem_of_getElem? hy)).congr hevents hrollbacks fun _ _ => id
  · intro y z e₂ e₃ hy hz hlt hrun
    rw [hexecutions, hget] at hy hz
    by_cases hxy : x = y
    · rw [if_pos hxy] at hy
      rw [if_neg (by omega)] at hz
      obtain rfl := Option.some.inj hy
      exact absurd (h.single x z e e₃ hx hz (by omega) (hsame.run.symm.trans hrun)) hrace
    · rw [if_neg hxy] at hy
      by_cases hxz : x = z
      · rw [if_pos hxz] at hz
        obtain rfl := Option.some.inj hz
        exact h.single y x e₂ e hy hx (by omega) (hrun.trans hsame.run)
      · rw [if_neg hxz] at hz
        exact h.single y z e₂ e₃ hy hz hlt hrun
  · intro y e₂ hy hnone
    rw [hexecutions, hget] at hy
    rw [hexecutions, List.length_set, hcall]
    by_cases hxy : x = y
    · rw [if_pos hxy] at hy
      obtain rfl := Option.some.inj hy
      exact hxy ▸ h.unsettled x e hx (hkeep hnone)
    · rw [if_neg hxy] at hy
      exact h.unsettled y e₂ hy hnone
  · intro i resuming opts hcall'
    rw [hcall] at hcall'
    obtain ⟨e₂, hlast, hrun, hindex, hstep, htallied, hclean⟩ := h.stepping i resuming opts hcall'
    rw [hexecutions, getLast?_set hx, hcalls, hsteps]
    by_cases hcurrent : e.run = q.calls
    · have hxlast := h.last_of_current hx hrace hcurrent hcall'
      have heq : e₂ = e := by
        rw [List.getLast?_eq_getElem?, ← hxlast, Nat.add_sub_cancel, hx] at hlast
        exact (Option.some.inj hlast).symm
      subst heq
      rw [if_pos hxlast]
      refine ⟨e', rfl, hsame.run.trans hrun, hsame.index.trans hindex, ?_, ?_, ?_⟩
      · rw [hsame.step]
        exact hstep
      · rw [← hrun, ← hindex] at htallied ⊢
        exact htally htallied
      · rw [← hrun]
        exact hunfailed
    · rw [if_neg]
      · obtain ⟨hevents, hrollbacks⟩ := views_of_other log hof (Ne.symm hcurrent)
        refine ⟨e₂, hlast, hrun, hindex, hstep, ?_, ?_⟩
        · rw [hcompleted _ (Ne.symm hcurrent)]
          exact htallied.congr hevents
        · intro hrace₂
          obtain ⟨hnone, hempty⟩ := hclean hrace₂
          exact ⟨by rw [hevents]; exact hnone, hrollbacks.trans hempty⟩
      · intro hxlast
        rw [List.getLast?_eq_getElem?, ← hxlast, Nat.add_sub_cancel, hx] at hlast
        obtain rfl := Option.some.inj hlast
        exact hcurrent hrun

end Orderly

/-! ## The turns -/

/-- A step of the work that decides nothing. -/
def Effect.Mild (e : Execution) (f : Effect) : Prop :=
  f.Outside ∨
    ∃ status hash, f = .emit (e.event status hash false) ∧ status.terminal = false

theorem persist_outside (cfg : QueueConfig) (rows : Rows) : ∀ f ∈ persist cfg rows, f.Outside := by
  intro f hf
  rw [persist] at hf
  split at hf
  · rw [List.mem_singleton.mp hf]
    exact fun _ => ⟨rfl, rfl⟩
  · cases hf

theorem Effect.Mild.of {e : Execution} {f : Effect} (h : f.Mild e) : f.Of e.run := by
  rcases h with h | ⟨status, hash, rfl, _⟩
  · exact fun run' _ => h run'
  · exact Effect.of_event e status hash false

section Working

variable {log effects : List Effect} {steps : List QueueStep} {completed : List Nat}
  {e : Execution}

theorem Undecided.allowed (h : Undecided log e.run e.index) (status : TxStatus)
    (hash : Option TxHash) (dryRun : Bool) :
    Allowed log (.emit (e.event status hash dryRun)) := by
  intro run hrun
  obtain rfl := Option.some.inj hrun
  exact ⟨h.unfailed, fun _ event hevent hterminal => h.noOutcome event hevent hterminal⟩

theorem eventsOf_event (log : List Effect) (status : TxStatus) (hash : Option TxHash)
    (dryRun : Bool) : eventsOf (log ++ [Effect.emit (e.event status hash dryRun)]) e.run =
      eventsOf log e.run ++ [e.event status hash dryRun] := by
  rw [eventsOf_append, eventsOf_emit, if_pos, eventsOf_nil, List.append_nil]
  rfl

theorem rollbacksOf_event (log : List Effect) (status : TxStatus) (hash : Option TxHash)
    (dryRun : Bool) : rollbacksOf (log ++ [Effect.emit (e.event status hash dryRun)]) e.run =
      rollbacksOf log e.run := by
  rw [rollbacksOf_append, rollbacksOf_forward rfl, rollbacksOf_nil, List.append_nil]

/-- An event of the step that is no confirmation leaves the tally. -/
theorem Tally.event (h : Tally log steps completed e.run e.index) {status : TxStatus}
    (hstatus : status ≠ .confirmed) (hash : Option TxHash) (dryRun : Bool) :
    Tally (log ++ [Effect.emit (e.event status hash dryRun)]) steps completed e.run e.index := by
  have hcompleted :
      completedOf (eventsOf (log ++ [Effect.emit (e.event status hash dryRun)]) e.run) =
        completedOf (eventsOf log e.run) := by
    rw [eventsOf_event, completedOf, List.filter_append, completedOf]
    have hnone : [e.event status hash dryRun].filter
        (fun event => decide (event.status = TxStatus.confirmed)) = [] := by
      apply List.filter_eq_nil_iff.mpr
      intro event hevent
      rw [List.mem_singleton.mp hevent]
      exact fun heq => hstatus (of_decide_eq_true heq)
    rw [hnone, List.append_nil]
  refine ⟨?_, by rw [hcompleted]; exact h.completed_eq, by rw [hcompleted]; exact h.rollbacks⟩
  intro event hevent
  rw [eventsOf_event] at hevent
  rcases List.mem_append.mp hevent with hevent | hevent
  · exact h.events_le event hevent
  · rw [List.mem_singleton.mp hevent]
    exact Nat.le_refl _

/-- The confirmation of the step goes into the tally. -/
theorem Tally.confirmed (h : Tally log steps completed e.run e.index)
    (hstep : steps[e.index]? = some e.step) (hash : Option TxHash) (dryRun : Bool) :
    Tally (log ++ [Effect.emit (e.event .confirmed hash dryRun)]) steps (completed ++ [e.index])
      e.run e.index := by
  have hcompleted :
      completedOf (eventsOf (log ++ [Effect.emit (e.event .confirmed hash dryRun)]) e.run) =
        completedOf (eventsOf log e.run) ++ [e.event .confirmed hash dryRun] := by
    rw [eventsOf_event, completedOf, List.filter_append]
    rfl
  refine ⟨?_, ?_, ?_⟩
  · intro event hevent
    rw [eventsOf_event] at hevent
    rcases List.mem_append.mp hevent with hevent | hevent
    · exact h.events_le event hevent
    · rw [List.mem_singleton.mp hevent]
      exact Nat.le_refl _
  · rw [hcompleted, List.map_append, h.completed_eq]
    rfl
  · intro event hevent
    rw [hcompleted] at hevent
    rcases List.mem_append.mp hevent with hevent | hevent
    · exact h.rollbacks event hevent
    · rw [List.mem_singleton.mp hevent]
      exact ⟨e.step, hstep, rfl⟩

/-- What the work does before it is decided. -/
theorem Undecided.mild (h : Undecided log e.run e.index) (hout : OneOutcome log)
    (htally : Tally log steps completed e.run e.index) (hmild : ∀ f ∈ effects, f.Mild e) :
    OneOutcome (log ++ effects) ∧ Undecided (log ++ effects) e.run e.index ∧
      Tally (log ++ effects) steps completed e.run e.index := by
  induction effects generalizing log with
  | nil =>
    rw [List.append_nil]
    exact ⟨hout, h, htally⟩
  | cons f rest ih =>
    rw [← List.singleton_append, ← List.append_assoc]
    have hrest : ∀ g ∈ rest, g.Mild e := fun g hg => hmild g (List.mem_cons_of_mem f hg)
    rcases hmild f List.mem_cons_self with houtside | ⟨status, hash, rfl, hstatus⟩
    · have hone : ∀ g ∈ [f], g.Outside := by
        intro g hg
        rw [List.mem_singleton.mp hg]
        exact houtside
      obtain ⟨hevents, hrollbacks⟩ := views_of_outside log e.run hone
      refine ih ⟨?_, ?_, ?_⟩ (hout.outside hone) (htally.congr hevents) hrest
      · rw [hevents]
        exact h.unfailed
      · rw [hevents]
        exact h.noOutcome
      · rw [hrollbacks]
        exact h.noRollback
    · have hne : status ≠ .confirmed := by
        rintro rfl
        cases hstatus
      refine ih ⟨?_, ?_, ?_⟩ (hout.snoc (h.allowed status hash false))
        (htally.event hne hash false) hrest
      · rintro ⟨event, hevent, hfailed⟩
        rw [eventsOf_event] at hevent
        rcases List.mem_append.mp hevent with hevent | hevent
        · exact h.unfailed ⟨event, hevent, hfailed⟩
        · rw [List.mem_singleton.mp hevent] at hfailed
          have hfailed' : status = .failed := hfailed
          rw [hfailed'] at hstatus
          cases hstatus
      · intro event hevent hterminal
        rw [eventsOf_event] at hevent
        rcases List.mem_append.mp hevent with hevent | hevent
        · exact h.noOutcome event hevent hterminal
        · rw [List.mem_singleton.mp hevent] at hterminal
          have hterminal' : status.terminal = true := hterminal
          rw [hstatus] at hterminal'
          cases hterminal'
      · rw [rollbacksOf_event]
        exact h.noRollback

/-- The step fails, and all that is completed is to be rolled back. -/
theorem Undecided.fails (h : Undecided log e.run e.index) (hout : OneOutcome log)
    (htally : Tally log steps completed e.run e.index) (hash : Option TxHash) (dryRun : Bool) :
    OneOutcome (log ++ [Effect.emit (e.event .failed hash dryRun)]) ∧
      Tally (log ++ [Effect.emit (e.event .failed hash dryRun)]) steps completed e.run e.index ∧
      Rolling (log ++ [Effect.emit (e.event .failed hash dryRun)]) steps e.run
        completed.reverse := by
  have htally' := htally.event (nofun : TxStatus.failed ≠ .confirmed) hash dryRun
  refine ⟨hout.snoc (h.allowed .failed hash dryRun), htally', htally'.rolling ?_ ?_⟩
  · refine ⟨e.event .failed hash dryRun, ?_, rfl⟩
    rw [eventsOf_event]
    exact List.mem_append_right _ List.mem_cons_self
  · rw [rollbacksOf_event]
    exact h.noRollback

end Working

/-- The turns, as far as they decide about the step. -/
theorem Execution.Takes.decides {e : Execution} {turn : Turn} (h : e.Takes turn)
    (cfg : QueueConfig) (rows : Rows) :
    (∃ work, turn.next = .wait work ∧ work.active = true ∧
      ∀ f ∈ (perform cfg e rows turn.notes).2, f.Mild e) ∨
    (turn.next = .complete ∧ ∃ pre hash dryRun post, (perform cfg e rows turn.notes).2 =
      pre ++ Effect.emit (e.event .confirmed hash dryRun) :: post ∧ (∀ f ∈ pre, f.Mild e) ∧
      ∀ f ∈ post, f.Outside) ∨
    ((turn.next = .fail ∨ turn.next = .reject) ∧ ∃ pre hash, (perform cfg e rows turn.notes).2 =
      pre ++ [Effect.emit (e.event .failed hash false)] ∧ ∀ f ∈ pre, f.Mild e) ∨
    (turn = .silent .throw ∧ e.timedOut = true) := by
  have hsaved : ∀ rows : Rows, ∀ f ∈ persist cfg rows, f.Mild e :=
    fun rows f hf => Or.inl (persist_outside cfg rows f hf)
  have hsend : (Effect.send e.step.id).Mild e := Or.inl fun _ => ⟨rfl, rfl⟩
  have hsimulated : (Effect.emit (e.event .simulated none false)).Mild e :=
    Or.inr ⟨_, _, rfl, rfl⟩
  have hsubmitted : ∀ hash, (Effect.emit (e.event .submitted (some hash) false)).Mild e :=
    fun hash => Or.inr ⟨_, _, rfl, rfl⟩
  cases h with
  | waits hwork =>
    refine Or.inl ⟨_, rfl, ?_, List.forall_mem_nil _⟩
    rcases hwork with rfl | rfl | rfl | ⟨attempt, rfl⟩ <;> rfl
  | pollsAgain => exact Or.inl ⟨_, rfl, rfl, List.forall_mem_nil _⟩
  | givesUp _ hlate => exact Or.inr (Or.inr (Or.inr ⟨rfl, hlate⟩))
  | rejected => exact Or.inr (Or.inr (Or.inl ⟨Or.inr rfl, [], none, rfl, List.forall_mem_nil _⟩))
  | @failed hash => exact Or.inr (Or.inr (Or.inl ⟨Or.inl rfl, [], hash, rfl, List.forall_mem_nil _⟩))
  | sends =>
    refine Or.inl ⟨_, rfl, rfl, ?_⟩
    intro f hf
    rw [List.mem_singleton.mp hf]
    exact hsend
  | simulatedOnly =>
    refine Or.inr (Or.inl ⟨rfl, persist cfg (markPersisted rows e .simulated none) ++
      [.emit (e.event .simulated none false)], none, true, [], by simp [perform], ?_, List.forall_mem_nil _⟩)
    intro f hf
    rcases List.mem_append.mp hf with hf | hf
    · exact hsaved _ f hf
    · rw [List.mem_singleton.mp hf]
      exact hsimulated
  | simulatedSends =>
    refine Or.inl ⟨_, rfl, rfl, ?_⟩
    intro f hf
    rcases List.mem_append.mp hf with hf | hf
    · exact hsaved _ f hf
    · rcases List.mem_cons.mp hf with rfl | hf
      · exact hsimulated
      · rw [List.mem_singleton.mp hf]
        exact hsend
  | simulatedFailed =>
    refine Or.inr (Or.inr (Or.inl ⟨Or.inl rfl,
      persist cfg (markPersisted rows e .simulated none) ++
        [.emit (e.event .simulated none false)], none,
      by simp [perform], ?_⟩))
    intro f hf
    rcases List.mem_append.mp hf with hf | hf
    · exact hsaved _ f hf
    · rw [List.mem_singleton.mp hf]
      exact hsimulated
  | @accepted hash =>
    refine Or.inl ⟨_, rfl, rfl, ?_⟩
    intro f hf
    rcases List.mem_cons.mp hf with rfl | hf
    · exact hsubmitted hash
    · exact hsaved _ f (by simpa [perform] using hf)
  | @acceptedFailed hash =>
    refine Or.inr (Or.inr (Or.inl ⟨Or.inl rfl,
      .emit (e.event .submitted (some hash) false) :: persist cfg _, some hash, rfl, ?_⟩))
    intro f hf
    rcases List.mem_cons.mp hf with rfl | hf
    · exact hsubmitted hash
    · exact hsaved _ f hf
  | @confirmed hash =>
    refine Or.inr (Or.inl ⟨rfl, [], some hash, false, persist cfg _ ++ [], rfl, List.forall_mem_nil _, ?_⟩)
    rw [List.append_nil]
    exact persist_outside cfg _

end Sdk
end Linkora
