import Linkora.Sdk.QueueTurns

/-!
# What the log tells of a call

The events of the steps of a call and its rollbacks, and what it means that every step has one
outcome and that the rollbacks are those of the completed steps, in reverse.
-/

namespace Linkora
namespace Sdk

/-! ## What the log says of a call -/

def Effect.eventOf (run : Nat) : Effect → Option TxStatusEvent
  | .emit event => if event.run = some run then some event else none
  | _ => none

def Effect.rollbackOf (run : Nat) : Effect → Option Nat
  | .rollback run' i => if run' = run then some i else none
  | _ => none

/-- The events of the steps of a call. -/
def eventsOf (log : List Effect) (run : Nat) : List TxStatusEvent :=
  log.filterMap (Effect.eventOf run)

/-- The rollbacks of a call. -/
def rollbacksOf (log : List Effect) (run : Nat) : List Nat := log.filterMap (Effect.rollbackOf run)

def TxStatus.terminal : TxStatus → Bool
  | .confirmed | .failed => true
  | _ => false

/-- The rollbacks of steps, in the order of their events. -/
def withRollback (events : List TxStatusEvent) : List Nat :=
  (events.filter fun event => event.rollback).map fun event => event.index

def completedOf (events : List TxStatusEvent) : List TxStatusEvent :=
  events.filter fun event => event.status = .confirmed

/-- The rollbacks that are due when a step fails. -/
def due (events : List TxStatusEvent) : List Nat := withRollback (completedOf events).reverse

def HasFailed (events : List TxStatusEvent) : Prop := ∃ event ∈ events, event.status = .failed

section Views

variable {log log' : List Effect} {run : Nat}

@[simp]
theorem eventsOf_append : eventsOf (log ++ log') run = eventsOf log run ++ eventsOf log' run :=
  List.filterMap_append

@[simp]
theorem rollbacksOf_append :
    rollbacksOf (log ++ log') run = rollbacksOf log run ++ rollbacksOf log' run :=
  List.filterMap_append

@[simp]
theorem eventsOf_nil : eventsOf [] run = [] := rfl

@[simp]
theorem rollbacksOf_nil : rollbacksOf [] run = [] := rfl

@[simp]
theorem eventsOf_emit (event : TxStatusEvent) :
    eventsOf (.emit event :: log) run =
      (if event.run = some run then [event] else []) ++ eventsOf log run := by
  by_cases h : event.run = some run
  · simp [eventsOf, Effect.eventOf, h]
  · simp [eventsOf, Effect.eventOf, h]

@[simp]
theorem rollbacksOf_rollback (run' i : Nat) :
    rollbacksOf (.rollback run' i :: log) run =
      (if run' = run then [i] else []) ++ rollbacksOf log run := by
  by_cases h : run' = run
  · simp [rollbacksOf, Effect.rollbackOf, h]
  · simp [rollbacksOf, Effect.rollbackOf, h]

/-- An effect that is no event. -/
def Effect.unseen : Effect → Bool
  | .emit _ => false
  | _ => true

/-- An effect that is no rollback. -/
def Effect.forward : Effect → Bool
  | .rollback _ _ => false
  | _ => true

theorem eventsOf_unseen {f : Effect} (h : f.unseen = true) :
    eventsOf (f :: log) run = eventsOf log run := by
  cases f <;> first | rfl | cases h

theorem rollbacksOf_forward {f : Effect} (h : f.forward = true) :
    rollbacksOf (f :: log) run = rollbacksOf log run := by
  cases f <;> first | rfl | cases h

end Views

/-! ## One outcome -/

/-- What holds of the log: a step of a call is confirmed or fails once at most; after a step
has failed nothing is told of the steps of the call; and a rollback comes after a failure, and
the rollbacks so far are the first of those that are due then. -/
structure OneOutcome (log : List Effect) : Prop where
  once : ∀ run index, ((eventsOf log run).countP fun event =>
    decide (event.index = index) && event.status.terminal) ≤ 1
  failedLast : ∀ pre event post run, log = pre ++ Effect.emit event :: post →
    event.status = .failed → event.run = some run → eventsOf post run = []
  inReverse : ∀ pre run index post, log = pre ++ Effect.rollback run index :: post →
    HasFailed (eventsOf pre run) ∧
      rollbacksOf (pre ++ [Effect.rollback run index]) run <+: due (eventsOf pre run)

/-- What may happen next. -/
def Allowed (log : List Effect) : Effect → Prop
  | .emit event => ∀ run, event.run = some run → ¬HasFailed (eventsOf log run) ∧
      (event.status.terminal = true → ∀ event' ∈ eventsOf log run,
        event'.status.terminal = true → event'.index ≠ event.index)
  | .rollback run index => HasFailed (eventsOf log run) ∧
      rollbacksOf log run ++ [index] <+: due (eventsOf log run)
  | _ => True

/-- A list that ends in another element is split there, or before. -/
theorem append_singleton_split {α : Type} {l pre post : List α} {a b : α}
    (h : l ++ [a] = pre ++ b :: post) :
    (post = [] ∧ pre = l ∧ b = a) ∨ ∃ post', post = post' ++ [a] ∧ l = pre ++ b :: post' := by
  rcases List.eq_nil_or_concat' post with rfl | ⟨post', c, rfl⟩
  · obtain ⟨hl, ha⟩ := List.append_inj' h rfl
    exact Or.inl ⟨rfl, hl.symm, (List.singleton_inj.mp ha).symm⟩
  · rw [← List.cons_append, ← List.append_assoc] at h
    obtain ⟨hl, ha⟩ := List.append_inj' h rfl
    exact Or.inr ⟨post', by rw [List.singleton_inj.mp ha], hl⟩

namespace OneOutcome

variable {log : List Effect}

theorem nil : OneOutcome [] := by
  refine ⟨fun _ _ => Nat.zero_le 1, ?_, ?_⟩
  · intro pre event post run h
    cases pre <;> cases h
  · intro pre run index post h
    cases pre <;> cases h

/-- What holds of a log holds of its beginnings. -/
theorem of_append {log' : List Effect} (h : OneOutcome (log ++ log')) : OneOutcome log := by
  refine ⟨?_, ?_, ?_⟩
  · intro run index
    have honce := h.once run index
    rw [eventsOf_append, List.countP_append] at honce
    omega
  · intro pre event post run hlog hstatus hrun
    have hlast := h.failedLast pre event (post ++ log') run (by rw [hlog]; simp) hstatus hrun
    rw [eventsOf_append] at hlast
    exact (List.append_eq_nil_iff.mp hlast).1
  · intro pre run index post hlog
    exact h.inReverse pre run index (post ++ log') (by rw [hlog]; simp)

theorem once_snoc (h : OneOutcome log) {f : Effect} (hf : Allowed log f) (run index : Nat) :
    ((eventsOf (log ++ [f]) run).countP fun event =>
      decide (event.index = index) && event.status.terminal) ≤ 1 := by
  have honce := h.once run index
  rw [eventsOf_append, List.countP_append]
  cases f with
  | emit event =>
    by_cases hevent : event.run = some run ∧ event.index = index ∧ event.status.terminal = true
    · obtain ⟨hrun, hindex, hterminal⟩ := hevent
      have hzero : ((eventsOf log run).countP fun event =>
          decide (event.index = index) && event.status.terminal) = 0 := by
        apply List.countP_eq_zero.mpr
        intro event' hmem hboth
        simp only [Bool.and_eq_true, decide_eq_true_eq] at hboth
        have hne := (hf run hrun).2 hterminal event' hmem hboth.2
        exact hne (hboth.1.trans hindex.symm)
      rw [hzero]
      have hone : (eventsOf [Effect.emit event] run).length ≤ 1 := by
        simp only [eventsOf_emit, eventsOf_nil, List.append_nil]
        split <;> simp
      have hle := List.countP_le_length (p := fun event : TxStatusEvent =>
        decide (event.index = index) && event.status.terminal)
        (l := eventsOf [Effect.emit event] run)
      omega
    · have hzero : ((eventsOf [Effect.emit event] run).countP fun event =>
          decide (event.index = index) && event.status.terminal) = 0 := by
        simp only [eventsOf_emit, eventsOf_nil, List.append_nil]
        split
        · rename_i hrun
          simp only [List.countP_singleton]
          rw [if_neg]
          simp only [Bool.and_eq_true, decide_eq_true_eq]
          exact fun hboth => hevent ⟨hrun, hboth⟩
        · rfl
      omega
  | _ =>
    rw [eventsOf_unseen rfl]
    exact honce

theorem snoc (h : OneOutcome log) {f : Effect} (hf : Allowed log f) : OneOutcome (log ++ [f]) := by
  refine ⟨h.once_snoc hf, ?_, ?_⟩
  · intro pre event post run hlog hstatus hrun
    rcases append_singleton_split hlog with ⟨rfl, _, _⟩ | ⟨post', rfl, hlog'⟩
    · rfl
    · have hlast := h.failedLast pre event post' run hlog' hstatus hrun
      rw [eventsOf_append, hlast]
      cases f with
      | emit event' =>
        have hnone : event'.run ≠ some run := by
          intro hrun'
          apply (hf run hrun').1
          rw [hlog', eventsOf_append, eventsOf_emit, if_pos hrun]
          exact ⟨event, by simp, hstatus⟩
        simp [hnone]
      | _ => rfl
  · intro pre run index post hlog
    rcases append_singleton_split hlog with ⟨_, rfl, rfl⟩ | ⟨post', rfl, hlog'⟩
    · rw [rollbacksOf_append, rollbacksOf_rollback, if_pos rfl]
      exact hf
    · exact h.inReverse pre run index post' hlog'

end OneOutcome

/-! ## Effects that tell of no call, or of one -/

/-- An effect that tells of no call. -/
def Effect.Outside (f : Effect) : Prop := ∀ run, f.eventOf run = none ∧ f.rollbackOf run = none

theorem views_of_outside (log : List Effect) {effects : List Effect} (run : Nat)
    (h : ∀ f ∈ effects, f.Outside) : eventsOf (log ++ effects) run = eventsOf log run ∧
      rollbacksOf (log ++ effects) run = rollbacksOf log run := by
  have hevents : eventsOf effects run = [] :=
    List.filterMap_eq_nil_iff.mpr fun f hf => (h f hf run).1
  have hrollbacks : rollbacksOf effects run = [] :=
    List.filterMap_eq_nil_iff.mpr fun f hf => (h f hf run).2
  rw [eventsOf_append, rollbacksOf_append, hevents, hrollbacks]
  exact ⟨List.append_nil _, List.append_nil _⟩

theorem OneOutcome.outside {log effects : List Effect} (h : OneOutcome log)
    (houtside : ∀ f ∈ effects, f.Outside) : OneOutcome (log ++ effects) := by
  induction effects generalizing log with
  | nil =>
    rw [List.append_nil]
    exact h
  | cons f rest ih =>
    have hf := houtside f List.mem_cons_self
    have hallowed : Allowed log f := by
      cases f with
      | emit event =>
        intro run hrun
        have hsome := (hf run).1
        rw [Effect.eventOf, if_pos hrun] at hsome
        cases hsome
      | rollback run i =>
        have hsome := (hf run).2
        rw [Effect.rollbackOf, if_pos rfl] at hsome
        cases hsome
      | _ => trivial
    rw [← List.singleton_append, ← List.append_assoc]
    exact ih (h.snoc hallowed) fun g hg => houtside g (List.mem_cons_of_mem f hg)

/-- An effect that tells of no other call. -/
def Effect.Of (run : Nat) (f : Effect) : Prop :=
  ∀ run', run' ≠ run → f.eventOf run' = none ∧ f.rollbackOf run' = none

theorem views_of_other (log : List Effect) {effects : List Effect} {run run' : Nat}
    (h : ∀ f ∈ effects, f.Of run) (hne : run' ≠ run) :
    eventsOf (log ++ effects) run' = eventsOf log run' ∧
      rollbacksOf (log ++ effects) run' = rollbacksOf log run' := by
  have hevents : eventsOf effects run' = [] :=
    List.filterMap_eq_nil_iff.mpr fun f hf => (h f hf run' hne).1
  have hrollbacks : rollbacksOf effects run' = [] :=
    List.filterMap_eq_nil_iff.mpr fun f hf => (h f hf run' hne).2
  rw [eventsOf_append, rollbacksOf_append, hevents, hrollbacks]
  exact ⟨List.append_nil _, List.append_nil _⟩

theorem Effect.of_event (e : Execution) (status : TxStatus) (hash : Option TxHash)
    (dryRun : Bool) : Effect.Of e.run (.emit (e.event status hash dryRun)) := by
  intro run' hne
  refine ⟨if_neg ?_, rfl⟩
  intro heq
  exact hne (Option.some.inj heq).symm

theorem Effect.of_rollback (run i : Nat) : Effect.Of run (.rollback run i) := by
  intro run' hne
  exact ⟨rfl, if_neg (Ne.symm hne)⟩

end Sdk
end Linkora
