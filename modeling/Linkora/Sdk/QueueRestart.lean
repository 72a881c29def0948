import Linkora.Sdk.QueueKept

/-!
# No step is lost in a restart

A step that is not yet reported as confirmed, or as submitted and unconfirmed, is held by the
queue, and by the adapter whenever the process can end: so whatever a crash interrupts, it is
reported and executed by the time a call of `resume` returns.  Between the moment when `resume`
clears what was stored and the next time the rows are saved, nothing is stored.
-/

namespace Linkora
namespace Sdk

/-! ## What a move holds on to -/

/-- The step is reported as confirmed, or it was sent and is reported as unconfirmed. -/
def Settled (log : List Effect) (id : Nat) : Prop :=
  Confirmed log id ∨ Unconfirmed log id ∧ Sent log id

instance (log : List Effect) (id : Nat) : Decidable (Settled log id) :=
  inferInstanceAs (Decidable (_ ∨ _ ∧ _))

theorem Settled.mono {log : List Effect} {id : Nat} (h : Settled log id) (log' : List Effect) :
    Settled (log ++ log') id := by
  rcases h with hconfirmed | ⟨hunconfirmed, hsent⟩
  · exact Or.inl (hconfirmed.mono log')
  · exact Or.inr ⟨hunconfirmed.mono log', hsent.mono log'⟩

/-- A row of the step is there. -/
def Held (rows : Rows) (id : Nat) : Prop := some id ∈ rowIds rows

section Held

variable {rows rest : Rows} {id : Nat} {row : PersistedQueueStep}

theorem Held.of_row (row : PersistedQueueStep) (h : some row ∈ rows) : Held rows row.id :=
  List.mem_map.mpr ⟨some row, h, rfl⟩

theorem Held.exists_row (h : Held rows id) : ∃ row, some row ∈ rows ∧ row.id = id := by
  obtain ⟨r, hr, hid⟩ := List.mem_map.mp h
  obtain ⟨row, rfl, hrow⟩ := Option.map_eq_some_iff.mp hid
  exact ⟨row, hr, hrow⟩

theorem Held.append_left (h : Held rows id) (rest : Rows) : Held (rows ++ rest) id := by
  rw [Held, rowIds, List.map_append]
  exact List.mem_append_left _ h

/-- A row that is left out, and the others. -/
theorem Held.of_cons (h : Held (rows ++ some row :: rest) id) :
    id = row.id ∨ Held (rows ++ rest) id := by
  obtain ⟨row', hrow, rfl⟩ := h.exists_row
  rcases List.mem_append.mp hrow with hrow | hrow
  · exact Or.inr (Held.of_row _ (List.mem_append_left _ hrow))
  · rcases List.mem_cons.mp hrow with heq | hrow
    · exact Or.inl (congrArg PersistedQueueStep.id (Option.some.inj heq))
    · exact Or.inr (Held.of_row _ (List.mem_append_right _ hrow))

theorem not_held_nil (id : Nat) : ¬Held [] id := List.not_mem_nil

end Held

theorem PersistedQueueStep.hash_of_submitted {row : PersistedQueueStep}
    (hunfinished : row.unfinished = false) (hstatus : row.status = .submitted) :
    row.hash.isSome = true := by
  rw [unfinished, hstatus] at hunfinished
  cases hhash : row.hash with
  | none =>
    rw [hhash] at hunfinished
    cases hunfinished
  | some => rfl

section Prepares

variable {cfg : QueueConfig} {a : Action} {call call' : Call} {effects log : List Effect} {n : Nat}
  {ids : List Nat} {stepStates : Rows}

/-- `resume` gives up a step when it is settled, and not before. -/
theorem Prepares.holds (h : Prepares cfg a call effects call')
    (htold : Told log n ids (call.rows stepStates))
    (hpolling : ∀ rows i attempt unfinished opts, call = .polling rows i attempt unfinished opts →
      ∃ row, rows[i]? = some (some row) ∧ row.unfinished = false ∧ row.status = .submitted ∧
        Unconfirmed log row.id) {id : Nat} (hheld : Held (call.rows stepStates) id) :
    Held (call'.rows stepStates) id ∨ Settled (log ++ effects.take 1) id := by
  cases h with
  | clears | begins | asks | waits => exact Or.inl hheld
  | finds hstate =>
    rw [Call.rows, hstate] at hheld
    exact absurd hheld (not_held_nil id)
  | throws hrow =>
    rw [Call.rows, drop_of_getElem? hrow] at htold
    exact absurd (List.mem_append_right _ List.mem_cons_self) htold.none_not_mem
  | @givesUp _ _ _ _ row hash hrow hstatus hhash =>
    rw [Call.rows, drop_of_getElem? hrow] at htold hheld
    rcases hheld.of_cons with rfl | hheld
    · have hsent := htold.submitted row (List.mem_append_right _ List.mem_cons_self) hstatus
        (by rw [hhash]; rfl)
      exact Or.inr (Or.inr ⟨tells_emit rfl rfl, hsent.mono _⟩)
    · exact Or.inl hheld
  | @recovers _ _ _ _ row hash hrow hstatus hhash =>
    rw [Call.rows, drop_of_getElem? hrow] at htold hheld
    rcases hheld.of_cons with rfl | hheld
    · have hchain := htold.confirmed row (List.mem_append_right _ List.mem_cons_self) hstatus
        (by rw [hhash]; rfl)
      exact Or.inr (Or.inl (hchain.confirmed.mono _))
    · exact Or.inl hheld
  | @requeues _ _ _ _ row hrow =>
    rw [Call.rows, drop_of_getElem? hrow] at hheld
    rw [Call.rows, queue_again]
    refine Or.inl ?_
    rcases hheld.of_cons with rfl | hheld
    · exact Held.of_row ⟨row.id, row.xdr, .pending, none, row.stepTimeoutMs⟩
        (List.mem_append_right _ List.mem_cons_self)
    · obtain ⟨row', hrow', rfl⟩ := hheld.exists_row
      rcases List.mem_append.mp hrow' with hmem | hmem
      · exact Held.of_row _ (List.mem_append_left _ hmem)
      · exact Held.of_row _ (List.mem_append_right _ (List.mem_cons_of_mem _ hmem))
  | succeeds hrow =>
    rw [Call.rows, drop_of_getElem? hrow] at hheld
    rcases hheld.of_cons with rfl | hheld
    · exact Or.inr (Or.inl (tells_emit rfl rfl))
    · exact Or.inl hheld
  | fails hrow =>
    rw [Call.rows, drop_of_getElem? hrow] at htold hheld
    rcases hheld.of_cons with rfl | hheld
    · obtain ⟨row, hrow', hunfinished, hstatus, hunconfirmed⟩ := hpolling _ _ _ _ _ rfl
      obtain rfl := Option.some.inj (Option.some.inj (hrow.symm.trans hrow'))
      have hsent := htold.submitted _ (List.mem_append_right _ List.mem_cons_self) hstatus
        (PersistedQueueStep.hash_of_submitted hunfinished hstatus)
      exact Or.inr (Or.inr ⟨hunconfirmed.mono _, hsent.mono _⟩)
    · exact Or.inl hheld

end Prepares

/-- A loop that is through has all its steps confirmed. -/
theorem Poised.confirmed_of_done {cfg : QueueConfig} {q : TransactionQueue} {log : List Effect}
    {disk : Option Rows} {i : Nat} (h : Poised cfg q log disk i) (hstep : q.steps[i]? = none)
    {id : Nat} (hheld : Held q.stepStates id) : Settled log id := by
  obtain ⟨row, hrow, rfl⟩ := hheld.exists_row
  obtain ⟨j, hj⟩ := List.mem_iff_getElem?.mp hrow
  obtain ⟨_, hrow', hid⟩ := h.memory.row_of hj
  obtain rfl := Option.some.inj hrow'
  rw [List.getElem?_map] at hid
  obtain ⟨step, hsome, hid⟩ := Option.map_eq_some_iff.mp hid
  have hlt := (List.getElem?_eq_some_iff.mp hsome).1
  have hge := List.getElem?_eq_none_iff.mp hstep
  have hconfirmed := h.earlier j (by omega) step hsome
  rw [hid] at hconfirmed
  exact Or.inl hconfirmed

theorem Prepares.resumes {cfg : QueueConfig} {a : Action} {call call' : Call}
    {effects : List Effect} (h : Prepares cfg a call effects call')
    (hresumed : Effect.resumed ∈ effects) (stepStates : Rows) :
    effects = [.resumed] ∧ call.rows stepStates = [] := by
  cases h with
  | finds hstate => exact ⟨rfl, hstate⟩
  | _ => simp at hresumed

theorem Prepares.not_crash {cfg : QueueConfig} {a : Action} {call call' : Call}
    {effects : List Effect} (h : Prepares cfg a call effects call') (n : Nat) :
    Effect.crash n ∉ effects := by
  cases h <;> simp

namespace Kept

variable {cfg : QueueConfig} {q q' : TransactionQueue} {log effects : List Effect}
  {disk : Option Rows} {a : Action}

/-- What a loop over the steps holds on to. -/
theorem loop_holds {i : Nat} (h : Poised cfg q log disk i) (resuming : Bool) (opts : RunOptions)
    {id : Nat} (hheld : Held q.stepStates id) :
    Held (q.loop cfg i resuming opts).1.rows id ∨
      Settled (log ++ (q.loop cfg i resuming opts).2.take 1) id := by
  cases hstep : q.steps[i]? with
  | some step =>
    rw [loop_some hstep]
    exact Or.inl hheld
  | none => exact Or.inr ((h.confirmed_of_done hstep hheld).mono _)

/-- A move gives up a step when it is settled, and not before. -/
theorem holds (h : Kept cfg q log disk) (hmoves : Moves cfg disk q a q' effects)
    (hresume : ∀ opts, a = .resume opts → disk = none → ∀ id, Held q.rows id → Settled log id)
    {id : Nat} (hheld : Held q.rows id) :
    Held q'.rows id ∨ Settled (log ++ effects.take 1) id := by
  cases hmoves with
  | enqueues xdr rollback stepTimeoutMs hcall =>
    have hworking : (q.enqueue cfg xdr rollback stepTimeoutMs).1.call.preparing = false := hcall
    rw [rows_of_working hcall] at hheld
    rw [rows_of_working hworking]
    exact Or.inl (hheld.append_left _)
  | runs opts hcall =>
    rw [rows_of_idle hcall] at hheld
    exact loop_holds (h.poised_run hcall) false opts hheld
  | loads opts hcall _ =>
    rcases h.mirrors with hnone | ⟨_, hsome⟩
    · rw [List.take_nil, List.append_nil]
      exact Or.inr (hresume opts rfl hnone id hheld)
    · refine Or.inl ?_
      show Held (disk.getD []) id
      rw [hsome]
      exact hheld
  | resumesNothing _ _ => exact Or.inl hheld
  | prepares hashes hprepares =>
    obtain ⟨ids, hstate⟩ := h.state
    exact hprepares.holds hstate h.polling hheld
  | returns hcall hrow =>
    rw [TransactionQueue.rows, hcall, Call.rows,
      List.drop_eq_nil_of_le (List.getElem?_eq_none_iff.mp hrow)] at hheld
    exact absurd hheld (not_held_nil id)
  | refills hcall hrow =>
    rw [TransactionQueue.rows, hcall, Call.rows,
      List.drop_eq_nil_of_le (List.getElem?_eq_none_iff.mp hrow), List.append_nil] at hheld
    exact loop_holds (h.poised_refill hcall hrow) true _ hheld
  | goesOn hcall hrace =>
    rw [rows_of_working (by rw [hcall]; rfl)] at hheld
    exact loop_holds (h.poised_next hcall hrace) _ _ hheld
  | stops hcall =>
    rw [rows_of_working (by rw [hcall]; rfl)] at hheld
    exact Or.inl hheld
  | @turns x _ e turn b hx hrun hactive htakes =>
    have hworking : (q.takeTurn cfg x e turn b).1.call.preparing = false := by
      rw [TransactionQueue.takeTurn_call]
      exact h.not_preparing hx hrun
    obtain ⟨htold, _, _⟩ := h.turn_told hx hrun hactive htakes cfg disk
    rw [rows_of_working (h.not_preparing hx hrun), Held, h.memory.whole] at hheld
    rw [rows_of_working hworking, TransactionQueue.takeTurn_stepStates, Held, htold.whole]
    exact Or.inl hheld
  | fades _ _ _ _ _ _ => exact Or.inl hheld

/-- A step that is new is held from its first effect on. -/
theorem numbers (hmoves : Moves cfg disk q a q' effects) :
    q'.nextId = q.nextId ∨ q'.nextId = q.nextId + 1 ∧ Held q'.rows q.nextId := by
  cases hmoves with
  | enqueues xdr rollback stepTimeoutMs hcall =>
    have hworking : (q.enqueue cfg xdr rollback stepTimeoutMs).1.call.preparing = false := hcall
    refine Or.inr ⟨rfl, ?_⟩
    rw [rows_of_working hworking]
    exact Held.of_row ⟨q.nextId, xdr, .pending, none, stepTimeoutMs⟩
      (List.mem_append_right _ (List.mem_singleton_self _))
  | runs opts _ => exact Or.inl (loop_timely cfg _ [] disk 0 false opts).2
  | refills _ _ => exact Or.inl (loop_timely cfg _ [] disk 0 true _).2
  | goesOn _ _ => exact Or.inl (loop_timely cfg q [] disk _ _ _).2
  | turns => exact Or.inl TransactionQueue.takeTurn_nextId
  | _ => exact Or.inl rfl

theorem resumed_not_plain {effects : List Effect} (h : ∀ f ∈ effects, f.plain = true) :
    Effect.resumed ∉ effects := by
  intro hmem
  cases h _ hmem

/-- The loop returns from `resume` when the steps are all confirmed. -/
theorem loop_resumes {i : Nat} (h : Poised cfg q log disk i) (resuming : Bool) (opts : RunOptions)
    (hresumed : Effect.resumed ∈ (q.loop cfg i resuming opts).2) :
    (∃ before, (q.loop cfg i resuming opts).2 = before ++ [Effect.resumed] ∧
      Effect.resumed ∉ before) ∧ ∀ id, Held q.stepStates id → Settled log id := by
  cases hstep : q.steps[i]? with
  | some step =>
    rw [loop_some hstep] at hresumed
    exact absurd hresumed (resumed_not_plain (begin_plain opts))
  | none =>
    rw [loop_none hstep] at hresumed ⊢
    have hclear : Effect.resumed ∉ if cfg.persistence then [Effect.clear] else [] := by
      split
      · decide
      · exact List.not_mem_nil
    rcases List.mem_append.mp hresumed with hmem | hmem
    · exact absurd hmem hclear
    · split at hmem
      · rename_i hresuming
        refine ⟨⟨_, by rw [if_pos hresuming], hclear⟩, ?_⟩
        intro id hheld
        exact h.confirmed_of_done hstep hheld
      · cases hmem

/-- What `resume` returns with is settled. -/
theorem resumes (h : Kept cfg q log disk) (hstores : cfg.persistence = true)
    (hmoves : Moves cfg disk q a q' effects) (hresumed : Effect.resumed ∈ effects) :
    (∃ before, effects = before ++ [Effect.resumed] ∧ Effect.resumed ∉ before) ∧
      ∀ id, Held q.rows id → Settled log id := by
  cases hmoves with
  | enqueues xdr rollback stepTimeoutMs hcall =>
    exact absurd rfl (persist_forall (P := (· ≠ .resumed)) (fun _ h => by cases h) cfg _ _ hresumed)
  | runs opts hcall =>
    rw [rows_of_idle hcall]
    exact loop_resumes (h.poised_run hcall) false opts hresumed
  | loads _ _ _ | stops _ => cases hresumed
  | resumesNothing _ hnone =>
    rw [hstores] at hnone
    cases hnone
  | prepares hashes hprepares =>
    obtain ⟨heffects, hnil⟩ := hprepares.resumes hresumed q.stepStates
    refine ⟨⟨[], heffects, List.not_mem_nil⟩, ?_⟩
    intro id hheld
    rw [TransactionQueue.rows, hnil] at hheld
    exact absurd hheld (not_held_nil id)
  | returns hcall hrow =>
    refine ⟨⟨[], rfl, List.not_mem_nil⟩, ?_⟩
    intro id hheld
    rw [TransactionQueue.rows, hcall, Call.rows,
      List.drop_eq_nil_of_le (List.getElem?_eq_none_iff.mp hrow)] at hheld
    exact absurd hheld (not_held_nil id)
  | refills hcall hrow =>
    rw [TransactionQueue.rows, hcall, Call.rows,
      List.drop_eq_nil_of_le (List.getElem?_eq_none_iff.mp hrow), List.append_nil]
    exact loop_resumes (h.poised_refill hcall hrow) true _ hresumed
  | goesOn hcall hrace =>
    rw [rows_of_working (by rw [hcall]; rfl)]
    exact loop_resumes (h.poised_next hcall hrace) _ _ hresumed
  | @turns x _ e turn b hx hrun hactive htakes =>
    rcases List.mem_append.mp (TransactionQueue.takeTurn_effects ▸ hresumed) with hmem | hmem
    · exact absurd rfl (perform_forall (P := (· ≠ .resumed)) (fun _ h => by cases h) (fun _ h => by cases h) (fun _ h => by cases h) cfg e q.stepStates
        turn.notes _ hmem)
    · exact absurd hmem (resumed_not_plain (Execution.goOn_plain turn.next))
  | fades _ _ _ _ _ heffects => exact absurd hresumed (resumed_not_plain heffects)

theorem loop_not_crash (cfg : QueueConfig) (q : TransactionQueue) (i : Nat) (resuming : Bool)
    (opts : RunOptions) (n : Nat) : Effect.crash n ∉ (q.loop cfg i resuming opts).2 := by
  intro hmem
  cases hstep : q.steps[i]? with
  | some step =>
    rw [loop_some hstep] at hmem
    cases begin_plain opts _ hmem
  | none =>
    rw [loop_none hstep] at hmem
    rcases List.mem_append.mp hmem with hmem | hmem <;> split at hmem <;> simp at hmem

/-- The process does not end by itself. -/
theorem not_crash (hmoves : Moves cfg disk q a q' effects) (n : Nat) :
    Effect.crash n ∉ effects := by
  intro hmem
  cases hmoves with
  | enqueues =>
    exact absurd rfl (persist_forall (P := (· ≠ .crash n)) (fun _ h => by cases h) cfg _ _ hmem)
  | runs opts _ => exact loop_not_crash cfg _ 0 false opts n hmem
  | refills _ _ => exact loop_not_crash cfg _ 0 true _ n hmem
  | goesOn _ _ => exact loop_not_crash cfg q _ _ _ n hmem
  | loads _ _ _ | stops _ => cases hmem
  | resumesNothing _ _ | returns _ _ => cases List.mem_singleton.mp hmem
  | prepares hashes hprepares => exact hprepares.not_crash n hmem
  | turns =>
    rcases List.mem_append.mp (TransactionQueue.takeTurn_effects ▸ hmem) with hmem | hmem
    · exact absurd rfl (perform_forall (P := (· ≠ .crash n)) (fun _ h => by cases h) (fun _ h => by cases h) (fun _ h => by cases h) cfg _ _ _ _ hmem)
    · cases Execution.goOn_plain _ _ hmem
  | fades _ _ _ _ _ heffects => cases heffects _ hmem

end Kept

/-! ## Runs -/

/-- However many crashes there were: when a call of `resume` returns, each step that was enqueued
before a crash is reported, and was sent, or confirmed by a dry run. -/
structure NoneLost (log : List Effect) : Prop where
  reported : ∀ pre n mid post, log = pre ++ Effect.crash n :: mid ++ Effect.resumed :: post →
    ∀ id < n, Confirmed (pre ++ Effect.crash n :: mid) id ∨
      Unconfirmed (pre ++ Effect.crash n :: mid) id
  executed : ∀ pre n mid post, log = pre ++ Effect.crash n :: mid ++ Effect.resumed :: post →
    ∀ id < n, Sent (pre ++ Effect.crash n :: mid) id ∨ Confirmed (pre ++ Effect.crash n :: mid) id

/-- When a call of `resume` returns, the steps that were enqueued before a crash are settled. -/
def Resolved (log : List Effect) : Prop :=
  ∀ pre post n, log = pre ++ Effect.resumed :: post → Effect.crash n ∈ pre →
    ∀ id < n, Settled pre id

theorem Resolved.noneLost {log : List Effect} (h : Resolved log) : NoneLost log := by
  have hsettled : ∀ pre n mid post, log = pre ++ Effect.crash n :: mid ++ Effect.resumed :: post →
      ∀ id < n, Settled (pre ++ Effect.crash n :: mid) id := by
    intro pre n mid post hlog id hlt
    exact h _ post n hlog (List.mem_append_right _ List.mem_cons_self) id hlt
  refine ⟨?_, ?_⟩
  · intro pre n mid post hlog id hlt
    rcases hsettled pre n mid post hlog id hlt with hconfirmed | ⟨hunconfirmed, _⟩
    · exact Or.inl hconfirmed
    · exact Or.inr hunconfirmed
  · intro pre n mid post hlog id hlt
    rcases hsettled pre n mid post hlog id hlt with hconfirmed | ⟨_, hsent⟩
    · exact Or.inr hconfirmed
    · exact Or.inl hsent

theorem Resolved.of_append {log log' : List Effect} (h : Resolved (log ++ log')) :
    Resolved log := by
  intro pre post n hlog hcrash id hlt
  refine h pre (post ++ log') n ?_ hcrash id hlt
  rw [hlog, List.append_assoc]
  rfl

/-- Nothing returns from `resume`. -/
theorem Resolved.append {log effects : List Effect} (h : Resolved log)
    (hnone : Effect.resumed ∉ effects) : Resolved (log ++ effects) := by
  intro pre post n hlog hcrash id hlt
  rcases List.append_eq_append_iff.mp hlog with ⟨mid, rfl, heffects⟩ | ⟨mid, rfl, hpost⟩
  · rw [heffects] at hnone
    exact absurd (List.mem_append_right mid List.mem_cons_self) hnone
  · cases mid with
    | nil =>
      rw [List.nil_append] at hpost
      rw [← hpost] at hnone
      exact absurd List.mem_cons_self hnone
    | cons f rest =>
      obtain ⟨rfl, _⟩ := List.cons.inj hpost
      exact h pre rest n rfl hcrash id hlt

/-- What is settled is resolved when `resume` returns. -/
theorem Resolved.resume {log : List Effect} (h : Resolved log)
    (hsettled : ∀ n, Effect.crash n ∈ log → ∀ id < n, Settled log id) :
    Resolved (log ++ [Effect.resumed]) := by
  intro pre post n hlog hcrash id hlt
  rcases append_singleton_split hlog with ⟨_, rfl, _⟩ | ⟨post', _, hlog'⟩
  · exact hsettled n hcrash id hlt
  · exact h pre post' n hlog' hcrash id hlt

def Action.resumes : Action → Bool
  | .resume _ => true
  | _ => false

namespace QueueWorld

variable {cfg : QueueConfig} {w w' : QueueWorld}

/-- The steps that are held are stored, or need not be. -/
def Saved (w : QueueWorld) : Prop :=
  w.disk = none → ∀ r ∈ w.queue.rows, ∀ row ∈ r, Settled w.log row.id

instance (w : QueueWorld) : Decidable w.Saved := inferInstanceAs (Decidable (_ → _))

theorem Saved.settled (h : w.Saved) (hnone : w.disk = none) {id : Nat}
    (hheld : Held w.queue.rows id) : Settled w.log id := by
  obtain ⟨row, hrow, rfl⟩ := hheld.exists_row
  exact h hnone (some row) hrow row rfl

/-- What is stored is there when `resume` is called. -/
def SavedFor (w : QueueWorld) (a : Action) : Prop :=
  w.queue.uncrossed a = true ∧ (a.resumes = true → w.Saved)

instance (w : QueueWorld) (a : Action) : Decidable (w.SavedFor a) :=
  inferInstanceAs (Decidable (_ ∧ _))

/-- The condition on a step of a run. -/
def Recoverable (cfg : QueueConfig) (w : QueueWorld) : Label → Prop
  | .act a => w.SavedFor a
  | .crash _ => w.Saved
  | .crashIn a k _ => w.SavedFor a ∧
    ∀ r ∈ w.queue.act cfg w.disk a, (w.after r.1 (r.2.take (k + 1))).Saved

instance (w : QueueWorld) (l : Label) : Decidable (w.Recoverable cfg l) :=
  match l with
  | .act a => inferInstanceAs (Decidable (w.SavedFor a))
  | .crash _ => inferInstanceAs (Decidable w.Saved)
  | .crashIn .. => inferInstanceAs (Decidable (_ ∧ _))

/-- What holds in every state of a run. -/
structure Secure (cfg : QueueConfig) (w : QueueWorld) : Prop where
  kept : Kept cfg w.queue w.log w.disk
  all : ∀ id < w.queue.nextId, Held w.queue.rows id ∨ Settled w.log id
  crashes : ∀ n, Effect.crash n ∈ w.log → n ≤ w.queue.nextId
  resolved : Resolved w.log

/-- Up to where the effects of a move go, the steps are held or settled. -/
theorem Secure.all_until (h : w.Secure cfg) {a : Action} {q' : TransactionQueue}
    {effects : List Effect} (hcond : w.SavedFor a)
    (hmoves : Moves cfg w.disk w.queue a q' effects) (k : Nat) :
    ∀ id < q'.nextId, Held q'.rows id ∨ Settled (w.log ++ effects.take (k + 1)) id := by
  intro id hlt
  have hold : id < w.queue.nextId →
      Held q'.rows id ∨ Settled (w.log ++ effects.take (k + 1)) id := by
    intro hlt'
    rcases h.all id hlt' with hheld | hsettled
    · have hresume : ∀ opts, a = .resume opts → w.disk = none → ∀ id, Held w.queue.rows id →
          Settled w.log id := by
        intro opts ha hnone id hheld
        exact (hcond.2 (by rw [ha]; rfl)).settled hnone hheld
      rcases h.kept.holds hmoves hresume hheld with hheld' | hsettled
      · exact Or.inl hheld'
      · have hsplit : effects.take (k + 1) = effects.take 1 ++ (effects.drop 1).take k := by
          cases effects <;> simp
        rw [hsplit, ← List.append_assoc]
        exact Or.inr (hsettled.mono _)
    · exact Or.inr (hsettled.mono _)
  rcases Kept.numbers hmoves with hsame | ⟨hnext, hnew⟩
  · exact hold (hsame ▸ hlt)
  · rw [hnext] at hlt
    rcases Nat.lt_succ_iff_lt_or_eq.mp hlt with hlt' | rfl
    · exact hold hlt'
    · exact Or.inl hnew

theorem Secure.resolves (h : w.Secure cfg) (hstores : cfg.persistence = true) {a : Action}
    {q' : TransactionQueue} {effects : List Effect}
    (hmoves : Moves cfg w.disk w.queue a q' effects) : Resolved (w.log ++ effects) := by
  by_cases hresumed : Effect.resumed ∈ effects
  · obtain ⟨⟨before, rfl, hbefore⟩, hheld⟩ := h.kept.resumes hstores hmoves hresumed
    rw [← List.append_assoc]
    refine (h.resolved.append hbefore).resume ?_
    intro n hcrash id hlt
    have hcrash' : Effect.crash n ∈ w.log := by
      rcases List.mem_append.mp hcrash with hmem | hmem
      · exact hmem
      · exact absurd (List.mem_append_left _ hmem) (Kept.not_crash hmoves n)
    have hle := h.crashes n hcrash'
    rcases h.all id (by omega) with hheld' | hsettled
    · exact (hheld id hheld').mono before
    · exact hsettled.mono before
  · exact h.resolved.append hresumed

theorem Secure.counts (h : w.Secure cfg) {a : Action} {q' : TransactionQueue}
    {effects : List Effect} (hmoves : Moves cfg w.disk w.queue a q' effects) {m : Nat}
    (hcrash : Effect.crash m ∈ w.log ++ effects) : m ≤ q'.nextId := by
  have hle : w.queue.nextId ≤ q'.nextId := by
    rcases Kept.numbers hmoves with hsame | ⟨hnext, _⟩ <;> omega
  rcases List.mem_append.mp hcrash with hmem | hmem
  · exact Nat.le_trans (h.crashes m hmem) hle
  · exact absurd hmem (Kept.not_crash hmoves m)

theorem Secure.act (h : w.Secure cfg) (hstores : cfg.persistence = true) {a : Action}
    {q' : TransactionQueue} {effects : List Effect} (hcond : w.SavedFor a)
    (hact : w.queue.act cfg w.disk a = some (q', effects)) : (w.after q' effects).Secure cfg := by
  have hmoves := TransactionQueue.act_moves hcond.1 hact
  refine ⟨h.kept.move hmoves, ?_, fun m => h.counts hmoves, h.resolves hstores hmoves⟩
  have hall := h.all_until hcond hmoves effects.length
  rw [List.take_of_length_le (Nat.le_succ _)] at hall
  exact hall

theorem restart_of_stores {w : QueueWorld} (hstores : cfg.persistence = true) (opts : RunOptions) :
    w.restart cfg opts = ⟨{ TransactionQueue.new w.queue.nextId w.queue.calls with
      call := .loading w.disk opts, calls := w.queue.calls + 1 }, w.disk,
      w.log ++ [Effect.crash w.queue.nextId]⟩ := by
  rw [QueueWorld.restart, TransactionQueue.resume, if_pos hstores]
  rfl

/-- The process is gone, and a new one calls `resume`. -/
theorem Secure.restart {w : QueueWorld} {rows : Rows} (hstores : cfg.persistence = true)
    (hstored : Stored cfg w.log w.queue.nextId rows w.disk)
    (hnone : w.disk = none → ∀ id < w.queue.nextId, Settled w.log id)
    (hsome : w.disk = some rows → ∀ id < w.queue.nextId, Held rows id ∨ Settled w.log id)
    (hcrashes : ∀ m, Effect.crash m ∈ w.log → m ≤ w.queue.nextId) (hresolved : Resolved w.log)
    (opts : RunOptions) : (w.restart cfg opts).Secure cfg := by
  rw [restart_of_stores hstores]
  refine ⟨(Kept.restarted hstored hstores w.queue.calls opts).told _, ?_, ?_, ?_⟩
  · intro id hlt
    show Held (w.disk.getD []) id ∨ _
    rcases hstored with hdisk | ⟨_, hdisk, _⟩
    · exact Or.inr ((hnone hdisk id hlt).mono _)
    · rw [hdisk]
      rcases hsome hdisk id hlt with hheld | hsettled
      · exact Or.inl hheld
      · exact Or.inr (hsettled.mono _)
  · intro m hcrash
    rcases List.mem_append.mp hcrash with hmem | hmem
    · exact hcrashes m hmem
    · cases List.mem_singleton.mp hmem
      exact Nat.le_refl _
  · exact hresolved.append (by simp)

theorem Secure.crash (h : w.Secure cfg) (hstores : cfg.persistence = true) (hsaved : w.Saved)
    (opts : RunOptions) : (w.restart cfg opts).Secure cfg := by
  refine Secure.restart hstores (h.kept.mirrors.stored h.kept.state) ?_ (fun _ => h.all)
    h.crashes h.resolved opts
  intro hnone id hlt
  rcases h.all id hlt with hheld | hsettled
  · exact hsaved.settled hnone hheld
  · exact hsettled

theorem Secure.crashIn (h : w.Secure cfg) (hstores : cfg.persistence = true) {a : Action}
    {q' : TransactionQueue} {effects : List Effect} (hcond : w.SavedFor a)
    (hact : w.queue.act cfg w.disk a = some (q', effects)) {k : Nat}
    (hsaved : (w.after q' (effects.take (k + 1))).Saved) (opts : RunOptions) :
    ((w.after q' (effects.take (k + 1))).restart cfg opts).Secure cfg := by
  have hmoves := TransactionQueue.act_moves hcond.1 hact
  have hall := h.all_until hcond hmoves k
  have hsplit : w.log ++ effects =
      w.log ++ effects.take (k + 1) ++ effects.drop (k + 1) := by
    rw [List.append_assoc, List.take_append_drop]
  have hnone : (w.after q' (effects.take (k + 1))).disk = none → ∀ id < q'.nextId,
      Settled (w.log ++ effects.take (k + 1)) id := by
    intro hnone id hlt
    rcases hall id hlt with hheld | hsettled
    · exact hsaved.settled hnone hheld
    · exact hsettled
  have hcrashes : ∀ m, Effect.crash m ∈ w.log ++ effects.take (k + 1) → m ≤ q'.nextId := by
    intro m hcrash
    refine h.counts hmoves ?_
    rw [hsplit]
    exact List.mem_append_left _ hcrash
  have hresolved : Resolved (w.log ++ effects.take (k + 1)) := by
    have hall := h.resolves hstores hmoves
    rw [hsplit] at hall
    exact hall.of_append
  rcases h.kept.prefix_stored hmoves k with ⟨hnext, _, hstored⟩ | hstored
  · refine Secure.restart hstores hstored hnone ?_ hcrashes hresolved opts
    intro _ id hlt
    have hlt' : id < w.queue.nextId := by
      rw [← hnext]
      exact hlt
    rcases h.all id hlt' with hheld | hsettled
    · exact Or.inl hheld
    · exact Or.inr (hsettled.mono _)
  · exact Secure.restart hstores hstored hnone (fun _ => hall) hcrashes hresolved opts

theorem Secure.step (h : w.Secure cfg) (hstores : cfg.persistence = true) {l : Label}
    (hcond : w.Recoverable cfg l) (hnext : w.next cfg l = some w') : w'.Secure cfg := by
  cases l with
  | act a =>
    obtain ⟨⟨q', effects⟩, hact, rfl⟩ := Option.map_eq_some_iff.mp hnext
    exact h.act hstores hcond hact
  | crash opts =>
    obtain rfl := Option.some.inj hnext
    exact h.crash hstores hcond opts
  | crashIn a k opts =>
    obtain ⟨⟨q', effects⟩, hact, rfl⟩ := Option.map_eq_some_iff.mp hnext
    exact h.crashIn hstores hcond.1 hact (hcond.2 _ hact) opts

theorem Secure.initial : QueueWorld.initial.Secure cfg := by
  refine ⟨Kept.new cfg [] 0 0, nofun, nofun, ?_⟩
  intro pre post n hlog
  cases pre <;> cases hlog

end QueueWorld

/-- Whatever a crash interrupts, and however often: in a run in which what is held is stored when
the process ends or `resume` is called, no step is lost. -/
theorem restart_loses_no_step {cfg : QueueConfig} (hstores : cfg.persistence = true)
    {labels : List QueueWorld.Label} {w : QueueWorld}
    (h : Run (Run.Guarded (StepOf (QueueWorld.next cfg)) (QueueWorld.Recoverable cfg))
      QueueWorld.initial labels w) : NoneLost w.log := by
  have hsecure : w.Secure cfg := h.invariant
    (fun _ _ _ hw hstep => hw.step hstores hstep.2 hstep.1) QueueWorld.Secure.initial
  exact hsecure.resolved.noneLost

/-- The first of two steps is submitted, and the second is not, when the process ends. -/
def restartedRun : List QueueWorld.Label :=
  [QueueWorld.Label.act (.enqueue "first" false none), .act (.enqueue "second" false none),
    .act (.run plainOptions)] ++ submitted 0 ++
    [QueueWorld.Label.crash plainOptions, .act .proceed, .act .proceed, .act .proceed,
      .act (.polled (.found true)), .act .proceed, .act .proceed] ++ confirmed 0

theorem restart_loses_no_step_twice : ∃ w : QueueWorld, NoneLost w.log ∧
    Effect.crash 2 ∈ w.log ∧ Effect.send 1 ∈ w.log ∧ Effect.resumed ∈ w.log := by
  obtain ⟨w, hw⟩ := Option.isSome_iff_exists.mp (by decide :
    (walk (restrict (QueueWorld.next plainConfig) (QueueWorld.Recoverable plainConfig))
      restartedRun QueueWorld.initial).isSome = true)
  have hlog : (walk (restrict (QueueWorld.next plainConfig) (QueueWorld.Recoverable plainConfig))
      restartedRun QueueWorld.initial).map (fun w => decide (Effect.crash 2 ∈ w.log ∧
        Effect.send 1 ∈ w.log ∧ Effect.resumed ∈ w.log)) = some true := by decide
  rw [hw] at hlog
  exact ⟨w, restart_loses_no_step rfl (guarded_of_walk hw),
    of_decide_eq_true (Option.some.inj hlog)⟩

/-- The process ends again after `resume` has cleared what was stored. -/
def clearedRun : List QueueWorld.Label :=
  [.act (.enqueue "step" false none), .crash plainOptions, .act .proceed, .crash plainOptions,
    .act .proceed, .act .proceed]

/-- A call of `resume` returns and nothing was ever said of the step. -/
theorem step_lost_in_restart : ∃ w : QueueWorld,
    Run (StepOf (QueueWorld.next plainConfig)) QueueWorld.initial clearedRun w ∧
      w.queue.steps = [] ∧ w.disk = none ∧ ¬NoneLost w.log := by
  obtain ⟨w, hw⟩ := Option.isSome_iff_exists.mp (by decide :
    (walk (QueueWorld.next plainConfig) clearedRun QueueWorld.initial).isSome = true)
  have hstate : (walk (QueueWorld.next plainConfig) clearedRun QueueWorld.initial).map
      (fun w => decide (w.queue.steps = [] ∧ w.disk = none)) = some true := by decide
  have hlog : (walk (QueueWorld.next plainConfig) clearedRun QueueWorld.initial).map
      (fun w => w.log) = some
        ([Effect.save [TransactionQueue.pendingRow ⟨0, "step", false, none⟩]] ++
          Effect.crash 1 :: [Effect.clear, .crash 1, .clear] ++ Effect.resumed :: []) := by decide
  rw [hw] at hstate hlog
  obtain ⟨hsteps, hdisk⟩ := of_decide_eq_true (Option.some.inj hstate)
  refine ⟨w, run_of_walk hw, hsteps, hdisk, ?_⟩
  intro hnone
  rcases hnone.reported _ _ _ _ (Option.some.inj hlog) 0 Nat.zero_lt_one with htold | htold
  · exact absurd htold (by decide)
  · exact absurd htold (by decide)

end Sdk
end Linkora
