import Linkora.Lib.Tasks
import Linkora.Sdk.QueueRows

/-!
# What the queue keeps of its steps

The rows of the queue and of the adapter list the steps that are kept, and the work of the last
call is about one of them, as long as no step is enqueued while `resume` looks at what is stored
and no answer reaches the work of an earlier call.
-/

namespace Linkora
namespace Sdk

/-! ## Where the work stands -/

/-- The step of an execution is where it was, and those before it are confirmed. -/
structure Placed (log : List Effect) (steps : List QueueStep) (e : Execution) : Prop where
  step : steps[e.index]? = some e.step
  earlier : ∀ j < e.index, ∀ step, steps[j]? = some step → Confirmed log step.id

/-- What holds of an execution of the last call. -/
structure Current (log : List Effect) (steps : List QueueStep) (rows : Rows) (e : Execution) :
    Prop where
  placed : e.work.active = true → Placed log steps e
  sending : ∀ attempt, e.work = .sending attempt → Sent log e.step.id
  polling : ∀ hash attempt, e.work = .polling hash attempt → ∃ row,
    rows[e.index]? = some (some row) ∧ row.status = .submitted ∧ row.hash.isSome = true
  won : e.race = some true → e.work.active = false ∧ Confirmed log e.step.id

theorem Placed.mono {log : List Effect} {steps : List QueueStep} {e : Execution}
    (h : Placed log steps e) (log' : List Effect) (steps' : List QueueStep) :
    Placed (log ++ log') (steps ++ steps') e := by
  have hlt : e.index < steps.length := (List.getElem?_eq_some_iff.mp h.step).1
  refine ⟨?_, ?_⟩
  · rw [List.getElem?_append_left hlt]
    exact h.step
  · intro j hj step hstep
    rw [List.getElem?_append_left (Nat.lt_trans hj hlt)] at hstep
    exact (h.earlier j hj step hstep).mono log'

theorem Placed.told {log : List Effect} {steps : List QueueStep} {e : Execution}
    (h : Placed log steps e) (log' : List Effect) : Placed (log ++ log') steps e := by
  have hmono := h.mono log' []
  rwa [List.append_nil] at hmono

theorem Current.mono {log : List Effect} {steps : List QueueStep} {rows : Rows} {e : Execution}
    (h : Current log steps rows e) (log' : List Effect) (steps' : List QueueStep) (rows' : Rows) :
    Current (log ++ log') (steps ++ steps') (rows ++ rows') e := by
  refine ⟨fun hactive => (h.placed hactive).mono log' steps',
    fun attempt hwork => (h.sending attempt hwork).mono log', ?_,
    fun hrace => ⟨(h.won hrace).1, (h.won hrace).2.mono log'⟩⟩
  intro hash attempt hwork
  obtain ⟨row, hrow, hstatus⟩ := h.polling hash attempt hwork
  refine ⟨row, ?_, hstatus⟩
  rw [List.getElem?_append_left (List.getElem?_eq_some_iff.mp hrow).1]
  exact hrow

theorem Current.told {log : List Effect} {steps : List QueueStep} {rows : Rows} {e : Execution}
    (h : Current log steps rows e) (log' : List Effect) :
    Current (log ++ log') steps rows e := by
  have hmono := h.mono log' [] []
  rwa [List.append_nil, List.append_nil] at hmono

/-- Work that is done or has failed stands nowhere. -/
theorem Current.of_inactive {log : List Effect} {steps : List QueueStep} {rows : Rows}
    {e : Execution} (hwork : e.work.active = false)
    (hwon : e.race = some true → Confirmed log e.step.id) : Current log steps rows e := by
  refine ⟨?_, ?_, ?_, fun hrace => ⟨hwork, hwon hrace⟩⟩
  · intro hactive
    rw [hactive] at hwork
    cases hwork
  · intro attempt hsending
    rw [hsending] at hwork
    cases hwork
  · intro hash attempt hpolling
    rw [hpolling] at hwork
    cases hwork

/-- A turn writes down what is told before. -/
theorem Execution.Takes.fits {e : Execution} {turn : Turn} (h : e.Takes turn) {log : List Effect}
    (hsending : ∀ attempt, e.work = .sending attempt → Sent log e.step.id) :
    Fits e log turn.notes := by
  cases h with
  | waits | pollsAgain | givesUp | rejected | failed | sends => trivial
  | simulatedOnly | simulatedSends | simulatedFailed =>
    exact ⟨nofun, nofun, by simp [Note.marks]⟩
  | accepted hwork | acceptedFailed hwork =>
    exact ⟨nofun, fun _ => (hsending _ hwork).mono _, by simp [Note.marks]⟩
  | confirmed => exact ⟨fun _ => tells_emit rfl rfl, nofun, List.forall_mem_nil _⟩

/-! ## What is kept -/

/-- The rows of the steps that are not lost, and not known to be confirmed. -/
def Call.rows (stepStates : Rows) : Call → Rows
  | .loading state _ | .clearing state _ => state.getD []
  | .reconciling rows i unfinished _ | .polling rows i _ unfinished _ =>
    unfinished.map TransactionQueue.pendingRow ++ rows.drop i
  | .idle | .stepping _ _ _ => stepStates

def TransactionQueue.rows (q : TransactionQueue) : Rows := q.call.rows q.stepStates

/-- `resume` has cleared what was stored. -/
def Call.cleared : Call → Bool
  | .clearing _ _ | .reconciling _ _ _ _ | .polling _ _ _ _ _ => true
  | _ => false

theorem Call.preparing_of_cleared {call : Call} (h : call.cleared = true) :
    call.preparing = true := by
  cases call <;> first | rfl | cases h

/-- What holds between two moves. -/
structure Kept (cfg : QueueConfig) (q : TransactionQueue) (log : List Effect)
    (disk : Option Rows) : Prop where
  memory : Told log q.nextId (q.steps.map fun step => step.id) q.stepStates
  state : ∃ ids, Told log q.nextId ids q.rows
  mirrors : Mirrors cfg q.rows disk
  cleared : q.call.cleared = true → disk = none
  runs : ∀ (x : Nat) e, q.executions[x]? = some e → e.run ≤ q.calls
  unused : q.call.preparing = true → ∀ (x : Nat) e, q.executions[x]? = some e → e.run < q.calls
  past : ∀ (x : Nat) e, q.executions[x]? = some e → x + 1 < q.executions.length →
    e.run = q.calls → e.work.active = false
  current : ∀ (x : Nat) e, q.executions[x]? = some e → e.run = q.calls →
    Current log q.steps q.stepStates e
  stepping : ∀ i resuming opts, q.call = .stepping i resuming opts → ∃ e,
    q.executions.getLast? = some e ∧ e.run = q.calls ∧ e.index = i ∧ Placed log q.steps e
  polling : ∀ rows i attempt unfinished opts, q.call = .polling rows i attempt unfinished opts →
    ∃ row, rows[i]? = some (some row) ∧ row.unfinished = false ∧ row.status = .submitted ∧
      Unconfirmed log row.id

/-- What the loop over the steps begins with. -/
structure Poised (cfg : QueueConfig) (q : TransactionQueue) (log : List Effect)
    (disk : Option Rows) (i : Nat) : Prop where
  memory : Told log q.nextId (q.steps.map fun step => step.id) q.stepStates
  mirrors : Mirrors cfg q.stepStates disk
  runs : ∀ (x : Nat) e, q.executions[x]? = some e → e.run ≤ q.calls
  ended : ∀ (x : Nat) e, q.executions[x]? = some e → e.run = q.calls →
    e.work.active = false ∧ (e.race = some true → Confirmed log e.step.id)
  earlier : ∀ j < i, ∀ step, q.steps[j]? = some step → Confirmed log step.id

section Loop

variable {cfg : QueueConfig} {q : TransactionQueue} {log : List Effect} {disk : Option Rows}
  {i : Nat}

/-- The execution that begins is of the call and the step, and has not come through. -/
theorem runStep_spec (cfg : QueueConfig) (q : TransactionQueue) (i : Nat) (step : QueueStep)
    (opts : RunOptions) :
    (q.begin cfg i step opts).Same (q.runStep cfg i step opts).1 ∧
      (q.runStep cfg i step opts).1.race ≠ some true ∧
      ((q.runStep cfg i step opts).1.work.active = true →
        (q.runStep cfg i step opts).1.work = .locking ∨
          (q.runStep cfg i step opts).1.work = .signing) ∧
      ∀ f ∈ (q.runStep cfg i step opts).2, f.plain = true := by
  rcases TransactionQueue.runStep_cases cfg q i step opts with h | h
  · rw [h]
    exact ⟨⟨rfl, rfl, rfl⟩, nofun, fun _ => TransactionQueue.begin_work cfg q i step opts, List.forall_mem_nil _⟩
  · rw [h]
    refine ⟨Execution.released_rollBack_same _ _ _, Execution.rollBack_race _ _ _ nofun, ?_, ?_⟩
    · intro hactive
      rw [Execution.rollBack_inactive] at hactive
      cases hactive
    · intro f hf
      rcases List.mem_cons.mp hf with rfl | hf
      · rfl
      · exact Execution.rollBack_plain _ f hf

theorem Effect.passive_of_plain {f : Effect} (h : f.plain = true) : f.passive = true := by
  cases f <;> first | rfl | cases h

/-- The loop begins a step. -/
theorem loop_some {step : QueueStep} (hstep : q.steps[i]? = some step) (resuming : Bool)
    (opts : RunOptions) : q.loop cfg i resuming opts =
      ({ q with executions := q.executions ++ [(q.runStep cfg i step opts).1],
                call := .stepping i resuming opts },
        .emit ((q.begin cfg i step opts).event .pending none false) ::
          (q.runStep cfg i step opts).2) := by
  rw [TransactionQueue.loop, hstep]

theorem loop_none (hstep : q.steps[i]? = none) (resuming : Bool) (opts : RunOptions) :
    q.loop cfg i resuming opts = ({ q with steps := [], stepStates := [], call := .idle },
      (if cfg.persistence then [Effect.clear] else []) ++
        if resuming then [Effect.resumed] else []) := by
  rw [TransactionQueue.loop, hstep]

theorem begin_plain {step : QueueStep} (opts : RunOptions) :
    ∀ f ∈ Effect.emit ((q.begin cfg i step opts).event .pending none false) ::
      (q.runStep cfg i step opts).2, f.plain = true := by
  intro f hf
  rcases List.mem_cons.mp hf with rfl | hf
  · rfl
  · exact (runStep_spec cfg q i step opts).2.2.2 f hf

theorem Poised.begins (h : Poised cfg q log disk i) {step : QueueStep}
    (hstep : q.steps[i]? = some step) (resuming : Bool) (opts : RunOptions) :
    Kept cfg (q.loop cfg i resuming opts).1 (log ++ (q.loop cfg i resuming opts).2)
      ((q.loop cfg i resuming opts).2.foldl Effect.store disk) := by
  obtain ⟨hsame, hrace, hwork, _⟩ := runStep_spec cfg q i step opts
  rw [loop_some hstep, foldl_passive fun f hf => Effect.passive_of_plain (begin_plain opts f hf)]
  have hplaced : ∀ log', Placed (log ++ log') q.steps (q.runStep cfg i step opts).1 := by
    intro log'
    refine ⟨?_, ?_⟩
    · rw [hsame.index, hsame.step]
      exact hstep
    · intro j hj step' hstep'
      rw [hsame.index] at hj
      exact (h.earlier j hj step' hstep').mono log'
  refine ⟨h.memory.mono _, ⟨_, h.memory.mono _⟩, h.mirrors, nofun, ?_, nofun, ?_, ?_, ?_, nofun⟩
  · intro x e hx
    rcases getElem?_snoc hx with hx | ⟨_, rfl⟩
    · exact h.runs x e hx
    · rw [hsame.run]
      exact Nat.le_refl q.calls
  · intro x e hx hlt hrun
    rcases getElem?_snoc hx with hx | ⟨rfl, rfl⟩
    · exact (h.ended x e hx hrun).1
    · rw [List.length_append] at hlt
      exact absurd hlt (Nat.lt_irrefl _)
  · intro x e hx hrun
    rcases getElem?_snoc hx with hx | ⟨rfl, rfl⟩
    · obtain ⟨hinactive, hwon⟩ := h.ended x e hx hrun
      exact Current.of_inactive hinactive fun hrace => (hwon hrace).mono _
    · refine ⟨fun _ => hplaced _, ?_, ?_, fun hwon => absurd hwon hrace⟩
      · intro attempt hsending
        rcases hwork (by rw [hsending]; rfl) with heq | heq <;> rw [heq] at hsending <;>
          cases hsending
      · intro hash attempt hpolling
        rcases hwork (by rw [hpolling]; rfl) with heq | heq <;> rw [heq] at hpolling <;>
          cases hpolling
  · rintro j resuming' opts' hcall
    obtain ⟨rfl, _⟩ := Call.stepping.inj hcall
    exact ⟨_, List.getLast?_concat, hsame.run, hsame.index, hplaced _⟩

theorem passive_resumed (resuming : Bool) :
    ∀ f ∈ if resuming then [Effect.resumed] else [], f.passive = true := by
  intro f hf
  split at hf
  · rw [List.mem_singleton.mp hf]
    rfl
  · cases hf

theorem Poised.finishes (h : Poised cfg q log disk i) (hstep : q.steps[i]? = none)
    (resuming : Bool) (opts : RunOptions) :
    Kept cfg (q.loop cfg i resuming opts).1 (log ++ (q.loop cfg i resuming opts).2)
      ((q.loop cfg i resuming opts).2.foldl Effect.store disk) := by
  rw [loop_none hstep]
  refine ⟨Told.nil _ _, ⟨[], Told.nil _ _⟩, Or.inl ?_, nofun, h.runs, nofun, ?_, ?_, nofun, nofun⟩
  · have hpassive := passive_resumed resuming
    rw [List.foldl_append, foldl_passive hpassive]
    split
    · rfl
    · rename_i hstores
      rcases h.mirrors with hnone | ⟨hstores', _⟩
      · exact hnone
      · exact absurd hstores' hstores
  · intro x e hx _ hrun
    exact (h.ended x e hx hrun).1
  · intro x e hx hrun
    obtain ⟨hinactive, hwon⟩ := h.ended x e hx hrun
    exact Current.of_inactive hinactive fun hrace => (hwon hrace).mono _

theorem Poised.loop (h : Poised cfg q log disk i) (resuming : Bool) (opts : RunOptions) :
    Kept cfg (q.loop cfg i resuming opts).1 (log ++ (q.loop cfg i resuming opts).2)
      ((q.loop cfg i resuming opts).2.foldl Effect.store disk) := by
  cases hstep : q.steps[i]? with
  | some step => exact h.begins hstep resuming opts
  | none => exact h.finishes hstep resuming opts

end Loop

/-! ## What `resume` keeps -/

theorem drop_of_getElem? {α : Type} {l : List α} {i : Nat} {a : α} (h : l[i]? = some a) :
    l.drop i = a :: l.drop (i + 1) := by
  obtain ⟨hlt, rfl⟩ := List.getElem?_eq_some_iff.mp h
  exact List.drop_eq_getElem_cons hlt

theorem queue_again (unfinished : List QueueStep) (row : PersistedQueueStep) (rest : Rows) :
    (unfinished ++ [row.step]).map TransactionQueue.pendingRow ++ rest =
      unfinished.map TransactionQueue.pendingRow ++
        TransactionQueue.pendingRow row.step :: rest := by
  rw [List.map_append, List.append_assoc]
  rfl

theorem Prepares.told {cfg : QueueConfig} {a : Action} {call call' : Call}
    {effects log : List Effect} {n : Nat} {stepStates : Rows}
    (h : Prepares cfg a call effects call') (hmemory : ∃ ids, Told log n ids stepStates)
    (htold : ∃ ids, Told log n ids (call.rows stepStates)) :
    ∃ ids, Told (log ++ effects) n ids (call'.rows stepStates) := by
  obtain ⟨ids, htold⟩ := htold
  cases h with
  | clears => exact ⟨ids, htold.mono _⟩
  | finds | throws =>
    obtain ⟨ids', hmemory⟩ := hmemory
    exact ⟨ids', hmemory.mono _⟩
  | begins => exact ⟨ids, htold.mono _⟩
  | asks | waits => exact ⟨ids, htold.mono _⟩
  | givesUp hrow | recovers hrow | succeeds hrow | fails hrow =>
    rw [Call.rows, drop_of_getElem? hrow] at htold
    obtain ⟨before, after, _, hleft⟩ := htold.leave
    exact ⟨_, hleft.mono _⟩
  | requeues hrow =>
    rw [Call.rows, drop_of_getElem? hrow] at htold
    rw [Call.rows, queue_again]
    exact ⟨_, htold.again.mono _⟩

/-- What `resume` does to the adapter. -/
theorem Prepares.cleared {cfg : QueueConfig} {a : Action} {call call' : Call}
    {effects : List Effect} (h : Prepares cfg a call effects call') {disk : Option Rows}
    (hcleared : call.cleared = true → disk = none) : effects.foldl Effect.store disk = none := by
  cases h with
  | clears => rfl
  | _ => exact hcleared rfl

theorem Prepares.preparing {cfg : QueueConfig} {a : Action} {call call' : Call}
    {effects : List Effect} (h : Prepares cfg a call effects call') : call.preparing = true := by
  cases h <;> rfl

theorem Prepares.not_stepping {cfg : QueueConfig} {a : Action} {call call' : Call}
    {effects : List Effect} (h : Prepares cfg a call effects call') (i : Nat) (resuming : Bool)
    (opts : RunOptions) : call' ≠ .stepping i resuming opts := by
  intro hstepping
  cases h <;> cases hstepping

theorem PersistedQueueStep.unfinished_of_submitted {row : PersistedQueueStep} {hash : TxHash}
    (hstatus : row.status = .submitted) (hhash : row.hash = some hash) :
    row.unfinished = false := by
  rw [unfinished, hstatus, hhash]

theorem Prepares.polling {cfg : QueueConfig} {a : Action} {call call' : Call}
    {effects log : List Effect} (h : Prepares cfg a call effects call')
    (hpolling : ∀ rows i attempt unfinished opts, call = .polling rows i attempt unfinished opts →
      ∃ row, rows[i]? = some (some row) ∧ row.unfinished = false ∧ row.status = .submitted ∧
        Unconfirmed log row.id) :
    ∀ rows i attempt unfinished opts, call' = .polling rows i attempt unfinished opts →
      ∃ row, rows[i]? = some (some row) ∧ row.unfinished = false ∧ row.status = .submitted ∧
        Unconfirmed (log ++ effects) row.id := by
  intro rows i attempt unfinished opts hcall
  cases h with
  | asks hrow hstatus hhash =>
    obtain ⟨rfl, rfl, _⟩ := Call.polling.inj hcall
    exact ⟨_, hrow, PersistedQueueStep.unfinished_of_submitted hstatus hhash, hstatus,
      tells_emit rfl rfl⟩
  | waits =>
    obtain ⟨rfl, rfl, _⟩ := Call.polling.inj hcall
    obtain ⟨row, hrow, hunfinished, hstatus, htold⟩ := hpolling _ _ _ _ _ rfl
    exact ⟨row, hrow, hunfinished, hstatus, htold.mono _⟩
  | _ => cases hcall

namespace Kept

variable {cfg : QueueConfig} {q q' : TransactionQueue} {log effects : List Effect}
  {disk : Option Rows}

theorem rows_of_idle (hcall : q.call = .idle) : q.rows = q.stepStates := by
  rw [TransactionQueue.rows, hcall]
  rfl

theorem rows_of_working (hcall : q.call.preparing = false) : q.rows = q.stepStates := by
  rw [TransactionQueue.rows]
  cases hq : q.call with
  | idle | stepping => rfl
  | _ =>
    rw [hq] at hcall
    cases hcall

theorem enqueues (h : Kept cfg q log disk) (xdr : String) (rollback : Bool)
    (stepTimeoutMs : Option Nat) (hcall : q.call.preparing = false) :
    Kept cfg (q.enqueue cfg xdr rollback stepTimeoutMs).1
      (log ++ (q.enqueue cfg xdr rollback stepTimeoutMs).2)
      ((q.enqueue cfg xdr rollback stepTimeoutMs).2.foldl Effect.store disk) := by
  have hmemory := (h.memory.snoc xdr rollback stepTimeoutMs).mono
    (q.enqueue cfg xdr rollback stepTimeoutMs).2
  rw [← List.map_singleton (f := fun step : QueueStep => step.id)
    (a := ⟨q.nextId, xdr, rollback, stepTimeoutMs⟩), ← List.map_append] at hmemory
  have hworking : (q.enqueue cfg xdr rollback stepTimeoutMs).1.call.preparing = false := hcall
  refine ⟨hmemory, ?_, ?_, ?_, h.runs, ?_, h.past, ?_, ?_, ?_⟩
  · rw [rows_of_working hworking]
    exact ⟨_, hmemory⟩
  · rw [rows_of_working hworking]
    show Mirrors cfg _ ((persist cfg _).foldl Effect.store disk)
    rw [persist]
    split
    · exact Or.inr ⟨‹_›, rfl⟩
    · rename_i hstores
      rcases h.mirrors with hnone | ⟨hstores', _⟩
      · exact Or.inl hnone
      · exact absurd hstores' hstores
  · intro hcleared
    rw [Call.preparing_of_cleared hcleared] at hworking
    cases hworking
  · intro htrue
    rw [hworking] at htrue
    cases htrue
  · intro x e hx hrun
    exact (h.current x e hx hrun).mono _ _ _
  · intro i resuming opts hstepping
    obtain ⟨e, hlast, hrun, hindex, hplaced⟩ := h.stepping i resuming opts hstepping
    exact ⟨e, hlast, hrun, hindex, hplaced.mono _ _⟩
  · intro rows i attempt unfinished opts hpolling
    have hpolling' : q.call = .polling rows i attempt unfinished opts := hpolling
    rw [hpolling'] at hcall
    cases hcall

theorem told (h : Kept cfg q log disk) (log' : List Effect) : Kept cfg q (log ++ log') disk := by
  obtain ⟨ids, hstate⟩ := h.state
  refine ⟨h.memory.mono log', ⟨ids, hstate.mono log'⟩, h.mirrors, h.cleared, h.runs, h.unused,
    h.past, fun x e hx hrun => (h.current x e hx hrun).told log', ?_, ?_⟩
  · intro i resuming opts hstepping
    obtain ⟨e, hlast, hrun, hindex, hplaced⟩ := h.stepping i resuming opts hstepping
    exact ⟨e, hlast, hrun, hindex, hplaced.told log'⟩
  · intro rows i attempt unfinished opts hpolling
    obtain ⟨row, hrow, hunfinished, hstatus, htold⟩ :=
      h.polling rows i attempt unfinished opts hpolling
    exact ⟨row, hrow, hunfinished, hstatus, htold.mono log'⟩

theorem prepares (h : Kept cfg q log disk) {a : Action} {call : Call} (hashes : List TxHash)
    (hprepares : Prepares cfg a q.call effects call) :
    Kept cfg { q with call, submittedHashes := hashes } (log ++ effects)
      (effects.foldl Effect.store disk) := by
  have hold := h.unused hprepares.preparing
  refine ⟨h.memory.mono _, hprepares.told ⟨_, h.memory⟩ h.state,
    Or.inl (hprepares.cleared h.cleared), fun _ => hprepares.cleared h.cleared, h.runs,
    fun _ => hold, h.past, ?_, ?_, hprepares.polling h.polling⟩
  · intro x e hx hrun
    have hlt := hold x e hx
    have hrun' : e.run = q.calls := hrun
    omega
  · intro i resuming opts hstepping
    exact absurd hstepping (hprepares.not_stepping i resuming opts)

theorem loads (h : Kept cfg q log disk) (opts : RunOptions) (hcall : q.call = .idle) :
    Kept cfg { q with call := .loading disk opts, calls := q.calls + 1 } log disk := by
  have hold : ∀ (x : Nat) e, q.executions[x]? = some e → e.run < q.calls + 1 :=
    fun x e hx => Nat.lt_succ_of_le (h.runs x e hx)
  have hmirrors := h.mirrors
  rw [rows_of_idle hcall] at hmirrors
  refine ⟨h.memory, ?_, ?_, nofun, fun x e hx => Nat.le_of_lt (hold x e hx), fun _ => hold,
    ?_, ?_, nofun, nofun⟩
  · show ∃ ids, Told log q.nextId ids (disk.getD [])
    rcases hmirrors with hnone | ⟨_, hsome⟩
    · rw [hnone]
      exact ⟨[], Told.nil log q.nextId⟩
    · rw [hsome]
      exact ⟨_, h.memory⟩
  · show Mirrors cfg (disk.getD []) disk
    rcases hmirrors with hnone | ⟨hstores, hsome⟩
    · exact Or.inl hnone
    · rw [hsome]
      exact Or.inr ⟨hstores, rfl⟩
  · intro x e hx _ hrun
    exact absurd hrun (Nat.ne_of_lt (hold x e hx))
  · intro x e hx hrun
    exact absurd hrun (Nat.ne_of_lt (hold x e hx))

/-- The rows are all gone through. -/
theorem refilled (h : Kept cfg q log disk) {rows : Rows} {i : Nat} {unfinished : List QueueStep}
    {opts : RunOptions} (hcall : q.call = .reconciling rows i unfinished opts)
    (hrow : rows[i]? = none) : Told log q.nextId (unfinished.map fun step => step.id)
      (unfinished.map TransactionQueue.pendingRow) := by
  obtain ⟨ids, hstate⟩ := h.state
  rw [TransactionQueue.rows, hcall, Call.rows,
    List.drop_eq_nil_of_le (List.getElem?_eq_none_iff.mp hrow), List.append_nil] at hstate
  have hids : ids = unfinished.map fun step => step.id := by
    have hwhole := hstate.whole
    rw [rowIds, List.map_map] at hwhole
    apply List.map_injective_iff.mpr fun _ _ => Option.some.inj
    rw [← hwhole, List.map_map]
    rfl
  rw [← hids]
  exact hstate

theorem poised_refill (h : Kept cfg q log disk) {rows : Rows} {i : Nat}
    {unfinished : List QueueStep} {opts : RunOptions}
    (hcall : q.call = .reconciling rows i unfinished opts) (hrow : rows[i]? = none) :
    Poised cfg (q.refill unfinished) log disk 0 := by
  refine ⟨h.refilled hcall hrow, Or.inl (h.cleared (by rw [hcall]; rfl)), h.runs, ?_, nofun⟩
  intro x e hx hrun
  exact absurd hrun (Nat.ne_of_lt (h.unused (by rw [hcall]; rfl) x e hx))

theorem returns (h : Kept cfg q log disk) {rows : Rows} {i : Nat} {opts : RunOptions}
    (hcall : q.call = .reconciling rows i [] opts) :
    Kept cfg { q.refill [] with call := .idle } (log ++ [Effect.resumed]) disk := by
  have hold := h.unused (by rw [hcall]; rfl)
  refine ⟨Told.nil _ _, ⟨[], Told.nil _ _⟩, Or.inl (h.cleared (by rw [hcall]; rfl)), nofun,
    h.runs, nofun, h.past, ?_, nofun, nofun⟩
  intro x e hx hrun
  exact absurd hrun (Nat.ne_of_lt (hold x e hx))

theorem poised_run (h : Kept cfg q log disk) (hcall : q.call = .idle) :
    Poised cfg { q with submittedHashes := [], calls := q.calls + 1 } log disk 0 := by
  have hmirrors := h.mirrors
  rw [rows_of_idle hcall] at hmirrors
  have hold : ∀ (x : Nat) e, q.executions[x]? = some e → e.run < q.calls + 1 :=
    fun x e hx => Nat.lt_succ_of_le (h.runs x e hx)
  refine ⟨h.memory, hmirrors, fun x e hx => Nat.le_of_lt (hold x e hx), ?_, nofun⟩
  intro x e hx hrun
  exact absurd hrun (Nat.ne_of_lt (hold x e hx))

theorem poised_next (h : Kept cfg q log disk) {i : Nat} {resuming : Bool} {opts : RunOptions}
    (hcall : q.call = .stepping i resuming opts)
    (hrace : q.executions.getLast?.bind Execution.race = some true) :
    Poised cfg q log disk (i + 1) := by
  obtain ⟨e, hlast, hrun, rfl, hplaced⟩ := h.stepping i resuming opts hcall
  have hmirrors := h.mirrors
  rw [rows_of_working (by rw [hcall]; rfl)] at hmirrors
  have hlast' : q.executions[q.executions.length - 1]? = some e := by
    rw [← List.getLast?_eq_getElem?, hlast]
  have hwon : e.race = some true := by
    rw [hlast] at hrace
    exact hrace
  obtain ⟨hinactive, hconfirmed⟩ := (h.current _ e hlast' hrun).won hwon
  refine ⟨h.memory, hmirrors, h.runs, ?_, ?_⟩
  · intro x e' hx hrun'
    refine ⟨?_, fun hwon' => ((h.current x e' hx hrun').won hwon').2⟩
    rcases Nat.lt_or_ge (x + 1) q.executions.length with hlt | hge
    · exact h.past x e' hx hlt hrun'
    · have hlt := (List.getElem?_eq_some_iff.mp hx).1
      rw [show x = q.executions.length - 1 by omega, hlast'] at hx
      rw [← Option.some.inj hx]
      exact hinactive
  · intro j hj step hstep
    rcases Nat.lt_succ_iff_lt_or_eq.mp hj with hlt | rfl
    · exact hplaced.earlier j hlt step hstep
    · rw [hplaced.step] at hstep
      rw [← Option.some.inj hstep]
      exact hconfirmed

theorem stops (h : Kept cfg q log disk) {i : Nat} {resuming : Bool} {opts : RunOptions}
    (hcall : q.call = .stepping i resuming opts) :
    Kept cfg { q with call := .idle } log disk := by
  have hmirrors := h.mirrors
  rw [rows_of_working (by rw [hcall]; rfl)] at hmirrors
  exact ⟨h.memory, ⟨_, h.memory⟩, hmirrors, nofun, h.runs, nofun, h.past, h.current, nofun, nofun⟩

end Kept

/-! ## What a turn keeps -/

theorem markPersisted_getElem? {rows : Rows} {e : Execution} (hlt : e.index < rows.length)
    (status : PersistedStatus) (hash : Option TxHash) :
    (markPersisted rows e status hash)[e.index]? = some (some (markedRow rows e status hash)) := by
  rw [markPersisted, writeRow, if_pos hlt]
  exact List.getElem?_set_self hlt

section Turn

variable {cfg : QueueConfig} {log : List Effect} {steps : List QueueStep} {rows : Rows}
  {e : Execution} {completed : List Nat}

/-- The work goes on to wait. -/
theorem Current.waits (h : Current log steps rows e) (hactive : e.work.active = true)
    {work : Work} {rows' : Rows} (log' : List Effect)
    (hsending : ∀ attempt, work = .sending attempt → Sent (log ++ log') e.step.id)
    (hpolling : ∀ hash attempt, work = .polling hash attempt → ∃ row,
      rows'[e.index]? = some (some row) ∧ row.status = .submitted ∧ row.hash.isSome = true) :
    Current (log ++ log') steps rows' { e with work } := by
  refine ⟨?_, hsending, hpolling, ?_⟩
  · intro _
    have hplaced := (h.placed hactive).told log'
    exact ⟨hplaced.step, hplaced.earlier⟩
  · intro hrace
    have hinactive := (h.won hrace).1
    rw [hactive] at hinactive
    cases hinactive

/-- The work ends, or begins to roll back. -/
theorem Current.ends (h : Current log steps rows e) (hactive : e.work.active = true) {next : Next}
    (hnext : ∀ work, next ≠ .wait work) {rows' : Rows} (log' : List Effect)
    (hcomplete : next = .complete → Confirmed (log ++ log') e.step.id) :
    Current (log ++ log') steps rows' (e.goOn steps completed next).1 := by
  refine Current.of_inactive (Execution.goOn_inactive hnext) ?_
  intro hrace
  rw [(Execution.goOn_same next).step]
  rcases Execution.goOn_race hrace with heq | hwon
  · exact hcomplete heq
  · have hinactive := (h.won hwon).1
    rw [hactive] at hinactive
    cases hinactive

theorem Execution.Takes.current {turn : Turn} (h : e.Takes turn)
    (hcurrent : Current log steps rows e) (hactive : e.work.active = true)
    (hlt : e.index < rows.length) :
    Current (log ++ (perform cfg e rows turn.notes).2) steps (perform cfg e rows turn.notes).1
      (e.goOn steps completed turn.next).1 := by
  cases h with
  | waits hwork _ =>
    refine hcurrent.waits hactive _ ?_ ?_
    · intro attempt hsending
      rcases hwork with rfl | rfl | rfl | ⟨_, rfl⟩ <;> cases hsending
    · intro hash attempt hpolling
      rcases hwork with rfl | rfl | rfl | ⟨_, rfl⟩ <;> cases hpolling
  | pollsAgain hwork =>
    refine hcurrent.waits hactive _ nofun ?_
    intro hash attempt _
    exact hcurrent.polling _ _ hwork
  | sends =>
    refine hcurrent.waits hactive _ ?_ nofun
    intro attempt _
    exact List.mem_append_right _ (List.mem_singleton_self _)
  | simulatedSends =>
    refine hcurrent.waits hactive _ ?_ nofun
    intro attempt _
    refine List.mem_append_right _ (List.mem_append_right _ ?_)
    exact List.mem_cons_of_mem _ (List.mem_singleton_self _)
  | accepted =>
    refine hcurrent.waits hactive _ nofun ?_
    intro hash attempt _
    exact ⟨_, markPersisted_getElem? hlt .submitted _, rfl, rfl⟩
  | givesUp | rejected | failed | simulatedFailed | acceptedFailed =>
    refine hcurrent.ends hactive ?_ _ ?_
    · exact nofun
    · exact nofun
  | simulatedOnly =>
    refine hcurrent.ends hactive ?_ _ fun _ => ?_
    · exact nofun
    rw [Confirmed, tells_append, Bool.or_eq_true]
    exact Or.inr (List.any_eq_true.mpr ⟨.emit (e.event .confirmed none true),
      List.mem_append_right _ (List.mem_cons_of_mem _ (List.mem_singleton_self _)),
      by simp [Execution.event]⟩)
  | @confirmed hash _ _ =>
    refine hcurrent.ends hactive ?_ _ fun _ => ?_
    · exact nofun
    rw [Confirmed, tells_append, Bool.or_eq_true]
    exact Or.inr (List.any_eq_true.mpr ⟨.emit (e.event .confirmed (some hash) false),
      List.mem_cons_self, by simp [Execution.event]⟩)

end Turn

namespace Kept

variable {cfg : QueueConfig} {q q' : TransactionQueue} {log effects : List Effect}
  {disk : Option Rows} {x : Nat} {e : Execution}

/-- The work of the call is that of the last execution. -/
theorem last_of_active (h : Kept cfg q log disk) (hx : q.executions[x]? = some e)
    (hrun : e.run = q.calls) (hactive : e.work.active = true) :
    x + 1 = q.executions.length := by
  have hlt := (List.getElem?_eq_some_iff.mp hx).1
  by_contra hne
  have hinactive := h.past x e hx (by omega) hrun
  rw [hactive] at hinactive
  cases hinactive

theorem not_preparing (h : Kept cfg q log disk) (hx : q.executions[x]? = some e)
    (hrun : e.run = q.calls) : q.call.preparing = false := by
  by_contra hpreparing
  exact Nat.lt_irrefl _ (hrun ▸ h.unused (Bool.not_eq_false _ ▸ hpreparing) x e hx)

theorem turn_told (h : Kept cfg q log disk) (hx : q.executions[x]? = some e)
    (hrun : e.run = q.calls) (hactive : e.work.active = true) {turn : Turn}
    (htakes : e.Takes turn) (cfg' : QueueConfig) (disk' : Option Rows) :
    Told (log ++ (perform cfg' e q.stepStates turn.notes).2) q.nextId
        (q.steps.map fun step => step.id) (perform cfg' e q.stepStates turn.notes).1 ∧
      (Mirrors cfg' q.stepStates disk' → Mirrors cfg' (perform cfg' e q.stepStates turn.notes).1
        ((perform cfg' e q.stepStates turn.notes).2.foldl Effect.store disk')) ∧
      Timely log q.nextId (q.steps.map fun step => step.id)
        (perform cfg' e q.stepStates turn.notes).1 disk'
        (perform cfg' e q.stepStates turn.notes).2 := by
  have hcurrent := h.current x e hx hrun
  have hid : (q.steps.map fun step => step.id)[e.index]? = some e.step.id := by
    rw [List.getElem?_map, (hcurrent.placed hactive).step]
    rfl
  exact perform_told h.memory hid (htakes.fits hcurrent.sending) disk'

theorem turns (h : Kept cfg q log disk) {turn : Turn} (b : CircuitBreaker)
    (hx : q.executions[x]? = some e) (hrun : e.run = q.calls) (hactive : e.work.active = true)
    (htakes : e.Takes turn) :
    Kept cfg (q.takeTurn cfg x e turn b).1 (log ++ (q.takeTurn cfg x e turn b).2)
      ((q.takeTurn cfg x e turn b).2.foldl Effect.store disk) := by
  have hlast := h.last_of_active hx hrun hactive
  have hworking := h.not_preparing hx hrun
  have hworking' : (q.takeTurn cfg x e turn b).1.call.preparing = false := by
    rw [TransactionQueue.takeTurn_call]
    exact hworking
  have hcurrent := h.current x e hx hrun
  obtain ⟨hmemory, hmirrors, _⟩ := h.turn_told hx hrun hactive htakes cfg disk
  have hlt : e.index < q.stepStates.length := by
    rw [h.memory.length_eq, List.length_map]
    exact (List.getElem?_eq_some_iff.mp (hcurrent.placed hactive).step).1
  have hsame : e.Same (e.goOn q.steps (q.completed e.run) turn.next).1 :=
    Execution.goOn_same turn.next
  have hpassive : ∀ f ∈ (e.goOn q.steps (q.completed e.run) turn.next).2, f.passive = true :=
    fun f hf => Effect.passive_of_plain (Execution.goOn_plain turn.next f hf)
  have hmemory' := hmemory.mono (e.goOn q.steps (q.completed e.run) turn.next).2
  rw [TransactionQueue.takeTurn_effects, List.foldl_append, foldl_passive hpassive,
    ← List.append_assoc]
  refine ⟨?_, ?_, ?_, ?_, ?_, ?_, ?_, ?_, ?_, ?_⟩
  · rw [TransactionQueue.takeTurn_nextId, TransactionQueue.takeTurn_steps]
    exact hmemory'
  · rw [rows_of_working hworking', TransactionQueue.takeTurn_nextId]
    exact ⟨_, hmemory'⟩
  · have hold := h.mirrors
    rw [rows_of_working hworking] at hold
    rw [rows_of_working hworking']
    exact hmirrors hold
  · intro hcleared
    rw [Call.preparing_of_cleared hcleared] at hworking'
    cases hworking'
  · intro y e' hy
    rw [TransactionQueue.takeTurn_executions] at hy
    rw [TransactionQueue.takeTurn_calls]
    rcases getElem?_set_cases hy with ⟨_, rfl⟩ | ⟨_, hy⟩
    · exact Nat.le_of_eq (hsame.run.trans hrun)
    · exact h.runs y e' hy
  · intro hpreparing
    rw [hworking'] at hpreparing
    cases hpreparing
  · intro y e' hy hlt' hrun'
    rw [TransactionQueue.takeTurn_executions] at hy hlt'
    rw [List.length_set] at hlt'
    rw [TransactionQueue.takeTurn_calls] at hrun'
    rcases getElem?_set_cases hy with ⟨rfl, _⟩ | ⟨_, hy⟩
    · omega
    · exact h.past y e' hy hlt' hrun'
  · intro y e' hy hrun'
    rw [TransactionQueue.takeTurn_executions] at hy
    rw [TransactionQueue.takeTurn_calls] at hrun'
    rw [TransactionQueue.takeTurn_steps]
    rcases getElem?_set_cases hy with ⟨_, rfl⟩ | ⟨hne, hy⟩
    · exact (htakes.current hcurrent hactive hlt).told _
    · have hold := h.current y e' hy hrun'
      have hlt' := (List.getElem?_eq_some_iff.mp hy).1
      refine Current.of_inactive (h.past y e' hy (by omega) hrun') fun hrace => ?_
      exact ((hold.won hrace).2.mono _).mono _
  · intro i resuming opts hstepping
    rw [TransactionQueue.takeTurn_call] at hstepping
    obtain ⟨e', hlast', _, hindex, _⟩ := h.stepping i resuming opts hstepping
    rw [List.getLast?_eq_getElem?, ← hlast, Nat.add_sub_cancel, hx] at hlast'
    obtain rfl := Option.some.inj hlast'
    rw [TransactionQueue.takeTurn_calls, TransactionQueue.takeTurn_steps]
    refine ⟨_, ?_, hsame.run.trans hrun, hsame.index.trans hindex, ?_⟩
    · rw [TransactionQueue.takeTurn_executions, List.getLast?_eq_getElem?, List.length_set, ← hlast,
        Nat.add_sub_cancel]
      exact List.getElem?_set_self (List.getElem?_eq_some_iff.mp hx).1
    · have hplaced := ((hcurrent.placed hactive).told
        (perform cfg e q.stepStates turn.notes).2).told
          (e.goOn q.steps (q.completed e.run) turn.next).2
      refine ⟨?_, ?_⟩
      · rw [hsame.index, hsame.step]
        exact hplaced.step
      · rw [hsame.index]
        exact hplaced.earlier
  · intro rows i attempt unfinished opts hpolling
    rw [hpolling] at hworking'
    cases hworking'

theorem fades (h : Kept cfg q log disk) {e' : Execution} (b : CircuitBreaker)
    (hx : q.executions[x]? = some e) (hsame : e.Same e')
    (hwork : e'.work = e.work ∨ e'.work.active = false)
    (hrace : e'.race = some true → e.race = some true)
    (heffects : ∀ f ∈ effects, f.plain = true) :
    Kept cfg { q with circuitBreaker := b, executions := q.executions.set x e' } (log ++ effects)
      (effects.foldl Effect.store disk) := by
  rw [foldl_passive fun f hf => Effect.passive_of_plain (heffects f hf)]
  obtain ⟨ids, hstate⟩ := h.state
  refine ⟨h.memory.mono _, ⟨ids, hstate.mono _⟩, h.mirrors, h.cleared, ?_, ?_, ?_, ?_, ?_, ?_⟩
  · intro y e'' hy
    rcases getElem?_set_cases hy with ⟨_, rfl⟩ | ⟨_, hy⟩
    · rw [hsame.run]
      exact h.runs x e hx
    · exact h.runs y e'' hy
  · intro hpreparing y e'' hy
    rcases getElem?_set_cases hy with ⟨_, rfl⟩ | ⟨_, hy⟩
    · rw [hsame.run]
      exact h.unused hpreparing x e hx
    · exact h.unused hpreparing y e'' hy
  · intro y e'' hy hlt hrun
    rw [List.length_set] at hlt
    rcases getElem?_set_cases hy with ⟨rfl, rfl⟩ | ⟨_, hy⟩
    · rcases hwork with heq | hinactive
      · rw [heq]
        exact h.past y e hx hlt (hsame.run ▸ hrun)
      · exact hinactive
    · exact h.past y e'' hy hlt hrun
  · intro y e'' hy hrun
    rcases getElem?_set_cases hy with ⟨rfl, rfl⟩ | ⟨_, hy⟩
    · have hold := (h.current y e hx (hsame.run ▸ hrun)).told effects
      rcases hwork with heq | hinactive
      · refine ⟨?_, ?_, ?_, ?_⟩
        · intro hactive
          rw [heq] at hactive
          obtain ⟨hstep, hearlier⟩ := hold.placed hactive
          refine ⟨?_, ?_⟩
          · rw [hsame.index, hsame.step]
            exact hstep
          · rw [hsame.index]
            exact hearlier
        · rw [heq, hsame.step]
          exact hold.sending
        · rw [heq, hsame.index]
          exact hold.polling
        · rw [heq, hsame.step]
          exact fun hwon => hold.won (hrace hwon)
      · refine Current.of_inactive hinactive fun hwon => ?_
        rw [hsame.step]
        exact (hold.won (hrace hwon)).2
    · exact (h.current y e'' hy hrun).told effects
  · intro i resuming opts hstepping
    obtain ⟨last, hlast, hrun, hindex, hplaced⟩ := h.stepping i resuming opts hstepping
    have hplaced' := hplaced.told effects
    rw [List.getLast?_eq_getElem?] at hlast
    by_cases hlastx : q.executions.length - 1 = x
    · rw [hlastx, hx] at hlast
      obtain rfl := Option.some.inj hlast
      refine ⟨e', ?_, hsame.run.trans hrun, hsame.index.trans hindex, ?_⟩
      · rw [List.getLast?_eq_getElem?, List.length_set, hlastx]
        exact List.getElem?_set_self (List.getElem?_eq_some_iff.mp hx).1
      · refine ⟨?_, ?_⟩
        · rw [hsame.index, hsame.step]
          exact hplaced'.step
        · rw [hsame.index]
          exact hplaced'.earlier
    · refine ⟨last, ?_, hrun, hindex, hplaced'⟩
      rw [List.getLast?_eq_getElem?, List.length_set, List.getElem?_set_ne (Ne.symm hlastx)]
      exact hlast
  · intro rows i attempt unfinished opts hpolling
    obtain ⟨row, hrow, hunfinished, hstatus, htold⟩ :=
      h.polling rows i attempt unfinished opts hpolling
    exact ⟨row, hrow, hunfinished, hstatus, htold.mono _⟩

/-- Every move keeps it. -/
theorem move (h : Kept cfg q log disk) {a : Action} (hmoves : Moves cfg disk q a q' effects) :
    Kept cfg q' (log ++ effects) (effects.foldl Effect.store disk) := by
  cases hmoves with
  | enqueues xdr rollback stepTimeoutMs hcall => exact h.enqueues xdr rollback stepTimeoutMs hcall
  | runs opts hcall => exact (h.poised_run hcall).loop false opts
  | loads opts hcall _ =>
    rw [List.append_nil]
    exact h.loads opts hcall
  | resumesNothing _ _ => exact h.told _
  | prepares hashes hprepares => exact h.prepares hashes hprepares
  | returns hcall _ => exact h.returns hcall
  | refills hcall hrow => exact (h.poised_refill hcall hrow).loop true _
  | goesOn hcall hrace => exact (h.poised_next hcall hrace).loop _ _
  | stops hcall =>
    rw [List.append_nil]
    exact h.stops hcall
  | turns b hx hrun hactive htakes => exact h.turns b hx hrun hactive htakes
  | fades b hx hsame hwork hrace heffects => exact h.fades b hx hsame hwork hrace heffects

end Kept

/-! ## What a crash leaves -/

/-- The adapter has nothing, or these rows, and what they say is told. -/
def Stored (cfg : QueueConfig) (log : List Effect) (n : Nat) (rows : Rows) (disk : Option Rows) :
    Prop :=
  disk = none ∨ cfg.persistence = true ∧ disk = some rows ∧ ∃ ids, Told log n ids rows

theorem Mirrors.stored {cfg : QueueConfig} {log : List Effect} {n : Nat} {rows : Rows}
    {disk : Option Rows} (h : Mirrors cfg rows disk) (htold : ∃ ids, Told log n ids rows) :
    Stored cfg log n rows disk := by
  rcases h with hnone | ⟨hstores, hsome⟩
  · exact Or.inl hnone
  · exact Or.inr ⟨hstores, hsome, htold⟩

section Prefix

variable {log : List Effect} {n : Nat} {ids : List Nat} {rows : Rows} {disk : Option Rows}
  {effects rest : List Effect}

theorem Timely.append (h : Timely log n ids rows disk effects)
    (hrest : ∀ f ∈ rest, f.passive = true) : Timely log n ids rows disk (effects ++ rest) := by
  intro k
  have hpassive : ∀ f ∈ rest.take (k - effects.length), f.passive = true :=
    fun f hf => hrest f (List.mem_of_mem_take hf)
  rw [List.take_append, List.foldl_append, List.foldl_append, foldl_passive hpassive,
    foldl_passive hrest, ← List.append_assoc]
  rcases h k with hsame | ⟨hall, htold⟩
  · exact Or.inl hsame
  · exact Or.inr ⟨hall, htold.mono _⟩

/-- All that the adapter is called for comes first. -/
theorem Timely.of_first {f : Effect} (hrest : ∀ g ∈ rest, g.passive = true)
    (htold : Told (log ++ [f]) n ids rows) : Timely log n ids rows disk (f :: rest) := by
  intro k
  cases k with
  | zero => exact Or.inl rfl
  | succ k =>
    have hpassive : ∀ g ∈ rest.take k, g.passive = true :=
      fun g hg => hrest g (List.mem_of_mem_take hg)
    rw [List.take_succ_cons, List.foldl_cons, List.foldl_cons, foldl_passive hpassive,
      foldl_passive hrest, ← List.singleton_append, ← List.append_assoc]
    exact Or.inr ⟨rfl, htold.mono _⟩

end Prefix

theorem Prepares.short {cfg : QueueConfig} {a : Action} {call call' : Call}
    {effects : List Effect} (h : Prepares cfg a call effects call') :
    (∀ f ∈ effects, f.passive = true) ∨ effects.length ≤ 1 := by
  cases h with
  | givesUp => exact Or.inl (by simp [Effect.passive])
  | clears | finds | asks | requeues | succeeds | fails => exact Or.inr (Nat.le_refl 1)
  | begins | throws | recovers | waits => exact Or.inr (Nat.zero_le 1)

namespace Kept

variable {cfg : QueueConfig} {q q' : TransactionQueue} {log effects : List Effect}
  {disk : Option Rows}

theorem loop_timely (cfg : QueueConfig) (q : TransactionQueue) (log : List Effect)
    (disk : Option Rows) (i : Nat) (resuming : Bool) (opts : RunOptions) :
    (∃ ids, Timely log (q.loop cfg i resuming opts).1.nextId ids
      (q.loop cfg i resuming opts).1.rows disk (q.loop cfg i resuming opts).2) ∧
        (q.loop cfg i resuming opts).1.nextId = q.nextId := by
  cases hstep : q.steps[i]? with
  | some step =>
    rw [loop_some hstep]
    refine ⟨⟨[], Timely.of_passive fun f hf => ?_⟩, rfl⟩
    exact Effect.passive_of_plain (begin_plain opts f hf)
  | none =>
    rw [loop_none hstep]
    have hpassive := passive_resumed resuming
    refine ⟨⟨[], ?_⟩, rfl⟩
    split
    · exact Timely.of_first hpassive (Told.nil _ _)
    · exact Timely.of_passive hpassive

/-- Where the effects of a move break off, the adapter has what it had, or what it has after the
move. -/
theorem timely (h : Kept cfg q log disk) {a : Action} (hmoves : Moves cfg disk q a q' effects) :
    (∃ ids, Timely log q'.nextId ids q'.rows disk effects) ∧ q'.nextId = q.nextId ∨
      effects.length ≤ 1 := by
  cases hmoves with
  | enqueues xdr rollback stepTimeoutMs _ =>
    refine Or.inr ?_
    show (persist cfg _).length ≤ 1
    rw [persist]
    split
    · exact Nat.le_refl 1
    · exact Nat.zero_le 1
  | runs opts _ => exact Or.inl (loop_timely cfg _ log disk 0 false opts)
  | refills _ _ => exact Or.inl (loop_timely cfg _ log disk 0 true _)
  | goesOn _ _ => exact Or.inl (loop_timely cfg q log disk _ _ _)
  | loads _ _ _ | stops _ => exact Or.inr (Nat.zero_le 1)
  | resumesNothing _ _ | returns _ _ => exact Or.inr (Nat.le_refl 1)
  | prepares _ hprepares =>
    rcases hprepares.short with hpassive | hshort
    · exact Or.inl ⟨⟨[], Timely.of_passive hpassive⟩, rfl⟩
    · exact Or.inr hshort
  | @turns x _ e turn b hx hrun hactive htakes =>
    obtain ⟨_, _, htimely⟩ := h.turn_told hx hrun hactive htakes cfg disk
    have hworking : (q.takeTurn cfg x e turn b).1.call.preparing = false := by
      rw [TransactionQueue.takeTurn_call]
      exact h.not_preparing hx hrun
    have hpassive : ∀ f ∈ (e.goOn q.steps (q.completed e.run) turn.next).2, f.passive = true :=
      fun f hf => Effect.passive_of_plain (Execution.goOn_plain turn.next f hf)
    rw [TransactionQueue.takeTurn_effects, TransactionQueue.takeTurn_nextId,
      rows_of_working hworking]
    exact Or.inl ⟨⟨_, htimely.append hpassive⟩, rfl⟩
  | fades _ _ _ _ _ heffects =>
    refine Or.inl ⟨⟨[], Timely.of_passive fun f hf => ?_⟩, rfl⟩
    exact Effect.passive_of_plain (heffects f hf)

theorem prefix_stored (h : Kept cfg q log disk) {a : Action}
    (hmoves : Moves cfg disk q a q' effects) (k : Nat) :
    (q'.nextId = q.nextId ∧ (effects.take (k + 1)).foldl Effect.store disk = disk ∧
      Stored cfg (log ++ effects.take (k + 1)) q'.nextId q.rows
        ((effects.take (k + 1)).foldl Effect.store disk)) ∨
      Stored cfg (log ++ effects.take (k + 1)) q'.nextId q'.rows
        ((effects.take (k + 1)).foldl Effect.store disk) := by
  have hkept := h.move hmoves
  rcases h.timely hmoves with ⟨⟨ids, htimely⟩, hnext⟩ | hshort
  · rcases htimely (k + 1) with hsame | ⟨hall, htold⟩
    · obtain ⟨ids', hstate⟩ := h.state
      rw [hsame, hnext]
      exact Or.inl ⟨rfl, rfl, h.mirrors.stored ⟨ids', hstate.mono _⟩⟩
    · rw [hall]
      exact Or.inr (hkept.mirrors.stored ⟨ids, htold⟩)
  · rw [List.take_of_length_le (Nat.le_trans hshort (Nat.le_add_left 1 k))]
    exact Or.inr (hkept.mirrors.stored hkept.state)

/-- A process that has just begun. -/
theorem new (cfg : QueueConfig) (log : List Effect) (nextId calls : Nat) :
    Kept cfg (.new nextId calls) log none := by
  exact ⟨Told.nil _ _, ⟨[], Told.nil _ _⟩, Or.inl rfl, nofun,
    fun x e hx => absurd hx (executions_nil x e), nofun,
    fun x e hx => absurd hx (executions_nil x e),
    fun x e hx => absurd hx (executions_nil x e), nofun, nofun⟩

/-- A restarted process loads what is stored. -/
theorem restarted {n : Nat} {rows : Rows} (h : Stored cfg log n rows disk)
    (hstores : cfg.persistence = true) (calls : Nat) (opts : RunOptions) :
    Kept cfg { TransactionQueue.new n calls with
      call := .loading disk opts, calls := calls + 1 } log disk := by
  have hnew := new cfg log n calls
  refine ⟨hnew.memory, ?_, ?_, nofun, fun x e hx => absurd hx (executions_nil x e),
    fun _ x e hx => absurd hx (executions_nil x e), fun x e hx => absurd hx (executions_nil x e),
    fun x e hx => absurd hx (executions_nil x e), nofun, nofun⟩
  · show ∃ ids, Told log n ids (disk.getD [])
    rcases h with hnone | ⟨_, hsome, htold⟩
    · rw [hnone]
      exact ⟨[], Told.nil _ _⟩
    · rw [hsome]
      exact htold
  · show Mirrors cfg (disk.getD []) disk
    rcases h with hnone | ⟨_, hsome, _⟩
    · exact Or.inl hnone
    · rw [hsome]
      exact Or.inr ⟨hstores, rfl⟩

end Kept

end Sdk
end Linkora
