import Linkora.Lib.Run

/-!
# The transaction queue of the SDK

`packages/sdk/src/queue.ts`: steps are signed, simulated, submitted and confirmed one after
the other, with a deadline for each step, rollbacks of the completed steps where one fails,
and the state of the steps in an adapter that a restarted app resumes from.  What runs
between two awaits is one transition; signer, RPC, timers and rollbacks answer in any order,
and a step's work goes on after its deadline.  Errors are only thrown or not, and simulated
fees are left out.
-/

namespace Linkora
namespace Sdk

/-- The hash of a transaction, which is never the empty text. -/
abbrev TxHash := { hash : String // hash ≠ "" }

inductive TxStatus where
  | pending
  | simulated
  | submitted
  | confirmed
  | failed
  | unconfirmed
  | lost
  deriving DecidableEq

/-- The steps are numbered as they are enqueued; the code does not read the number.  Of a
rollback only matters that there is one. -/
structure QueueStep where
  id : Nat
  xdr : String
  rollback : Bool
  stepTimeoutMs : Option Nat
  deriving DecidableEq

inductive PersistedStatus where
  | pending
  | simulated
  | submitted
  | confirmed
  deriving DecidableEq

structure PersistedQueueStep where
  id : Nat
  xdr : String
  status : PersistedStatus
  hash : Option TxHash
  stepTimeoutMs : Option Nat
  deriving DecidableEq

/-- `stepStates`, which has a hole where an index beyond its end was written to. -/
abbrev Rows := List (Option PersistedQueueStep)

/-- An event for the listeners, with the call that it belongs to, if it is not from what
`resume` does before it executes steps, and whether the step has a rollback. -/
structure TxStatusEvent where
  run : Option Nat
  id : Nat
  rollback : Bool
  index : Nat
  xdr : String
  status : TxStatus
  hash : Option TxHash
  dryRun : Bool
  deriving DecidableEq

/-- What others see of the queue, in the order in which it happens. -/
inductive Effect where
  | emit (event : TxStatusEvent)
  /-- `rpc.sendTransaction` is called with the step. -/
  | send (id : Nat)
  /-- The rollback of a step is called, for a call of `run` or `resume`. -/
  | rollback (run index : Nat)
  | save (rows : Rows)
  | clear
  /-- `resume` returns. -/
  | resumed
  /-- The process is gone, with so many steps enqueued until then. -/
  | crash (enqueued : Nat)
  deriving DecidableEq

structure QueueConfig where
  /-- Whether the RPC client has `getAccountSequence`. -/
  getAccountSequence : Bool
  /-- The source of a transaction, if the XDR can be parsed. -/
  source : String → Option String
  persistence : Bool
  maxAttempts : Nat
  circuitBreakerThreshold : Nat
  maxPollAttempts : Nat
  stepTimeoutMs : Option Nat
  dryRun : Bool

structure RunOptions where
  dryRun : Option Bool
  stepTimeoutMs : Option Nat
  skipSimulation : Option Bool
  deriving DecidableEq

structure CircuitBreaker where
  consecutiveFailures : Nat
  isOpen : Bool
  deriving DecidableEq

namespace CircuitBreaker

def recordSuccess (_ : CircuitBreaker) : CircuitBreaker := ⟨0, false⟩

def recordFailure (threshold : Nat) (b : CircuitBreaker) : CircuitBreaker :=
  ⟨b.consecutiveFailures + 1, b.isOpen || threshold ≤ b.consecutiveFailures + 1⟩

end CircuitBreaker

/-! ## The work of a step -/

/-- What the work of a step waits for. -/
inductive Work where
  /-- `withAccountSequenceLock` -/
  | locking
  /-- `getAccountSequence` -/
  | sequencing
  | signing
  | simulating
  | sending (attempt : Nat)
  /-- Between two attempts to send. -/
  | sleeping (attempt : Nat)
  | polling (hash : TxHash) (attempt : Nat)
  /-- The step has failed, and these rollbacks are left. -/
  | rollingBack (rest : List Nat)
  | returned
  | thrown
  deriving DecidableEq

/-- The deadline of a step. -/
inductive Deadline where
  | none
  | armed
  /-- It has fired, and these rollbacks are left. -/
  | fired (rest : List Nat)
  | over
  deriving DecidableEq

/-- A call of `runStep`. -/
structure Execution where
  run : Nat
  index : Nat
  step : QueueStep
  dryRun : Bool
  skipSimulation : Bool
  /-- The work waits for or holds the lock of the account. -/
  locks : Bool
  work : Work
  deadline : Deadline
  /-- What the race of work and deadline came to. -/
  race : Option Bool
  deriving DecidableEq

/-- What the work may be answered. -/
inductive Answer where
  | locked
  /-- Whether the sequence is there and is the expected one. -/
  | sequence (expected : Bool)
  | signed (ok : Bool)
  | simulated (ok : Bool)
  | accepted (hash : TxHash)
  /-- With the status `ERROR`, or an error that is not to be retried. -/
  | refused
  /-- An error or a timeout. -/
  | broken
  | awake
  /-- `SUCCESS`, or else `FAILED`, an error or a timeout. -/
  | found (success : Bool)
  | notFound
  | rolledBack
  deriving DecidableEq

inductive Note where
  | emit (status : TxStatus) (hash : Option TxHash) (dryRun : Bool)
  | mark (status : PersistedStatus) (hash : Option TxHash)
  | send
  deriving DecidableEq

/-- How the work goes on. -/
inductive Next where
  | wait (work : Work)
  | complete
  /-- `executeStep` rolls back and throws. -/
  | fail
  /-- The work throws before `executeStep`, and `runStep` rolls back. -/
  | reject
  /-- The work throws, and nobody rolls back. -/
  | throw
  deriving DecidableEq

/-- What the work does until it waits again. -/
structure Turn where
  notes : List Note
  next : Next
  deriving DecidableEq

namespace Turn

def silent (next : Next) : Turn := ⟨[], next⟩

def failed (hash : Option TxHash) (next : Next) : Turn := ⟨[.emit .failed hash false], next⟩

def after (notes : List Note) (turn : Turn) : Turn := ⟨notes ++ turn.notes, turn.next⟩

end Turn

/-- An attempt of `withRetry`. -/
def submit (cfg : QueueConfig) (b : CircuitBreaker) (attempt : Nat) : Turn :=
  if attempt < cfg.maxAttempts ∧ b.isOpen = false then ⟨[.send], .wait (.sending attempt)⟩
  else .failed none .fail

/-- `pollConfirmation`, from an attempt on. -/
def poll (cfg : QueueConfig) (hash : TxHash) (attempt : Nat) : Turn :=
  if attempt < cfg.maxPollAttempts then .silent (.wait (.polling hash attempt))
  else .failed (some hash) .fail

namespace Execution

def timedOut (e : Execution) : Bool :=
  match e.deadline with
  | .fired _ | .over => true
  | _ => false

/-- What the work does with an answer: `guardedWork` and `executeStep`. -/
def respond (cfg : QueueConfig) (b : CircuitBreaker) (e : Execution) (answer : Answer) :
    Option (Turn × CircuitBreaker) :=
  match e.work, answer with
  | .locking, .locked => some (.silent (if e.timedOut then .throw else .wait .sequencing), b)
  | .sequencing, .sequence expected =>
    some (if e.timedOut then .silent .throw
      else if expected then .silent (.wait .signing) else .failed none .reject, b)
  | .signing, .signed ok =>
    some (if !ok then .failed none .fail
      else if !e.skipSimulation || e.dryRun then .silent (.wait .simulating)
      else submit cfg b 0, b)
  | .simulating, .simulated ok =>
    let notes := [.mark .simulated none, .emit .simulated none false]
    some (if !ok then .failed none .fail
      else if e.dryRun then ⟨notes ++ [.emit .confirmed none true], .complete⟩
      else (submit cfg b 0).after notes, b)
  | .sending _, .accepted hash =>
    some ((poll cfg hash 0).after
      [.emit .submitted (some hash) false, .mark .submitted (some hash)], b.recordSuccess)
  | .sending _, .refused => some (.failed none .fail, b)
  | .sending attempt, .broken =>
    let b := b.recordFailure cfg.circuitBreakerThreshold
    some (if b.isOpen ∨ attempt + 1 = cfg.maxAttempts then .failed none .fail
      else .silent (.wait (.sleeping (attempt + 1))), b)
  | .sleeping attempt, .awake => some (submit cfg b attempt, b)
  | .polling hash _, .found success =>
    some (if success then
      ⟨[.emit .confirmed (some hash) false, .mark .confirmed (some hash)], .complete⟩
      else .failed (some hash) .fail, b)
  | .polling hash attempt, .notFound => some (poll cfg hash (attempt + 1), b)
  | _, _ => none

def event (e : Execution) (status : TxStatus) (hash : Option TxHash) (dryRun : Bool) :
    TxStatusEvent :=
  { run := some e.run, id := e.step.id, rollback := e.step.rollback, index := e.index,
    xdr := e.step.xdr, status, hash, dryRun }

/-- The race is over, if it was not before, and the timer is cleared. -/
def settle (ok : Bool) (e : Execution) : Execution :=
  if e.race.isSome then e
  else { e with race := some ok, deadline := if e.deadline = .armed then .none else e.deadline }

end Execution

/-- The next rollback of `runRollbacks`, and what is left then.  Reading the rollback of a step
that is not there throws. -/
def rollbackFrom (steps : List QueueStep) : List Nat → Option (Nat × List Nat)
  | [] => none
  | i :: rest =>
    match steps[i]? with
    | none => none
    | some step => if step.rollback then some (i, rest) else rollbackFrom steps rest

namespace Execution

/-- The work rolls back what is left, and throws. -/
def rollBack (steps : List QueueStep) (rest : List Nat) (e : Execution) :
    Execution × List Effect :=
  match rollbackFrom steps rest with
  | some (i, rest) => ({ e with work := .rollingBack rest }, [.rollback e.run i])
  | none => ({ e with work := .thrown }.settle false, [])

/-- The deadline rolls back what is left, and throws. -/
def rollBackLate (steps : List QueueStep) (rest : List Nat) (e : Execution) :
    Execution × List Effect :=
  match rollbackFrom steps rest with
  | some (i, rest) => ({ e with deadline := .fired rest }, [.rollback e.run i])
  | none => ({ e with deadline := .over }.settle false, [])

/-- The timer is cleared and the lock released before `runStep` rolls back. -/
def released (e : Execution) : Execution := { e with deadline := .none, locks := false }

def goOn (steps : List QueueStep) (completed : List Nat) (e : Execution) :
    Next → Execution × List Effect
  | .wait work => ({ e with work }, [])
  | .complete => ({ e with work := .returned }.settle true, [])
  | .fail => e.rollBack steps completed.reverse
  | .reject => e.released.rollBack steps completed.reverse
  | .throw => ({ e with work := .thrown }.settle false, [])

def holdsLock (e : Execution) : Bool := e.locks && e.work ≠ .returned && e.work ≠ .thrown

end Execution

/-! ## The queue -/

/-- Where a call of `run` or `resume` stands. -/
inductive Call where
  | idle
  /-- `persistence.load()` gives this. -/
  | loading (state : Option Rows) (opts : RunOptions)
  /-- `persistence.clear()` -/
  | clearing (state : Option Rows) (opts : RunOptions)
  | reconciling (rows : Rows) (i : Nat) (unfinished : List QueueStep) (opts : RunOptions)
  /-- `pollConfirmation` of the row. -/
  | polling (rows : Rows) (i attempt : Nat) (unfinished : List QueueStep) (opts : RunOptions)
  /-- The execution of the step. -/
  | stepping (i : Nat) (resuming : Bool) (opts : RunOptions)
  deriving DecidableEq

/-- The object, with the number of steps enqueued and the number of calls made so far, both of
which also count what was before a restart.  Each call has its own array of completed steps. -/
structure TransactionQueue where
  steps : List QueueStep
  stepStates : Rows
  submittedHashes : List TxHash
  circuitBreaker : CircuitBreaker
  call : Call
  executions : List Execution
  completed : Nat → List Nat
  nextId : Nat
  calls : Nat

def persist (cfg : QueueConfig) (rows : Rows) : List Effect :=
  if cfg.persistence then [.save rows] else []

/-- `rows[index] = row` -/
def writeRow (rows : Rows) (index : Nat) (row : PersistedQueueStep) : Rows :=
  if index < rows.length then rows.set index (some row)
  else rows ++ List.replicate (index - rows.length) none ++ [some row]

/-- The row that `markPersisted` writes. -/
def markedRow (rows : Rows) (e : Execution) (status : PersistedStatus) (hash : Option TxHash) :
    PersistedQueueStep :=
  let old := rows[e.index]?.join
  { id := e.step.id, xdr := e.step.xdr, status, hash := hash <|> old.bind (·.hash),
    stepTimeoutMs := e.step.stepTimeoutMs <|> old.bind (·.stepTimeoutMs) }

def markPersisted (rows : Rows) (e : Execution) (status : PersistedStatus)
    (hash : Option TxHash) : Rows :=
  writeRow rows e.index (markedRow rows e status hash)

/-- What the notes of a turn do, with `stepStates` after it. -/
def perform (cfg : QueueConfig) (e : Execution) (rows : Rows) : List Note → Rows × List Effect
  | [] => (rows, [])
  | .emit status hash dryRun :: rest =>
    let (rows, effects) := perform cfg e rows rest
    (rows, .emit (e.event status hash dryRun) :: effects)
  | .mark status hash :: rest =>
    let marked := markPersisted rows e status hash
    let (rows, effects) := perform cfg e marked rest
    (rows, persist cfg marked ++ effects)
  | .send :: rest =>
    let (rows, effects) := perform cfg e rows rest
    (rows, .send e.step.id :: effects)

inductive Action where
  | enqueue (xdr : String) (rollback : Bool) (stepTimeoutMs : Option Nat)
  | run (opts : RunOptions)
  | resume (opts : RunOptions)
  /-- The call that is under way goes on. -/
  | proceed
  /-- `resume` polls, and is answered. -/
  | polled (answer : Answer)
  | answer (x : Nat) (answer : Answer)
  /-- The deadline of an execution fires. -/
  | timeout (x : Nat)
  /-- A rollback that the deadline called is through. -/
  | rolledBack (x : Nat)
  deriving DecidableEq

namespace TransactionQueue

def new (nextId calls : Nat) : TransactionQueue :=
  { steps := [], stepStates := [], submittedHashes := [], circuitBreaker := ⟨0, false⟩,
    call := .idle, executions := [], completed := fun _ => [], nextId, calls }

def pendingRow (step : QueueStep) : Option PersistedQueueStep :=
  some ⟨step.id, step.xdr, .pending, none, step.stepTimeoutMs⟩

def enqueue (cfg : QueueConfig) (q : TransactionQueue) (xdr : String) (rollback : Bool)
    (stepTimeoutMs : Option Nat) : TransactionQueue × List Effect :=
  let step : QueueStep := ⟨q.nextId, xdr, rollback, stepTimeoutMs⟩
  let stepStates := q.stepStates ++ [pendingRow step]
  ({ q with steps := q.steps ++ [step], stepStates, nextId := q.nextId + 1 },
    persist cfg stepStates)

/-- The execution that a call of `runStep` begins. -/
def begin (cfg : QueueConfig) (q : TransactionQueue) (i : Nat) (step : QueueStep)
    (opts : RunOptions) : Execution :=
  let dryRun := opts.dryRun.getD cfg.dryRun
  let timeoutMs := step.stepTimeoutMs <|> opts.stepTimeoutMs <|> cfg.stepTimeoutMs
  let guarded := cfg.getAccountSequence && !dryRun
  { run := q.calls, index := i, step, dryRun, skipSimulation := opts.skipSimulation.getD false,
    locks := guarded, work := if guarded then .locking else .signing,
    deadline := if timeoutMs.isSome then .armed else .none, race := none }

/-- `runStep` is called, and goes on until it waits. -/
def runStep (cfg : QueueConfig) (q : TransactionQueue) (i : Nat) (step : QueueStep)
    (opts : RunOptions) : Execution × List Effect :=
  let e := q.begin cfg i step opts
  if e.locks && (cfg.source step.xdr).isNone then
    let (e', effects) := e.goOn q.steps (q.completed q.calls) .reject
    (e', .emit (e.event .failed none false) :: effects)
  else (e, [])

/-- The loop over the steps, from an index on. -/
def loop (cfg : QueueConfig) (q : TransactionQueue) (i : Nat) (resuming : Bool)
    (opts : RunOptions) : TransactionQueue × List Effect :=
  match q.steps[i]? with
  | some step =>
    let (e, effects) := q.runStep cfg i step opts
    ({ q with executions := q.executions ++ [e], call := .stepping i resuming opts },
      .emit ((q.begin cfg i step opts).event .pending none false) :: effects)
  | none =>
    ({ q with steps := [], stepStates := [], call := .idle },
      (if cfg.persistence then [.clear] else []) ++ if resuming then [.resumed] else [])

def run (cfg : QueueConfig) (q : TransactionQueue) (opts : RunOptions) :
    TransactionQueue × List Effect :=
  { q with submittedHashes := [], calls := q.calls + 1 }.loop cfg 0 false opts

def resume (cfg : QueueConfig) (disk : Option Rows) (q : TransactionQueue) (opts : RunOptions) :
    TransactionQueue × List Effect :=
  if cfg.persistence then ({ q with call := .loading disk opts, calls := q.calls + 1 }, [])
  else (q, [.resumed])

end TransactionQueue

namespace PersistedQueueStep

/-- An event of what `resume` does before it executes steps. -/
def event (row : PersistedQueueStep) (index : Nat) (status : TxStatus) (hash : Option TxHash) :
    TxStatusEvent :=
  { run := none, id := row.id, rollback := false, index, xdr := row.xdr, status, hash,
    dryRun := false }

/-- The step that is queued again; rollbacks are not kept. -/
def step (row : PersistedQueueStep) : QueueStep := ⟨row.id, row.xdr, false, row.stepTimeoutMs⟩

end PersistedQueueStep

namespace TransactionQueue

def refill (q : TransactionQueue) (unfinished : List QueueStep) : TransactionQueue :=
  { q with steps := unfinished, stepStates := unfinished.map pendingRow }

/-- The rows are all reconciled. -/
def requeue (cfg : QueueConfig) (q : TransactionQueue) (unfinished : List QueueStep)
    (opts : RunOptions) : TransactionQueue × List Effect :=
  if unfinished = [] then ({ q.refill unfinished with call := .idle }, [.resumed])
  else (q.refill unfinished).loop cfg 0 true opts

/-- One row of `resume`. -/
def reconcile (cfg : QueueConfig) (q : TransactionQueue) (rows : Rows) (i : Nat)
    (unfinished : List QueueStep) (opts : RunOptions) : TransactionQueue × List Effect :=
  match rows[i]? with
  | none => q.requeue cfg unfinished opts
  | some none => ({ q with call := .idle }, [])
  | some (some row) =>
    match row.status, row.hash with
    | .submitted, some hash =>
      let unconfirmed := .emit (row.event i .unconfirmed (some hash))
      if 0 < cfg.maxPollAttempts then
        ({ q with call := .polling rows i 0 unfinished opts }, [unconfirmed])
      else
        ({ q with call := .reconciling rows (i + 1) unfinished opts },
          [unconfirmed, .emit (row.event i .lost (some hash))])
    | .confirmed, some hash =>
      ({ q with submittedHashes := q.submittedHashes ++ [hash],
                call := .reconciling rows (i + 1) unfinished opts }, [])
    | _, _ =>
      ({ q with call := .reconciling rows (i + 1) (unfinished ++ [row.step]) opts },
        [.emit (row.event i .lost none)])

/-- An answer to the polling of `resume`. -/
def polled (cfg : QueueConfig) (q : TransactionQueue) (answer : Answer) :
    Option (TransactionQueue × List Effect) :=
  match q.call with
  | .polling rows i attempt unfinished opts =>
    match rows[i]?.join with
    | none => none
    | some row =>
      match row.hash, answer with
      | some hash, .found true =>
        some ({ q with submittedHashes := q.submittedHashes ++ [hash],
                       call := .reconciling rows (i + 1) unfinished opts },
          [.emit (row.event i .confirmed (some hash))])
      | some hash, .found false =>
        some ({ q with call := .reconciling rows (i + 1) unfinished opts },
          [.emit (row.event i .lost (some hash))])
      | some hash, .notFound =>
        if attempt + 1 < cfg.maxPollAttempts then
          some ({ q with call := .polling rows i (attempt + 1) unfinished opts }, [])
        else
          some ({ q with call := .reconciling rows (i + 1) unfinished opts },
            [.emit (row.event i .lost (some hash))])
      | _, _ => none
  | _ => none

/-- The call goes on with what it awaited. -/
def proceed (cfg : QueueConfig) (q : TransactionQueue) : Option (TransactionQueue × List Effect) :=
  match q.call with
  | .loading state opts => some ({ q with call := .clearing state opts }, [.clear])
  | .clearing none _ | .clearing (some []) _ => some ({ q with call := .idle }, [.resumed])
  | .clearing (some rows) opts => some ({ q with call := .reconciling rows 0 [] opts }, [])
  | .reconciling rows i unfinished opts => some (q.reconcile cfg rows i unfinished opts)
  | .stepping i resuming opts =>
    match q.executions.getLast?.bind Execution.race with
    | some true => some (q.loop cfg (i + 1) resuming opts)
    | some false => some ({ q with call := .idle }, [])
    | none => none
  | _ => none

/-- The lock of the account goes to those that wait for it in their order. -/
def lockFree (cfg : QueueConfig) (q : TransactionQueue) (x : Nat) (e : Execution) : Bool :=
  (q.executions.take x).all fun e' =>
    !(e'.holdsLock && cfg.source e'.step.xdr == cfg.source e.step.xdr)

/-- What a completed step leaves in the arrays. -/
def push (q : TransactionQueue) (e : Execution) : TransactionQueue :=
  { q with
    completed := Function.update q.completed e.run (q.completed e.run ++ [e.index]),
    submittedHashes := match e.work with
      | .polling hash _ => q.submittedHashes ++ [hash]
      | _ => q.submittedHashes }

/-- An execution takes its turn. -/
def takeTurn (cfg : QueueConfig) (q : TransactionQueue) (x : Nat) (e : Execution) (turn : Turn)
    (circuitBreaker : CircuitBreaker) : TransactionQueue × List Effect :=
  let (stepStates, effects) := perform cfg e q.stepStates turn.notes
  let (e', rollbacks) := e.goOn q.steps (q.completed e.run) turn.next
  let q' := if turn.next = .complete then q.push e else q
  ({ q' with stepStates, circuitBreaker, executions := q.executions.set x e' },
    effects ++ rollbacks)

def answer (cfg : QueueConfig) (q : TransactionQueue) (x : Nat) (a : Answer) :
    Option (TransactionQueue × List Effect) :=
  match q.executions[x]? with
  | none => none
  | some e =>
    match e.work, a with
    | .rollingBack rest, .rolledBack =>
      let (e', effects) := e.rollBack q.steps rest
      some ({ q with executions := q.executions.set x e' }, effects)
    | _, _ =>
      if a = .locked ∧ q.lockFree cfg x e = false then none
      else (e.respond cfg q.circuitBreaker a).map fun r => q.takeTurn cfg x e r.1 r.2

def timeout (q : TransactionQueue) (x : Nat) : Option (TransactionQueue × List Effect) :=
  match q.executions[x]? with
  | none => none
  | some e =>
    if e.deadline = .armed then
      let (e', effects) := e.rollBackLate q.steps (q.completed e.run).reverse
      some ({ q with executions := q.executions.set x e' },
        .emit (e.event .failed none false) :: effects)
    else none

def rolledBack (q : TransactionQueue) (x : Nat) : Option (TransactionQueue × List Effect) :=
  match q.executions[x]? with
  | none => none
  | some e =>
    match e.deadline with
    | .fired rest =>
      let (e', effects) := e.rollBackLate q.steps rest
      some ({ q with executions := q.executions.set x e' }, effects)
    | _ => none

/-- `run` and `resume` are called one after the other. -/
def act (cfg : QueueConfig) (disk : Option Rows) (q : TransactionQueue) :
    Action → Option (TransactionQueue × List Effect)
  | .enqueue xdr rollback stepTimeoutMs => some (q.enqueue cfg xdr rollback stepTimeoutMs)
  | .run opts => if q.call = .idle then some (q.run cfg opts) else none
  | .resume opts => if q.call = .idle then some (q.resume cfg disk opts) else none
  | .proceed => q.proceed cfg
  | .polled a => q.polled cfg a
  | .answer x a => q.answer cfg x a
  | .timeout x => q.timeout x
  | .rolledBack x => q.rolledBack x

end TransactionQueue

/-! ## The queue and its adapter -/

/-- The adapter does what it is called for at once. -/
def Effect.store (disk : Option Rows) : Effect → Option Rows
  | .save rows => some rows
  | .clear => none
  | _ => disk

/-- The process, what the adapter holds, and what has happened. -/
structure QueueWorld where
  queue : TransactionQueue
  disk : Option Rows
  log : List Effect

namespace QueueWorld

def initial : QueueWorld := ⟨.new 0 0, none, []⟩

def after (w : QueueWorld) (q : TransactionQueue) (effects : List Effect) : QueueWorld :=
  ⟨q, effects.foldl Effect.store w.disk, w.log ++ effects⟩

/-- A restarted app has the numbers of its steps and calls from before, and calls `resume`. -/
def restart (cfg : QueueConfig) (w : QueueWorld) (opts : RunOptions) : QueueWorld :=
  let (q, effects) := (TransactionQueue.new w.queue.nextId w.queue.calls).resume cfg w.disk opts
  w.after q (.crash w.queue.nextId :: effects)

inductive Label where
  | act (action : Action)
  | crash (opts : RunOptions)
  /-- The process is gone after the first of the action's effects, or after `k` more. -/
  | crashIn (action : Action) (k : Nat) (opts : RunOptions)
  deriving DecidableEq

def next (cfg : QueueConfig) (w : QueueWorld) : Label → Option QueueWorld
  | .act action =>
    (w.queue.act cfg w.disk action).map fun r => w.after r.1 r.2
  | .crash opts => some (w.restart cfg opts)
  | .crashIn action k opts =>
    (w.queue.act cfg w.disk action).map fun r =>
      (w.after r.1 (r.2.take (k + 1))).restart cfg opts

end QueueWorld

/-! ## Runs on fixed inputs -/

/-- A stored queue with one attempt for everything, and no sequences looked up. -/
def plainConfig : QueueConfig := ⟨false, fun _ => none, true, 1, 5, 1, none, false⟩

def plainOptions : RunOptions := ⟨none, none, none⟩

def plainHash : TxHash := ⟨"hash", by decide⟩

/-- The answers that take a step up to its submission. -/
def submitted (x : Nat) : List QueueWorld.Label :=
  [.act (.answer x (.signed true)), .act (.answer x (.simulated true)),
    .act (.answer x (.accepted plainHash))]

/-- The answers that confirm a step. -/
def confirmed (x : Nat) : List QueueWorld.Label :=
  submitted x ++ [.act (.answer x (.found true)), .act .proceed]

end Sdk
end Linkora
