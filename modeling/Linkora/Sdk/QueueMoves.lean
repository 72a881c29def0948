import Linkora.Sdk.QueueStanding

/-!
# The moves of the queue

Everything that the queue can do when it is called, goes on or is answered, as one relation,
as long as no step is enqueued while `resume` looks at what is stored, and the work of an
earlier call goes no further than its guard.
-/

namespace Linkora
namespace Sdk

namespace Execution

variable {e : Execution} {steps : List QueueStep} {completed : List Nat}

theorem goOn_same (next : Next) : e.Same (e.goOn steps completed next).1 := by
  cases next with
  | wait work => exact ⟨rfl, rfl, rfl⟩
  | complete => exact ⟨settle_run true, settle_index true, settle_step true⟩
  | fail => exact e.rollBack_same steps completed.reverse
  | reject => exact e.released_rollBack_same steps completed.reverse
  | throw => exact ⟨settle_run false, settle_index false, settle_step false⟩

theorem rollBack_inactive (rest : List Nat) :
    (e.rollBack steps rest).1.work.active = false := by
  rw [rollBack]
  split
  · rfl
  · rw [settle_work]
    rfl

theorem rollBackLate_work (rest : List Nat) : (e.rollBackLate steps rest).1.work = e.work := by
  rw [rollBackLate]
  split
  · rfl
  · rw [settle_work]

theorem goOn_inactive {next : Next} (h : ∀ work, next ≠ .wait work) :
    (e.goOn steps completed next).1.work.active = false := by
  cases next with
  | wait work => exact absurd rfl (h work)
  | complete | throw =>
    rw [goOn, settle_work]
    rfl
  | fail | reject => exact rollBack_inactive completed.reverse

/-- A race that is won was won before, or by a completed step. -/
theorem goOn_race {next : Next} (h : (e.goOn steps completed next).1.race = some true) :
    next = .complete ∨ e.race = some true := by
  cases hnext : next with
  | complete => exact Or.inl rfl
  | wait work =>
    rw [hnext] at h
    exact Or.inr h
  | fail =>
    rw [hnext] at h
    by_contra hnot
    exact e.rollBack_race steps _ (fun hrace => hnot (Or.inr hrace)) h
  | reject =>
    rw [hnext] at h
    by_contra hnot
    exact e.released.rollBack_race steps _ (fun hrace => hnot (Or.inr hrace)) h
  | throw =>
    rw [hnext, goOn, settle_race] at h
    cases hrace : e.race with
    | none =>
      rw [show ({ e with work := Work.thrown } : Execution).race = none from hrace] at h
      cases h
    | some b =>
      rw [show ({ e with work := Work.thrown } : Execution).race = some b from hrace] at h
      exact Or.inr h

end Execution

/-- An effect that neither reports a success nor reaches the adapter or the network. -/
def Effect.plain : Effect → Bool
  | .emit event => event.status ≠ .confirmed
  | .rollback _ _ => true
  | _ => false

namespace Execution

variable {e : Execution} {steps : List QueueStep} {completed : List Nat}

theorem rollBack_plain (rest : List Nat) :
    ∀ f ∈ (e.rollBack steps rest).2, f.plain = true := by
  rw [rollBack]
  split
  · intro f hf
    rw [List.mem_singleton.mp hf]
    rfl
  · exact List.forall_mem_nil _

theorem rollBackLate_plain (rest : List Nat) :
    ∀ f ∈ (e.rollBackLate steps rest).2, f.plain = true := by
  rw [rollBackLate]
  split
  · intro f hf
    rw [List.mem_singleton.mp hf]
    rfl
  · exact List.forall_mem_nil _

theorem goOn_plain (next : Next) : ∀ f ∈ (e.goOn steps completed next).2, f.plain = true := by
  cases next with
  | wait | complete | throw => nofun
  | fail | reject => exact rollBack_plain completed.reverse

end Execution

/-! ## What `resume` does with what is stored -/

/-- The row is queued again, having not been submitted. -/
def PersistedQueueStep.unfinished (row : PersistedQueueStep) : Bool :=
  match row.status, row.hash with
  | .submitted, some _ | .confirmed, some _ => false
  | _, _ => true

/-- `resume` loads and clears what is stored and goes from row to row. -/
inductive Prepares (cfg : QueueConfig) : Action → Call → List Effect → Call → Prop
  | clears {state : Option Rows} {opts : RunOptions} :
    Prepares cfg .proceed (.loading state opts) [.clear] (.clearing state opts)
  | finds {state : Option Rows} {opts : RunOptions} (hstate : state.getD [] = []) :
    Prepares cfg .proceed (.clearing state opts) [.resumed] .idle
  | begins {rows : Rows} {opts : RunOptions} :
    Prepares cfg .proceed (.clearing (some rows) opts) [] (.reconciling rows 0 [] opts)
  | throws {rows : Rows} {i : Nat} {unfinished : List QueueStep} {opts : RunOptions}
      (hrow : rows[i]? = some none) :
    Prepares cfg .proceed (.reconciling rows i unfinished opts) [] .idle
  | asks {rows : Rows} {i : Nat} {unfinished : List QueueStep} {opts : RunOptions}
      {row : PersistedQueueStep} {hash : TxHash} (hrow : rows[i]? = some (some row))
      (hstatus : row.status = .submitted) (hhash : row.hash = some hash) :
    Prepares cfg .proceed (.reconciling rows i unfinished opts)
      [.emit (row.event i .unconfirmed (some hash))] (.polling rows i 0 unfinished opts)
  | givesUp {rows : Rows} {i : Nat} {unfinished : List QueueStep} {opts : RunOptions}
      {row : PersistedQueueStep} {hash : TxHash} (hrow : rows[i]? = some (some row))
      (hstatus : row.status = .submitted) (hhash : row.hash = some hash)
      (hmax : cfg.maxPollAttempts = 0) :
    Prepares cfg .proceed (.reconciling rows i unfinished opts)
      [.emit (row.event i .unconfirmed (some hash)), .emit (row.event i .lost (some hash))]
      (.reconciling rows (i + 1) unfinished opts)
  | recovers {rows : Rows} {i : Nat} {unfinished : List QueueStep} {opts : RunOptions}
      {row : PersistedQueueStep} {hash : TxHash} (hrow : rows[i]? = some (some row))
      (hstatus : row.status = .confirmed) (hhash : row.hash = some hash) :
    Prepares cfg .proceed (.reconciling rows i unfinished opts) []
      (.reconciling rows (i + 1) unfinished opts)
  | requeues {rows : Rows} {i : Nat} {unfinished : List QueueStep} {opts : RunOptions}
      {row : PersistedQueueStep} (hrow : rows[i]? = some (some row))
      (hunfinished : row.unfinished = true) :
    Prepares cfg .proceed (.reconciling rows i unfinished opts) [.emit (row.event i .lost none)]
      (.reconciling rows (i + 1) (unfinished ++ [row.step]) opts)
  | waits {a : Answer} {rows : Rows} {i attempt attempt' : Nat} {unfinished : List QueueStep}
      {opts : RunOptions} :
    Prepares cfg (.polled a) (.polling rows i attempt unfinished opts) []
      (.polling rows i attempt' unfinished opts)
  | succeeds {a : Answer} {rows : Rows} {i attempt : Nat} {unfinished : List QueueStep}
      {opts : RunOptions} {row : PersistedQueueStep} {hash : TxHash}
      (hrow : rows[i]? = some (some row)) :
    Prepares cfg (.polled a) (.polling rows i attempt unfinished opts)
      [.emit (row.event i .confirmed (some hash))] (.reconciling rows (i + 1) unfinished opts)
  | fails {a : Answer} {rows : Rows} {i attempt : Nat} {unfinished : List QueueStep}
      {opts : RunOptions} {row : PersistedQueueStep} {hash : TxHash}
      (hrow : rows[i]? = some (some row))
      (hfails : a = .found false ∨ a = .notFound ∧ cfg.maxPollAttempts ≤ attempt + 1) :
    Prepares cfg (.polled a) (.polling rows i attempt unfinished opts)
      [.emit (row.event i .lost (some hash))] (.reconciling rows (i + 1) unfinished opts)

/-! ## Moves -/

/-- The work is done or has failed, or its deadline has fired while it is at its guard. -/
def Execution.harmless (e : Execution) : Bool := !e.work.active || (e.timedOut && e.work.atGuard)

/-- No step is enqueued while `resume` looks at what is stored, and no work of an earlier call is
answered that is not harmless. -/
def TransactionQueue.uncrossed (q : TransactionQueue) : Action → Bool
  | .enqueue _ _ _ => !q.call.preparing
  | .answer x _ => (q.executions[x]?).all fun e => decide (e.run = q.calls) || e.harmless
  | _ => true

/-- What the queue can do. -/
inductive Moves (cfg : QueueConfig) (disk : Option Rows) (q : TransactionQueue) :
    Action → TransactionQueue → List Effect → Prop
  | enqueues (xdr : String) (rollback : Bool) (stepTimeoutMs : Option Nat)
      (hcall : q.call.preparing = false) :
    Moves cfg disk q (.enqueue xdr rollback stepTimeoutMs)
      (q.enqueue cfg xdr rollback stepTimeoutMs).1
      (q.enqueue cfg xdr rollback stepTimeoutMs).2
  | runs (opts : RunOptions) (hcall : q.call = .idle) :
    Moves cfg disk q (.run opts) (q.run cfg opts).1 (q.run cfg opts).2
  | loads (opts : RunOptions) (hcall : q.call = .idle) (hstores : cfg.persistence = true) :
    Moves cfg disk q (.resume opts)
      { q with call := .loading disk opts, calls := q.calls + 1 } []
  | resumesNothing (opts : RunOptions) (hstores : cfg.persistence = false) :
    Moves cfg disk q (.resume opts) q [.resumed]
  | prepares {a : Action} {call : Call} {effects : List Effect} (hashes : List TxHash)
      (hprepares : Prepares cfg a q.call effects call) :
    Moves cfg disk q a { q with call, submittedHashes := hashes } effects
  | returns {rows : Rows} {i : Nat} {opts : RunOptions}
      (hcall : q.call = .reconciling rows i [] opts) (hrow : rows[i]? = none) :
    Moves cfg disk q .proceed { q.refill [] with call := .idle } [.resumed]
  | refills {rows : Rows} {i : Nat} {unfinished : List QueueStep} {opts : RunOptions}
      (hcall : q.call = .reconciling rows i unfinished opts) (hrow : rows[i]? = none) :
    Moves cfg disk q .proceed ((q.refill unfinished).loop cfg 0 true opts).1
      ((q.refill unfinished).loop cfg 0 true opts).2
  | goesOn {i : Nat} {resuming : Bool} {opts : RunOptions}
      (hcall : q.call = .stepping i resuming opts)
      (hrace : q.executions.getLast?.bind Execution.race = some true) :
    Moves cfg disk q .proceed (q.loop cfg (i + 1) resuming opts).1
      (q.loop cfg (i + 1) resuming opts).2
  | stops {i : Nat} {resuming : Bool} {opts : RunOptions}
      (hcall : q.call = .stepping i resuming opts) :
    Moves cfg disk q .proceed { q with call := .idle } []
  | turns {x : Nat} {a : Answer} {e : Execution} {turn : Turn} (b : CircuitBreaker)
      (hx : q.executions[x]? = some e) (hrun : e.run = q.calls) (hactive : e.work.active = true)
      (htakes : e.Takes turn) :
    Moves cfg disk q (.answer x a) (q.takeTurn cfg x e turn b).1
      (q.takeTurn cfg x e turn b).2
  | fades {a : Action} {x : Nat} {e e' : Execution} {effects : List Effect} (b : CircuitBreaker)
      (hx : q.executions[x]? = some e) (hsame : e.Same e')
      (hwork : e'.work = e.work ∨ e'.work.active = false)
      (hrace : e'.race = some true → e.race = some true)
      (heffects : ∀ f ∈ effects, f.plain = true) :
    Moves cfg disk q a
      { q with circuitBreaker := b, executions := q.executions.set x e' } effects

namespace TransactionQueue

variable {cfg : QueueConfig} {disk : Option Rows} {q q' : TransactionQueue}
  {effects : List Effect}

theorem reconcile_moves {rows : Rows} {i : Nat} {unfinished : List QueueStep} {opts : RunOptions}
    (hcall : q.call = .reconciling rows i unfinished opts) :
    Moves cfg disk q .proceed (q.reconcile cfg rows i unfinished opts).1
      (q.reconcile cfg rows i unfinished opts).2 := by
  rw [reconcile]
  cases hrow : rows[i]? with
  | none =>
    show Moves cfg disk q .proceed (q.requeue cfg unfinished opts).1
      (q.requeue cfg unfinished opts).2
    rw [requeue]
    split
    · rename_i hnil
      subst hnil
      exact .returns hcall hrow
    · exact .refills hcall hrow
  | some row =>
    cases row with
    | none => exact .prepares q.submittedHashes (hcall ▸ .throws hrow)
    | some row =>
      dsimp only
      split
      case h_1 hash hstatus hhash =>
        split
        · exact .prepares q.submittedHashes (hcall ▸ .asks hrow hstatus hhash)
        · rename_i hmax
          exact .prepares q.submittedHashes (hcall ▸ .givesUp hrow hstatus hhash (by omega))
      case h_2 hash hstatus hhash =>
        exact .prepares (q.submittedHashes ++ [hash]) (hcall ▸ .recovers hrow hstatus hhash)
      case h_3 hsubmitted hconfirmed =>
        refine .prepares q.submittedHashes (hcall ▸ .requeues hrow ?_)
        rw [PersistedQueueStep.unfinished]
        split
        case h_1 hash hstatus hhash => exact absurd hhash (hsubmitted hash hstatus)
        case h_2 hash hstatus hhash => exact absurd hhash (hconfirmed hash hstatus)
        case h_3 => rfl

theorem polled_moves {a : Answer} (hact : q.polled cfg a = some (q', effects)) :
    Moves cfg disk q (.polled a) q' effects := by
  rw [polled] at hact
  split at hact
  case h_2 => cases hact
  case h_1 rows i attempt unfinished opts hcall =>
    split at hact
    · cases hact
    · rename_i row hjoin
      have hrow : rows[i]? = some (some row) := Option.join_eq_some_iff.mp hjoin
      split at hact
      · obtain ⟨rfl, rfl⟩ := eq_of_some_pair hact
        exact .prepares _ (hcall ▸ .succeeds hrow)
      · obtain ⟨rfl, rfl⟩ := eq_of_some_pair hact
        exact .prepares q.submittedHashes (hcall ▸ .fails hrow (Or.inl rfl))
      · split at hact
        · obtain ⟨rfl, rfl⟩ := eq_of_some_pair hact
          exact .prepares q.submittedHashes (hcall ▸ .waits)
        · rename_i hlast
          obtain ⟨rfl, rfl⟩ := eq_of_some_pair hact
          exact .prepares q.submittedHashes
            (hcall ▸ .fails hrow (Or.inr ⟨rfl, Nat.not_lt.mp hlast⟩))
      · cases hact

theorem proceed_moves (hact : q.proceed cfg = some (q', effects)) :
    Moves cfg disk q .proceed q' effects := by
  rw [proceed] at hact
  split at hact
  case h_1 state opts hcall =>
    obtain ⟨rfl, rfl⟩ := eq_of_some_pair hact
    exact .prepares q.submittedHashes (hcall ▸ .clears)
  case h_2 hcall | h_3 hcall =>
    obtain ⟨rfl, rfl⟩ := eq_of_some_pair hact
    exact .prepares q.submittedHashes (hcall ▸ .finds rfl)
  case h_4 rows opts _ hcall =>
    obtain ⟨rfl, rfl⟩ := eq_of_some_pair hact
    exact .prepares q.submittedHashes (hcall ▸ .begins)
  case h_5 rows i unfinished opts hcall =>
    obtain ⟨rfl, rfl⟩ := eq_of_some_pair hact
    exact reconcile_moves hcall
  case h_6 i resuming opts hcall =>
    split at hact
    · rename_i hrace
      obtain ⟨rfl, rfl⟩ := eq_of_some_pair hact
      exact .goesOn hcall hrace
    · obtain ⟨rfl, rfl⟩ := eq_of_some_pair hact
      exact .stops hcall
    · cases hact
  case h_7 => cases hact

theorem answer_moves {x : Nat} {a : Answer} (hcond : q.uncrossed (.answer x a) = true)
    (hact : q.answer cfg x a = some (q', effects)) :
    Moves cfg disk q (.answer x a) q' effects := by
  rw [answer] at hact
  split at hact
  · cases hact
  · rename_i e hx
    rw [uncrossed, hx] at hcond
    have hcond' : (decide (e.run = q.calls) || e.harmless) = true := hcond
    split at hact
    · rename_i rest hwork
      obtain ⟨rfl, rfl⟩ := eq_of_some_pair hact
      refine .fades q.circuitBreaker hx (e.rollBack_same q.steps rest)
        (Or.inr (Execution.rollBack_inactive rest)) ?_ (Execution.rollBack_plain rest)
      intro hrace
      by_contra hnot
      exact e.rollBack_race q.steps rest hnot hrace
    · split at hact
      · cases hact
      · obtain ⟨⟨turn, b⟩, hrespond, hturn⟩ := Option.map_eq_some_iff.mp hact
        obtain ⟨rfl, rfl⟩ := Prod.mk.inj hturn
        obtain ⟨htakes, hactive⟩ := Execution.respond_takes hrespond
        by_cases hrun : e.run = q.calls
        · exact .turns b hx hrun hactive htakes
        · rw [decide_eq_false hrun, Bool.false_or, Execution.harmless, hactive, Bool.not_true,
            Bool.false_or, Bool.and_eq_true] at hcond'
          -- The guard of an earlier call is late and gives up.
          obtain rfl := htakes.of_late hcond'.2 hcond'.1
          have hrace : (e.goOn q.steps (q.completed e.run) .throw).1.race = some true →
              e.race = some true := by
            intro hwon
            rcases Execution.goOn_race hwon with hnext | hwon'
            · cases hnext
            · exact hwon'
          have hfaded : (e.goOn q.steps (q.completed e.run) .throw).1.work.active = false :=
            Execution.goOn_inactive (fun _ h => by cases h)
          have hsame : e.Same (e.goOn q.steps (q.completed e.run) .throw).1 :=
            Execution.goOn_same .throw
          exact .fades b hx hsame (Or.inr hfaded) hrace (List.forall_mem_nil _)

theorem timeout_moves {x : Nat} (hact : q.timeout x = some (q', effects)) :
    Moves cfg disk q (.timeout x) q' effects := by
  rw [timeout] at hact
  split at hact
  · cases hact
  · rename_i e hx
    split at hact
    · obtain ⟨rfl, rfl⟩ := eq_of_some_pair hact
      refine .fades q.circuitBreaker hx (e.rollBackLate_same q.steps _)
        (Or.inl (Execution.rollBackLate_work _)) ?_ ?_
      · intro hrace
        by_contra hnot
        exact e.rollBackLate_race q.steps _ hnot hrace
      · intro f hf
        rcases List.mem_cons.mp hf with rfl | hf
        · rfl
        · exact Execution.rollBackLate_plain _ f hf
    · cases hact

theorem rolledBack_moves {x : Nat} (hact : q.rolledBack x = some (q', effects)) :
    Moves cfg disk q (.rolledBack x) q' effects := by
  rw [rolledBack] at hact
  split at hact
  · cases hact
  · rename_i e hx
    split at hact
    · rename_i rest hdeadline
      obtain ⟨rfl, rfl⟩ := eq_of_some_pair hact
      refine .fades q.circuitBreaker hx (e.rollBackLate_same q.steps rest)
        (Or.inl (Execution.rollBackLate_work rest)) ?_ (Execution.rollBackLate_plain rest)
      intro hrace
      by_contra hnot
      exact e.rollBackLate_race q.steps rest hnot hrace
    · cases hact

theorem act_moves {a : Action} (hcond : q.uncrossed a = true)
    (hact : q.act cfg disk a = some (q', effects)) : Moves cfg disk q a q' effects := by
  cases a with
  | enqueue xdr rollback stepTimeoutMs =>
    obtain ⟨rfl, rfl⟩ := eq_of_some_pair hact
    rw [uncrossed, Bool.not_eq_true'] at hcond
    exact .enqueues xdr rollback stepTimeoutMs hcond
  | run opts =>
    rw [act] at hact
    split at hact
    · obtain ⟨rfl, rfl⟩ := eq_of_some_pair hact
      exact .runs opts ‹_›
    · cases hact
  | resume opts =>
    rw [act] at hact
    split at hact
    · obtain ⟨rfl, rfl⟩ := eq_of_some_pair hact
      rw [resume]
      split
      · exact .loads opts ‹_› ‹_›
      · exact .resumesNothing opts (Bool.eq_false_iff.mpr ‹_›)
    · cases hact
  | proceed => exact proceed_moves hact
  | polled a => exact polled_moves hact
  | answer x a => exact answer_moves hcond hact
  | timeout x => exact timeout_moves hact
  | rolledBack x => exact rolledBack_moves hact

end TransactionQueue

end Sdk
end Linkora
