import Linkora.Contract.Types
import Linkora.Lib.Checked
import Linkora.Lib.Scan

/-!
# Transactions of the web client

`signAndSubmitTransaction` waits for the transaction it has sent in a loop over status texts
of two different methods of the RPC server: `sendTransaction` answers `PENDING`, but
`getTransaction` never does.
-/

namespace Linkora
namespace Web

/-- The `status` of `sendTransaction`. -/
inductive SendStatus where
  | pending
  | duplicate
  | tryAgainLater
  | error
  deriving DecidableEq

def SendStatus.text : SendStatus → String
  | .pending => "PENDING"
  | .duplicate => "DUPLICATE"
  | .tryAgainLater => "TRY_AGAIN_LATER"
  | .error => "ERROR"

/-- The `status` of `getTransaction`. -/
inductive GetStatus where
  | notFound
  | success
  | failed
  deriving DecidableEq

def GetStatus.text : GetStatus → String
  | .notFound => "NOT_FOUND"
  | .success => "SUCCESS"
  | .failed => "FAILED"

theorem SendStatus.text_eq_pending {s : SendStatus} : s.text = "PENDING" ↔ s = .pending := by
  cases s <;> decide

theorem SendStatus.text_eq_error {s : SendStatus} : s.text = "ERROR" ↔ s = .error := by
  cases s <;> decide

theorem GetStatus.text_ne_pending (s : GetStatus) : s.text ≠ "PENDING" := by
  cases s <;> decide

theorem GetStatus.text_ne_error (s : GetStatus) : s.text ≠ "ERROR" := by
  cases s <;> decide

/-- An exception, by the name of its class. -/
structure Failure where
  name : String
  message : String
  deriving DecidableEq

/-- `new Error(message)` -/
def Failure.error (message : String) : Failure := ⟨"Error", message⟩

structure TransactionConfig where
  contractId : String
  rpcUrl : String
  networkPassphrase : String

structure TransactionResult where
  hash : String
  status : String
  deriving DecidableEq

/-- An RPC server as the client finds it from one submission on.  `now` is the clock at each
test of the loop that waits, and `getTransaction` has the answers to one poll after another. -/
structure Server (Account Tx Simulated Signed : Type) where
  getAccount : String → Except Failure Account
  simulateTransaction : Tx → Except Failure (Except String Simulated)
  sendTransaction : Signed → Except Failure (String × SendStatus)
  startTime : Int
  now : Nat → Int
  getTransaction : String → Nat → Except Failure GetStatus

/-- What the client passes to `nativeToScVal` or makes itself. -/
inductive Native where
  | address (a : String)
  | u64 (n : Int)
  | bool (b : Bool)
  | string (s : String)
  | void
  | map (fields : List (String × Native))

/-- The wallet and the packages for transactions. -/
structure Env (Account Tx Simulated Signed Val : Type) where
  server : String → Server Account Tx Simulated Signed
  toScVal : Native → Except Failure Val
  build : String → String → List Val → Account → String → Except Failure Tx
  assembleTransaction : Tx → Simulated → Except Failure String
  signTransaction : String → String → Except Failure String
  fromXDR : String → String → Except Failure Signed

/-- A call of `getTransaction`. -/
structure Poll where
  hash : String
  answer : Except Failure GetStatus

/-- What a call sent, what it asked afterwards and how it ended. -/
structure Run (α : Type) where
  sent : Option (String × SendStatus)
  polls : List Poll
  value : Except Failure α

/-- A computation that goes on only after another one has returned. -/
def Run.after {α β : Type} (x : Except Failure β) (f : β → Option (Run α)) : Option (Run α) :=
  match x with
  | .error e => some ⟨none, [], .error e⟩
  | .ok b => f b

def Run.map {α β : Type} (f : α → β) (run : Run α) : Run β :=
  ⟨run.sent, run.polls, run.value.map f⟩

variable {Account Tx Simulated Signed Val : Type}

/-- The loop: `none` if it has not ended after that many tests. -/
def Server.confirm (server : Server Account Tx Simulated Signed) (timeout : Int) (hash : String) :
    Nat → List Poll → String → Option (Except Failure String × List Poll)
  | 0, _, _ => none
  | turns + 1, polls, status =>
    if status = "PENDING" ∧ server.now polls.length - server.startTime < timeout then
      match server.getTransaction hash polls.length with
      | .error e => some (.error e, polls ++ [⟨hash, .error e⟩])
      | .ok next => server.confirm timeout hash turns (polls ++ [⟨hash, .ok next⟩]) next.text
    else some (.ok status, polls)

/-- The tests after the loop. -/
def conclude (timeout : Int) (hash status : String) : Except Failure TransactionResult :=
  if status = "PENDING" then .error (.error s!"Transaction confirmation timeout after {timeout}ms")
  else if status = "ERROR" then .error (.error "Transaction failed during execution")
  else .ok ⟨hash, status⟩

/-- The hash and the status that the server answers with. -/
def Env.submission (env : Env Account Tx Simulated Signed Val) (xdr : String)
    (config : TransactionConfig) : Except Failure (String × SendStatus) := do
  let signedXdr ← env.signTransaction xdr config.networkPassphrase
  let signedTx ← env.fromXDR signedXdr config.networkPassphrase
  (env.server config.rpcUrl).sendTransaction signedTx

def Env.signAndSubmitTransaction (env : Env Account Tx Simulated Signed Val) (turns : Nat)
    (xdr : String) (config : TransactionConfig) (timeout : Int) :
    Option (Run TransactionResult) :=
  Run.after (env.submission xdr config) fun sendResponse =>
    if sendResponse.2.text = "ERROR" then
      some ⟨some sendResponse, [], .error (.error "Transaction failed to submit")⟩
    else
      ((env.server config.rpcUrl).confirm timeout sendResponse.1 turns []
        sendResponse.2.text).map fun ended =>
          ⟨some sendResponse, ended.2, ended.1.bind (conclude timeout sendResponse.1)⟩

/-- `buildSignAndSubmit` up to the signature. -/
def Env.prepare (env : Env Account Tx Simulated Signed Val) (method : String) (args : List Val)
    (sourceAddress : String) (config : TransactionConfig) : Except Failure String := do
  let server := env.server config.rpcUrl
  let account ← server.getAccount sourceAddress
  let tx ← env.build config.contractId method args account config.networkPassphrase
  match ← server.simulateTransaction tx with
  | .error e => .error (.error s!"Transaction simulation failed: {e}")
  | .ok simulated => env.assembleTransaction tx simulated

def Env.buildSignAndSubmit (env : Env Account Tx Simulated Signed Val) (turns : Nat)
    (method : String) (args : List Val) (sourceAddress : String) (config : TransactionConfig)
    (timeout : Int) : Option (Run TransactionResult) :=
  Run.after (env.prepare method args sourceAddress config) fun xdr =>
    env.signAndSubmitTransaction turns xdr config timeout

/-- The default of `timeout`. -/
def defaultTimeout : Int := 30000

/-! ## What a run should report -/

/-- The transaction is not known to have been found. -/
def Run.Unfound {α : Type} (run : Run α) : Prop :=
  match run.polls.getLast? with
  | none => ∃ hash, run.sent = some (hash, .pending)
  | some p => p.answer = .ok .notFound

/-- The run reports success if, and only if, its last poll has found that the transaction sent
has succeeded, and it does not give up on a transaction before the timeout. -/
structure Run.Honest {α : Type} (run : Run α) (server : Server Account Tx Simulated Signed)
    (timeout : Int) (hashOf : α → String) : Prop where
  reported : (∃ a, run.value = .ok a) ↔ ∃ hash status, run.sent = some (hash, status) ∧
    run.polls.getLast? = some ⟨hash, .ok .success⟩
  hash : ∀ a, run.value = .ok a → ∃ status, run.sent = some (hashOf a, status)
  patient : run.Unfound → timeout ≤ server.now run.polls.length - server.startTime

/-- The call comes to an end, in an honest way. -/
def Meets {α : Type} (out : Option (Run α)) (server : Server Account Tx Simulated Signed)
    (timeout : Int) (hashOf : α → String) : Prop :=
  ∃ run, out = some run ∧ run.Honest server timeout hashOf

variable {server : Server Account Tx Simulated Signed} {timeout : Int} {α β : Type}
  {hashOf : α → String}

theorem meets_some {run : Run α} :
    Meets (some run) server timeout hashOf ↔ run.Honest server timeout hashOf := by
  constructor
  · intro ⟨run', heq, h⟩
    rw [Option.some.inj heq]
    exact h
  · exact fun h => ⟨run, rfl, h⟩

theorem Run.Honest.of_unsent (e : Failure) :
    (⟨none, [], .error e⟩ : Run α).Honest server timeout hashOf where
  reported := by simp
  hash := by simp
  patient := by simp [Run.Unfound]

theorem meets_after {x : Except Failure β} {f : β → Option (Run α)} :
    Meets (Run.after x f) server timeout hashOf ↔
      ∀ b, x = .ok b → Meets (f b) server timeout hashOf := by
  cases x with
  | error e =>
    simp only [reduceCtorEq, false_implies, implies_true, iff_true]
    exact meets_some.mpr (.of_unsent e)
  | ok b => simp [Run.after]

theorem Run.honest_map {run : Run α} {f : α → β} {hashOf : β → String} :
    (run.map f).Honest server timeout hashOf ↔
      run.Honest server timeout fun a => hashOf (f a) := by
  have hvalue : (∃ b, (run.map f).value = .ok b) ↔ ∃ a, run.value = .ok a := by
    simp [Run.map]
  constructor
  · intro h
    refine ⟨hvalue.symm.trans h.reported, fun a ha => h.hash (f a) ?_, h.patient⟩
    exact Checked.map_eq_ok.mpr ⟨a, ha, rfl⟩
  · intro h
    refine ⟨hvalue.trans h.reported, fun b hb => ?_, h.patient⟩
    obtain ⟨a, ha, rfl⟩ := Checked.map_eq_ok.mp hb
    exact h.hash a ha

theorem meets_map {out : Option (Run α)} {f : α → β} {hashOf : β → String} :
    Meets (out.map (Run.map f)) server timeout hashOf ↔
      Meets out server timeout fun a => hashOf (f a) := by
  constructor
  · intro ⟨run', heq, h⟩
    obtain ⟨run, hrun, rfl⟩ := Option.map_eq_some_iff.mp heq
    exact ⟨run, hrun, Run.honest_map.mp h⟩
  · intro ⟨run, hrun, h⟩
    exact ⟨run.map f, by rw [hrun]; rfl, Run.honest_map.mpr h⟩

/-! ## The loop -/

theorem Server.confirm_of_ne {turns : Nat} {hash status : String} {polls : List Poll}
    (h : status ≠ "PENDING") :
    server.confirm timeout hash (turns + 1) polls status = some (.ok status, polls) := by
  rw [Server.confirm, if_neg fun hboth => h hboth.1]

/-- Whatever the first poll answers, the loop is over after it. -/
theorem Server.confirm_pending {turns : Nat} {hash : String}
    (hearly : server.now 0 - server.startTime < timeout) :
    server.confirm timeout hash (turns + 2) [] "PENDING" =
      some ((server.getTransaction hash 0).map GetStatus.text,
        [⟨hash, server.getTransaction hash 0⟩]) := by
  rw [Server.confirm, if_pos ⟨rfl, hearly⟩]
  simp only [List.length_nil, List.nil_append]
  cases server.getTransaction hash 0 with
  | error e => rfl
  | ok next => exact Server.confirm_of_ne next.text_ne_pending

theorem Server.confirm_late {turns : Nat} {hash : String}
    (hlate : timeout ≤ server.now 0 - server.startTime) :
    server.confirm timeout hash (turns + 1) [] "PENDING" = some (.ok "PENDING", []) := by
  rw [Server.confirm, if_neg fun hboth => absurd hboth.2 (not_lt.mpr hlate)]

/-- The answers after which a report is right: the server has refused the transaction, or it
takes it and the first poll comes too late, throws or finds that it has succeeded. -/
def Server.Settles (server : Server Account Tx Simulated Signed) (timeout : Int)
    (sent : String × SendStatus) : Prop :=
  sent.2 = .error ∨ sent.2 = .pending ∧
    (timeout ≤ server.now 0 - server.startTime ∨
      ∀ s, server.getTransaction sent.1 0 = .ok s → s = .success)

/-- Unless the transaction cannot be signed, read or sent. -/
def Env.Settles (env : Env Account Tx Simulated Signed Val) (xdr : String)
    (config : TransactionConfig) (timeout : Int) : Prop :=
  ∀ sent, env.submission xdr config = .ok sent → (env.server config.rpcUrl).Settles timeout sent

theorem conclude_of_ne {hash status : String} (hpending : status ≠ "PENDING")
    (herror : status ≠ "ERROR") : conclude timeout hash status = .ok ⟨hash, status⟩ := by
  rw [conclude, if_neg hpending, if_neg herror]

theorem conclude_pending (timeout : Int) (hash : String) :
    ∃ e, conclude timeout hash "PENDING" = .error e := ⟨_, by rw [conclude, if_pos rfl]⟩

/-- A transaction that was not polled for is not known to have succeeded. -/
theorem Run.Honest.of_unpolled {sent : String × SendStatus} {value : Except Failure α}
    (h : (⟨some sent, [], value⟩ : Run α).Honest server timeout hashOf) :
    ∀ a, value ≠ .ok a := by
  intro a ha
  obtain ⟨_, _, -, hlast⟩ := h.reported.mp ⟨a, ha⟩
  cases hlast

theorem Run.honest_unpolled {sent : String × SendStatus} {e : Failure} :
    (⟨some sent, [], .error e⟩ : Run α).Honest server timeout hashOf ↔
      (sent.2 = .pending → timeout ≤ server.now 0 - server.startTime) := by
  constructor
  · intro h hpending
    exact h.patient ⟨sent.1, by rw [← hpending]⟩
  · intro h
    refine ⟨by simp, by simp, ?_⟩
    intro ⟨hash, heq⟩
    exact h (by rw [Option.some.inj heq])

theorem Run.honest_polled {hash : String} {answer : Except Failure GetStatus} :
    (⟨some (hash, .pending), [⟨hash, answer⟩],
      (answer.map GetStatus.text).bind (conclude timeout hash)⟩ :
        Run TransactionResult).Honest server timeout TransactionResult.hash ↔
      ∀ s, answer = .ok s → s = .success := by
  cases answer with
  | error e =>
    simp only [reduceCtorEq, false_implies, implies_true, iff_true]
    refine ⟨?_, by simp [Except.map, Except.bind], by simp [Run.Unfound]⟩
    simp [Except.map, Except.bind]
  | ok s =>
    have hvalue : ((Except.ok s : Except Failure GetStatus).map GetStatus.text).bind
        (conclude timeout hash) = .ok ⟨hash, s.text⟩ :=
      conclude_of_ne s.text_ne_pending s.text_ne_error
    rw [hvalue]
    constructor
    · intro h s' hs
      obtain ⟨_, _, -, hlast⟩ := h.reported.mp ⟨_, rfl⟩
      have hanswer := congrArg Poll.answer (Option.some.inj hlast)
      rw [← Except.ok.inj hs]
      exact Except.ok.inj hanswer
    · intro h
      rw [h s rfl]
      refine ⟨?_, ?_, by simp [Run.Unfound]⟩
      · simp
      · intro r hr
        rw [← Except.ok.inj hr]
        exact ⟨.pending, rfl⟩

/-- One submission: the report is right just if the server answers in one of the ways that the
loop and the tests after it were written for. -/
theorem Env.meets_signAndSubmitTransaction (env : Env Account Tx Simulated Signed Val)
    (turns : Nat) (xdr : String) (config : TransactionConfig) (timeout : Int) :
    Meets (env.signAndSubmitTransaction (turns + 2) xdr config timeout)
        (env.server config.rpcUrl) timeout TransactionResult.hash ↔
      env.Settles xdr config timeout := by
  rw [Env.signAndSubmitTransaction, meets_after]
  refine forall₂_congr fun sent _ => ?_
  obtain ⟨hash, status⟩ := sent
  by_cases herror : status = .error
  · rw [if_pos (SendStatus.text_eq_error.mpr herror), meets_some, Run.honest_unpolled, herror]
    simp [Server.Settles]
  rw [if_neg fun h => herror (SendStatus.text_eq_error.mp h)]
  by_cases hpending : status = .pending
  · subst hpending
    rw [show SendStatus.pending.text = "PENDING" from rfl]
    by_cases hearly : (env.server config.rpcUrl).now 0 - (env.server config.rpcUrl).startTime <
        timeout
    · rw [Server.confirm_pending hearly, Option.map_some, meets_some, Run.honest_polled]
      simp [Server.Settles, hearly]
    · have hlate := not_lt.mp hearly
      obtain ⟨e, he⟩ := conclude_pending timeout hash
      rw [Server.confirm_late hlate, Option.map_some, meets_some, Except.bind, he,
        Run.honest_unpolled]
      simp [Server.Settles, hlate]
  · -- an answer that is neither: the loop is passed over, and so are the tests after it
    have hne : status.text ≠ "PENDING" := fun h => hpending (SendStatus.text_eq_pending.mp h)
    have hne' : status.text ≠ "ERROR" := fun h => herror (SendStatus.text_eq_error.mp h)
    rw [Server.confirm_of_ne hne, Option.map_some, meets_some, Except.bind,
      conclude_of_ne hne hne']
    simp only [Server.Settles, herror, hpending, false_and, or_self, iff_false]
    exact fun h => h.of_unpolled _ rfl

theorem Env.meets_buildSignAndSubmit (env : Env Account Tx Simulated Signed Val) (turns : Nat)
    (method : String) (args : List Val) (sourceAddress : String) (config : TransactionConfig)
    (timeout : Int) :
    Meets (env.buildSignAndSubmit (turns + 2) method args sourceAddress config timeout)
        (env.server config.rpcUrl) timeout TransactionResult.hash ↔
      ∀ xdr, env.prepare method args sourceAddress config = .ok xdr →
        env.Settles xdr config timeout := by
  rw [Env.buildSignAndSubmit, meets_after]
  exact forall₂_congr fun xdr _ => env.meets_signAndSubmitTransaction turns xdr config timeout

end Web
end Linkora
