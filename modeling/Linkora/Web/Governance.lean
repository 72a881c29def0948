import Linkora.Web.Transactions

/-!
# Votes and proposals from the web client

`castVote` and `createProposal` return the hash of a transaction that `buildSignAndSubmit`
has sent; what is refused before is never sent.
-/

namespace Linkora
namespace Web

open Contract (GovParameter)

/-- The values of the enumeration of the client. -/
def parameterText : GovParameter → String
  | .feeBps => "FeeBps"
  | .treasury => "Treasury"
  | .tipCooldownWindow => "TipCooldownWindow"
  | .govQuorum => "GovQuorum"
  | .govTimeLock => "GovTimeLock"
  | .govVoteWindow => "GovVoteWindow"
  | .moderationSlashBps => "ModerationSlashBps"

inductive VoteChoice where
  | for
  | against
  | abstain
  deriving DecidableEq

/-- `/^{c1,c2,…}[A-Z2-7]{55}$/` -/
def isStrkey (kinds : List Char) (s : String) : Bool :=
  match s.toList with
  | [] => false
  | kind :: rest =>
    kinds.contains kind && decide (rest.length = 55) &&
      rest.all fun c => ('A' ≤ c && c ≤ 'Z') || ('2' ≤ c && c ≤ '7')

/-- `config` of the application. -/
structure AppConfig where
  contractId : String
  sorobanRpcUrl : String
  networkPassphrase : String

def AppConfig.isGovernanceConfigured (config : AppConfig) : Bool :=
  if config.contractId = "" ∨ Text.startsWith config.contractId "CXXX" = true ∨
      config.contractId = "CDUMMY" then false
  else isStrkey ['C'] config.contractId

def AppConfig.governanceTxConfig (config : AppConfig) : TransactionConfig :=
  ⟨config.contractId, config.sorobanRpcUrl, config.networkPassphrase⟩

def Failure.unsupported (message : String) : Failure := ⟨"GovernanceUnsupportedError", message⟩

def notConfigured : Failure := .unsupported "Governance contract is not configured."

/-! ## Whole numbers -/

def digitsIn (base : Nat) (l : List Char) : Option Nat :=
  if l ≠ [] ∧ l.all (Scan.inBase base) = true then some (Scan.digitsValue base l) else none

/-- `BigInt(s)`, without a value where it throws. -/
def bigIntChars : List Char → Option Int
  | [] => some 0
  | '0' :: 'x' :: rest | '0' :: 'X' :: rest => (digitsIn 16 rest).map Nat.cast
  | '0' :: 'o' :: rest | '0' :: 'O' :: rest => (digitsIn 8 rest).map Nat.cast
  | '0' :: 'b' :: rest | '0' :: 'B' :: rest => (digitsIn 2 rest).map Nat.cast
  | '-' :: rest => (digitsIn 10 rest).map fun n => -n
  | '+' :: rest => (digitsIn 10 rest).map Nat.cast
  | l => (digitsIn 10 l).map Nat.cast

def bigInt (s : String) : Except Failure Int :=
  match bigIntChars (Scan.trimChars s.toList) with
  | some n => .ok n
  | none => .error ⟨"SyntaxError", s!"Cannot convert {s} to a BigInt"⟩

/-! ## The votes of this browser -/

/-- The votes by voter and proposal. -/
abbrev LocalVoteMap := List (String × VoteChoice)

/-- The item of the local storage, if there is a window; a text that is not JSON has no
votes. -/
structure LocalVotes where
  item : Option (Option LocalVoteMap)
  readable : Bool
  writable : Bool

def readLocalVotes (window : Option LocalVotes) : LocalVoteMap :=
  match window with
  | none => []
  | some stored =>
    if stored.readable = true then
      match stored.item with
      | none => []
      | some raw => raw.getD []
    else []

def LocalVoteMap.set (votes : LocalVoteMap) (key : String) (choice : VoteChoice) : LocalVoteMap :=
  (key, choice) :: votes.filter fun entry => entry.1 != key

def voteKey (address proposalId : String) : String := s!"{address}:{proposalId}"

def getLocalVote (window : Option LocalVotes) (address : Option String) (proposalId : String) :
    Option VoteChoice :=
  match address with
  | none => none
  | some a =>
    if a = "" then none else (readLocalVotes window).lookup (voteKey a proposalId)

def saveLocalVote (window : Option LocalVotes) (address proposalId : String)
    (choice : VoteChoice) : Option LocalVotes :=
  window.map fun stored =>
    -- a storage that cannot be written is left as it is
    if stored.writable = true then
      { stored with item := some (some
          ((readLocalVotes window).set (voteKey address proposalId) choice)) }
    else stored

/-! ## Votes -/

structure CastVoteInput where
  proposalId : String
  choice : VoteChoice
  voter : String

variable {Account Tx Simulated Signed Val : Type}

/-- `castVote` up to `buildSignAndSubmit`. -/
def Env.voteArgs (env : Env Account Tx Simulated Signed Val) (config : AppConfig)
    (input : CastVoteInput) : Except Failure (List Val) := do
  if input.choice = .abstain then
    throw (.unsupported "Abstain votes are not supported by the current governance contract.")
  if config.isGovernanceConfigured = false then throw notConfigured
  let voter ← env.toScVal (.address input.voter)
  let id ← bigInt input.proposalId
  let proposal ← env.toScVal (.u64 id)
  let support ← env.toScVal (.bool (decide (input.choice = .for)))
  pure [voter, proposal, support]

def Env.castVote (env : Env Account Tx Simulated Signed Val) (turns : Nat) (config : AppConfig)
    (input : CastVoteInput) : Option (Run String) :=
  Run.after (env.voteArgs config input) fun args =>
    (env.buildSignAndSubmit turns "gov_vote" args input.voter config.governanceTxConfig
      defaultTimeout).map (Run.map TransactionResult.hash)

/-- The votes of the browser after a `castVote`. -/
def votesAfter (window : Option LocalVotes) (input : CastVoteInput) (run : Run String) :
    Option LocalVotes :=
  match run.value with
  | .error _ => window
  | .ok _ => saveLocalVote window input.voter input.proposalId input.choice

/-! ## Proposals -/

structure ProposalDraft where
  title : String
  description : String
  parameter : GovParameter
  newValue : String
  newAddress : String

/-- `s.length` -/
def lengthOf (s : String) : Nat := (Text.utf16 s).length

/-- The number that a text of digits stands for. -/
def wholeNumber (s : String) : Option Nat :=
  if s ≠ "" ∧ s.toList.all Char.isDigit = true then some (Nat.ofDigitChars 10 s.toList 0)
  else none

/-- What is wrong with the value of a parameter. -/
def checkValue (parameter : GovParameter) (value : Nat) (newAddress : String) : Option String :=
  match parameter with
  | .feeBps | .moderationSlashBps =>
    if 10000 < value then some "Basis points must be between 0 and 10000." else none
  | .govQuorum =>
    if value < 1 ∨ 100 < value then some "Quorum must be between 1 and 100." else none
  | .tipCooldownWindow | .govTimeLock | .govVoteWindow =>
    if value < 1 ∨ 4294967295 < value then
      some "Value must be between 1 and 4294967295 ledgers."
    else none
  | .treasury =>
    if isStrkey ['G', 'C'] (Scan.trim newAddress) = false then
      some "Enter a valid Stellar account (G…) or contract (C…) address."
    else none

def validateProposalDraft (draft : ProposalDraft) : Option String :=
  let title := lengthOf (Scan.trim draft.title)
  let description := lengthOf (Scan.trim draft.description)
  if title < 1 ∨ 100 < title then some "Title must be between 1 and 100 characters."
  else if description < 1 ∨ 1000 < description then
    some "Description must be between 1 and 1000 characters."
  else
    match wholeNumber (Scan.trim draft.newValue) with
    | none => some "New value must be a whole number."
    | some value => checkValue draft.parameter value draft.newAddress

def optionAddressScVal (address : Option String) : Native :=
  match address with
  | none => .void
  | some a => if a = "" then .void else .address a

def metadataScVal (title description : String) (rationale : Option String) : Native :=
  .map [("description", .string description),
    ("rationale", match rationale with
      | none => .void
      | some r => if r = "" then .void else .string r),
    ("title", .string title)]

structure CreateProposalInput extends ProposalDraft where
  proposer : String

/-- `createProposal` up to `buildSignAndSubmit`. -/
def Env.proposalArgs (env : Env Account Tx Simulated Signed Val) (config : AppConfig)
    (input : CreateProposalInput) : Except Failure (List Val) := do
  match validateProposalDraft input.toProposalDraft with
  | some message => throw (.error message)
  | none => pure ()
  if config.isGovernanceConfigured = false then throw notConfigured
  let newAddress :=
    if input.parameter = .treasury then some (Scan.trim input.newAddress) else none
  let proposer ← env.toScVal (.address input.proposer)
  let parameter ← env.toScVal (.string (parameterText input.parameter))
  let value ← bigInt (Scan.trim input.newValue)
  let newValue ← env.toScVal (.u64 value)
  let address ← env.toScVal (optionAddressScVal newAddress)
  let metadata ← env.toScVal
    (metadataScVal (Scan.trim input.title) (Scan.trim input.description) none)
  pure [proposer, parameter, newValue, address, metadata]

def Env.createProposal (env : Env Account Tx Simulated Signed Val) (turns : Nat)
    (config : AppConfig) (input : CreateProposalInput) : Option (Run String) :=
  Run.after (env.proposalArgs config input) fun args =>
    (env.buildSignAndSubmit turns "gov_propose" args input.proposer config.governanceTxConfig
      defaultTimeout).map (Run.map TransactionResult.hash)

/-! ## What is refused -/

/-- Every message about a draft names the field that it is about. -/
theorem validateProposalDraft_message {draft : ProposalDraft} {message : String}
    (h : validateProposalDraft draft = some message) :
    (lengthOf (Scan.trim draft.title) < 1 ∨ 100 < lengthOf (Scan.trim draft.title)) ∧
        message = "Title must be between 1 and 100 characters." ∨
      (lengthOf (Scan.trim draft.description) < 1 ∨
          1000 < lengthOf (Scan.trim draft.description)) ∧
        message = "Description must be between 1 and 1000 characters." ∨
      wholeNumber (Scan.trim draft.newValue) = none ∧
        message = "New value must be a whole number." ∨
      ∃ value, wholeNumber (Scan.trim draft.newValue) = some value ∧
        checkValue draft.parameter value draft.newAddress = some message := by
  rw [validateProposalDraft] at h
  split at h
  · rename_i htitle
    exact .inl ⟨htitle, (Option.some.inj h).symm⟩
  split at h
  · rename_i hdescription
    exact .inr (.inl ⟨hdescription, (Option.some.inj h).symm⟩)
  split at h
  · rename_i hvalue
    exact .inr (.inr (.inl ⟨hvalue, (Option.some.inj h).symm⟩))
  · rename_i value hvalue
    exact .inr (.inr (.inr ⟨value, hvalue, h⟩))

/-- A vote that is not cast is not remembered, and one that is cast is remembered wherever the
storage takes it. -/
theorem votesAfter_eq_iff {stored : LocalVotes} {input : CastVoteInput} {run : Run String} :
    ((∃ e, run.value = .error e) → votesAfter (some stored) input run = some stored) ∧
      ((∃ hash, run.value = .ok hash) → stored.readable = true → stored.writable = true →
        input.voter ≠ "" → getLocalVote (votesAfter (some stored) input run) (some input.voter)
          input.proposalId = some input.choice) := by
  constructor
  · intro ⟨e, he⟩
    rw [votesAfter, he]
  · intro ⟨hash, hok⟩ hreadable hwritable hvoter
    rw [votesAfter, hok]
    simp [saveLocalVote, hwritable, getLocalVote, hvoter, readLocalVotes, hreadable,
      LocalVoteMap.set]

theorem Env.meets_castVote (env : Env Account Tx Simulated Signed Val) (turns : Nat)
    (config : AppConfig) (input : CastVoteInput) :
    Meets (env.castVote (turns + 2) config input) (env.server config.sorobanRpcUrl)
        defaultTimeout id ↔
      ∀ args, env.voteArgs config input = .ok args → ∀ xdr,
        env.prepare "gov_vote" args input.voter config.governanceTxConfig = .ok xdr →
          env.Settles xdr config.governanceTxConfig defaultTimeout := by
  rw [Env.castVote, meets_after]
  refine forall₂_congr fun args _ => ?_
  rw [meets_map]
  exact env.meets_buildSignAndSubmit turns "gov_vote" args input.voter _ _

theorem Env.meets_createProposal (env : Env Account Tx Simulated Signed Val) (turns : Nat)
    (config : AppConfig) (input : CreateProposalInput) :
    Meets (env.createProposal (turns + 2) config input) (env.server config.sorobanRpcUrl)
        defaultTimeout id ↔
      ∀ args, env.proposalArgs config input = .ok args → ∀ xdr,
        env.prepare "gov_propose" args input.proposer config.governanceTxConfig = .ok xdr →
          env.Settles xdr config.governanceTxConfig defaultTimeout := by
  rw [Env.createProposal, meets_after]
  refine forall₂_congr fun args _ => ?_
  rw [meets_map]
  exact env.meets_buildSignAndSubmit turns "gov_propose" args input.proposer _ _

/-- Each of the four calls comes to an end, and what it reports is right just if nothing was
sent or the server answers in one of the ways that the loop was written for. -/
theorem reports_success_iff (env : Env Account Tx Simulated Signed Val) (turns : Nat)
    (txConfig : TransactionConfig) (timeout : Int) (config : AppConfig) :
    (∀ xdr, Meets (env.signAndSubmitTransaction (turns + 2) xdr txConfig timeout)
        (env.server txConfig.rpcUrl) timeout TransactionResult.hash ↔
      env.Settles xdr txConfig timeout) ∧
    (∀ method args sourceAddress,
      Meets (env.buildSignAndSubmit (turns + 2) method args sourceAddress txConfig timeout)
        (env.server txConfig.rpcUrl) timeout TransactionResult.hash ↔
      ∀ xdr, env.prepare method args sourceAddress txConfig = .ok xdr →
        env.Settles xdr txConfig timeout) ∧
    (∀ input, Meets (env.castVote (turns + 2) config input) (env.server config.sorobanRpcUrl)
        defaultTimeout id ↔
      ∀ args, env.voteArgs config input = .ok args → ∀ xdr,
        env.prepare "gov_vote" args input.voter config.governanceTxConfig = .ok xdr →
          env.Settles xdr config.governanceTxConfig defaultTimeout) ∧
    (∀ input, Meets (env.createProposal (turns + 2) config input)
        (env.server config.sorobanRpcUrl) defaultTimeout id ↔
      ∀ args, env.proposalArgs config input = .ok args → ∀ xdr,
        env.prepare "gov_propose" args input.proposer config.governanceTxConfig = .ok xdr →
          env.Settles xdr config.governanceTxConfig defaultTimeout) :=
  ⟨fun xdr => env.meets_signAndSubmitTransaction turns xdr txConfig timeout,
    fun method args sourceAddress =>
      env.meets_buildSignAndSubmit turns method args sourceAddress txConfig timeout,
    env.meets_castVote turns config, env.meets_createProposal turns config⟩

/-- A wallet and a server with one answer for each method, both immediately. -/
def answering (sent : SendStatus) (answer : GetStatus) : Env Unit Unit Unit String Unit where
  server _ :=
    { getAccount := fun _ => .ok ()
      simulateTransaction := fun _ => .ok (.ok ())
      sendTransaction := fun signed => .ok (signed, sent)
      startTime := 0
      now := fun n => 1000 * n
      getTransaction := fun _ _ => .ok answer }
  toScVal _ := .ok ()
  build _ _ _ _ _ := .ok ()
  assembleTransaction _ _ := .ok "tx"
  signTransaction xdr _ := .ok xdr
  fromXDR xdr _ := .ok xdr

/-- A transaction that has failed is returned like one that has succeeded. -/
theorem failed_transaction_returned :
    (answering .pending .failed).signAndSubmitTransaction 2 "tx" ⟨"c", "u", "n"⟩ 30000 =
        some ⟨some ("tx", .pending), [⟨"tx", .ok .failed⟩], .ok ⟨"tx", "FAILED"⟩⟩ ∧
      ¬Meets ((answering .pending .failed).signAndSubmitTransaction 2 "tx" ⟨"c", "u", "n"⟩ 30000)
        ((answering .pending .failed).server "u") 30000 TransactionResult.hash := by
  refine ⟨rfl, ?_⟩
  rw [Env.meets_signAndSubmitTransaction _ 0]
  intro h
  rcases h ("tx", .pending) rfl with herror | ⟨-, hlate | hfirst⟩
  · cases herror
  · exact absurd hlate (by decide)
  · cases hfirst .failed rfl

end Web
end Linkora
