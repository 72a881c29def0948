import Linkora.Lib.Checked
import Linkora.Contract.Types

/-!
# The contract's storage and its host

Every family of `StorageKey` is one store, and every instance-storage symbol is
one optional cell.  They are grouped by the module that owns them rather than by
storage class, so that an entry point's footprint is a list of groups.  The
lifetime of persistent entries is not part of the state: an entry that has been
written stays until it is removed.  Temporary entries do carry their lifetime.
-/

namespace Linkora
namespace Contract

/-- Instance cells `INIT`, `ADMIN`, `ROLES`, `PAUSED`, `P_MASK` and `CT_STATE`. -/
structure Access where
  initialized : Option Bool
  admin : Option Address
  roles : Option (Store Address Nat)
  paused : Option Bool
  pauseMask : Option Nat
  contractState : Option ContractState

/-- Instance cells `TREASURY`, `FEE_BPS`, `TIP_CD_W`, `MOD_SL_B` and `RENT_BPS`. -/
structure Params where
  treasury : Option Address
  feeBps : Option Nat
  tipCooldownWindow : Option Nat
  moderationSlashBps : Option Nat
  rentRateBps : Option Nat

/-- Profiles and the registry, with the instance cells `PROF_CT` and `R_USERS`. -/
structure Profiles where
  profile : Store Address Profile
  usernameIndex : Store Bytes Address
  deletedProfile : Store Address Bool
  dmPublicKey : Store Address Bytes32
  profileCreatedCt : Option Nat
  registeredUsers : Option (Store Address Bool)

/-- The follow graph: `Edge`, the two index families, and the legacy lists that
`migrate_follow_graph` consumes. -/
structure Graph where
  edge : Store (Address × Address) Bool
  following : Index Address Address
  followers : Index Address Address
  legacyFollowing : Store Address (List Address)
  legacyFollowers : Store Address (List Address)
  graphMigrated : Store Address Bool

/-- Posts, with the instance cell `POST_CT`. -/
structure Posts where
  postCt : Option Nat
  post : Store Nat Post
  authorPosts : Store Address (List Nat)
  deletedPost : Store Nat Bool
  contentHash : Store Nat Bytes32
  committedPost : Store Nat CommittedPost

/-- `Like`, `PostLikersCount` and `PostLikersIdx`. -/
structure Likes where
  like : Store (Nat × Address) Bool
  likersCount : Store Nat Nat
  likersIdx : Store (Nat × Nat) Address

/-- A temporary entry and the last ledger at which it can be read. -/
structure TempEntry where
  value : Nat
  liveUntil : Nat
  deriving DecidableEq

/-- `TipCooldown`, `PostTipCooldownsCount` and `PostTipCooldownsIdx`. -/
structure Tips where
  tipCooldown : Store (Nat × Address × Address) TempEntry
  cooldownsCount : Store Nat Nat
  cooldownsIdx : Store (Nat × Nat) (Address × Address)

structure Gov where
  proposal : Store Nat GovProposal
  vote : Store (Nat × Address) Bool
  config : Option GovConfig
  proposalCount : Option Nat
  delegation : Store Address Address

structure Credentials where
  root : Store Address Bytes32
  nullifier : Store (Address × Nat × Bytes32) Bool
  epoch : Store Address Nat
  authority : Option Bytes32

structure Oracle where
  key : Store Symbol Bytes32
  attestationNullifier : Store Bytes32 Bool

/-- `Report`, `ReportCount`, `PostReportersIdx` and `ReporterReputation`. -/
structure Reports where
  report : Store (Nat × Address) Report
  reportCount : Store Nat Nat
  reportersIdx : Store (Nat × Nat) Address
  reputation : Store Address Int

structure Appeals where
  removedPost : Store Nat Post
  moderationRecord : Store Nat ModerationRecord
  appeal : Store Nat Appeal

structure State where
  access : Access
  params : Params
  profiles : Profiles
  graph : Graph
  blocks : Store Address (Store Address Unit)
  posts : Posts
  likes : Likes
  tips : Tips
  pools : Store Symbol Pool
  gov : Gov
  credentials : Credentials
  oracle : Oracle
  reports : Reports
  appeals : Appeals
  events : List Event

/-- The storage of a freshly deployed contract. -/
def State.empty : State where
  access := ⟨none, none, none, none, none, none⟩
  params := ⟨none, none, none, none, none⟩
  profiles := ⟨∅, ∅, ∅, ∅, none, none⟩
  graph := ⟨∅, Index.empty, Index.empty, ∅, ∅, ∅⟩
  blocks := ∅
  posts := ⟨none, ∅, ∅, ∅, ∅, ∅⟩
  likes := ⟨∅, ∅, ∅⟩
  tips := ⟨∅, ∅, ∅⟩
  pools := ∅
  gov := ⟨∅, ∅, none, none, ∅⟩
  credentials := ⟨∅, ∅, ∅, none⟩
  oracle := ⟨∅, ∅⟩
  reports := ⟨∅, ∅, ∅, ∅⟩
  appeals := ⟨∅, ∅, ∅⟩
  events := []

def State.publish (s : State) (e : Event) : State := { s with events := s.events ++ [e] }

/-- What one invocation sees of the ledger, and who authorised it.  `require_auth`
of an address succeeds exactly when the address authorised the invocation. -/
structure Env where
  sequence : Nat
  timestamp : Nat
  auth : Address → Bool

/-- The host functions and the token contracts the contract calls.  The state of
all token contracts together is `σ`.  Any of the calls may fail, and a call may
change the state, as nothing forces a token address to name an honest token. -/
structure Host (σ : Type) where
  /-- `env.current_contract_address()`. -/
  self : Address
  sha256 : Bytes → Bytes32
  ed25519Verify : Bytes32 → Bytes32 → Bytes64 → Bool
  wasmUploaded : Bytes32 → Bool
  transfer : σ → (token sender recipient : Address) → Int → Option σ
  balance : σ → (token account : Address) → Option (Int × σ)
  allowance : σ → (token owner spender : Address) → Option (Int × σ)
  burnFrom : σ → (token spender owner : Address) → Int → Option σ
  decimals : σ → (token : Address) → Option (Nat × σ)
  /-- What may become of the token contracts between two calls of this one. -/
  others : σ → σ → Prop

/-- The contract's storage next to the state of the token contracts. -/
structure World (σ : Type) where
  store : State
  tokens : σ

/-! ## Constants -/

def LEDGER_BUMP : Nat := 535000
def LEDGER_THRESHOLD : Nat := 535000 - 100
def TIP_COOLDOWN_LEDGERS : Nat := 17280
def MAX_PAGE_LIMIT : Nat := 50
def MAX_PAGINATION_LIMIT : Nat := 50
def MAX_BATCH_POST_SIZE : Nat := 10
def MAX_RECENT_SCAN : Nat := 500
def MAX_CREDENTIAL_PROOF_DEPTH : Nat := 20
def MAX_SUGGEST_SCAN : Nat := 200
def APPEAL_WINDOW_LEDGERS : Nat := 34560

def U32_MAX : Nat := 2 ^ 32 - 1
def U64_MAX : Nat := 2 ^ 64 - 1
def I128_MIN : Int := -2 ^ 127
def I128_MAX : Int := 2 ^ 127 - 1

/-! ## Checks and checked arithmetic -/

/-- `require_with_error!` and `assert!`. -/
def requireWithError (cond : Prop) [Decidable cond] (msg : String) : Except Panic Unit :=
  if cond then .ok () else .error (.message msg)

def requireAuth (env : Env) (a : Address) : Except Panic Unit :=
  if env.auth a then .ok () else .error (.unauthorized a)

/-- `Option::expect` and `unwrap_or_else(|| panic!(..))`. -/
def expect {α : Type} (o : Option α) (msg : String) : Except Panic α :=
  match o with
  | some a => .ok a
  | none => .error (.message msg)

def tokenCall {α : Type} (o : Option α) : Except Panic α :=
  match o with
  | some a => .ok a
  | none => .error .tokenCall

def u32 (n : Nat) : Except Panic Nat := if n ≤ U32_MAX then .ok n else .error .overflow

def u64 (n : Nat) : Except Panic Nat := if n ≤ U64_MAX then .ok n else .error .overflow

def i128 (n : Int) : Except Panic Int :=
  if I128_MIN ≤ n ∧ n ≤ I128_MAX then .ok n else .error .overflow

@[simp] theorem requireWithError_eq_ok {cond : Prop} [Decidable cond] {msg : String} {u : Unit} :
    requireWithError cond msg = .ok u ↔ cond := by
  unfold requireWithError
  split <;> simp_all

@[simp] theorem requireAuth_eq_ok {env : Env} {a : Address} {u : Unit} :
    requireAuth env a = .ok u ↔ env.auth a = true := by
  unfold requireAuth
  split <;> simp_all

@[simp] theorem expect_eq_ok {α : Type} {o : Option α} {msg : String} {a : α} :
    expect o msg = .ok a ↔ o = some a := by
  cases o <;> simp [expect]

@[simp] theorem tokenCall_eq_ok {α : Type} {o : Option α} {a : α} :
    tokenCall o = .ok a ↔ o = some a := by
  cases o <;> simp [tokenCall]

@[simp] theorem u32_eq_ok {n m : Nat} : u32 n = .ok m ↔ n ≤ U32_MAX ∧ n = m := by
  unfold u32
  split <;> simp_all

@[simp] theorem u64_eq_ok {n m : Nat} : u64 n = .ok m ↔ n ≤ U64_MAX ∧ n = m := by
  unfold u64
  split <;> simp_all

@[simp] theorem i128_eq_ok {n m : Int} :
    i128 n = .ok m ↔ (I128_MIN ≤ n ∧ n ≤ I128_MAX) ∧ n = m := by
  unfold i128
  by_cases h : I128_MIN ≤ n ∧ n ≤ I128_MAX
  · rw [if_pos h, Except.ok.injEq, and_iff_right h]
  · rw [if_neg h]
    exact ⟨nofun, fun e => absurd e.1 h⟩

/-! A check aborts with its own error only. -/

section Avoids

variable {bad : Panic → Prop}

theorem requireWithError_avoids {cond : Prop} [Decidable cond] {msg : String}
    (h : ¬bad (.message msg)) : Checked.Avoids bad (requireWithError cond msg) := by
  unfold requireWithError
  split
  · exact .ok ()
  · exact .error h

theorem requireAuth_avoids {env : Env} {a : Address} (h : ¬bad (.unauthorized a)) :
    Checked.Avoids bad (requireAuth env a) := by
  unfold requireAuth
  split
  · exact .ok ()
  · exact .error h

theorem expect_avoids {α : Type} {o : Option α} {msg : String} (h : ¬bad (.message msg)) :
    Checked.Avoids bad (expect o msg) := by
  cases o with
  | none => exact .error h
  | some a => exact .ok a

theorem u32_avoids {n : Nat} (h : ¬bad .overflow) : Checked.Avoids bad (u32 n) := by
  unfold u32
  split
  · exact .ok n
  · exact .error h

end Avoids

end Contract
end Linkora
