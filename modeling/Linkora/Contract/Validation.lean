import Linkora.Contract.State

/-!
# Argument checks

`validation.rs`, and the role and pause checks of `lib.rs`.  The duplicate check
`validate_unique_signers` is modelled with the rest of the file; no entry point
calls it.
-/

namespace Linkora
namespace Contract

def MAX_NAME_LEN : Nat := 32
def MIN_NAME_LEN : Nat := 3
def MAX_CONTENT_LEN : Nat := 280
def MAX_PROTOCOL_AMOUNT : Int := 10 ^ 36
def MAX_FEE_BPS : Nat := 10000
def MAX_QUORUM : Nat := 100

/-- The account whose key and the contract whose id is zero. -/
def ZERO_ACCOUNT_ADDRESS : Address := .account 0
def ZERO_CONTRACT_ADDRESS : Address := .contract 0

def asciiBytes (s : String) : Bytes := s.toList.map fun c => c.toNat.toUInt8

def RESERVED_WORDS : List Bytes :=
  (["admin", "system", "moderator", "bot", "root", "support", "help", "feedback", "contact",
    "info", "status", "health", "api", "app", "web", "mobile", "linkora"]).map asciiBytes

def isZeroAddress (a : Address) : Bool :=
  a == ZERO_ACCOUNT_ADDRESS || a == ZERO_CONTRACT_ADDRESS

def validateNonDefaultAddress (label : String) (a : Address) : Except Panic Unit :=
  requireWithError (isZeroAddress a = false) s!"{label} must not be the zero address"

def validateAddressList (label : String) (addresses : List Address) : Except Panic Unit := do
  requireWithError (addresses ≠ []) s!"{label} cannot be empty"
  forM addresses.zipIdx fun (address, idx) =>
    requireWithError (isZeroAddress address = false) s!"{label}[{idx}] must not be the zero address"

def validateUniqueSigners (label : String) (addresses : List Address) : Except Panic Unit := do
  requireWithError (addresses ≠ []) s!"{label} cannot be empty"
  requireWithError addresses.Nodup s!"{label} must not contain duplicate addresses"

def validateStringMaxLen (label : String) (value : Bytes) (max : Nat) : Except Panic Unit :=
  requireWithError (value.length ≤ max) s!"{label} must be at most {max} characters"

def isAsciiLowercase (b : UInt8) : Bool := 97 ≤ b && b ≤ 122
def isAsciiUppercase (b : UInt8) : Bool := 65 ≤ b && b ≤ 90
def isAsciiDigit (b : UInt8) : Bool := 48 ≤ b && b ≤ 57
def isAsciiAlphabetic (b : UInt8) : Bool := isAsciiLowercase b || isAsciiUppercase b
def toAsciiLowercase (b : UInt8) : UInt8 := if isAsciiUppercase b then b + 32 else b

def validateUsername (username : Bytes) : Except Panic Unit := do
  requireWithError (MIN_NAME_LEN ≤ username.length)
    s!"username must be at least {MIN_NAME_LEN} characters"
  validateStringMaxLen "username" username MAX_NAME_LEN
  requireWithError (username.head?.all isAsciiAlphabetic) "username must start with a letter"
  requireWithError
    (username.all fun b =>
      isAsciiLowercase b || isAsciiUppercase b || isAsciiDigit b || b == 95)
    "username can only contain alphanumeric characters and underscores"
  forM RESERVED_WORDS fun reserved =>
    requireWithError (username.map toAsciiLowercase ≠ reserved)
      ("username '" ++ String.ofList (reserved.map fun b => Char.ofNat b.toNat) ++
        "' is reserved and cannot be used")

def validateContent (content : Bytes) : Except Panic Unit := do
  requireWithError (content ≠ []) "content cannot be empty"
  validateStringMaxLen "content" content MAX_CONTENT_LEN

def validateAmount (label : String) (amount : Int) : Except Panic Unit := do
  requireWithError (0 < amount) s!"{label} must be positive"
  requireWithError (amount ≤ MAX_PROTOCOL_AMOUNT)
    s!"{label} must not exceed {MAX_PROTOCOL_AMOUNT}"

def validateU32Range (label : String) (value min max : Nat) : Except Panic Unit :=
  requireWithError (min ≤ value ∧ value ≤ max) s!"{label} must be between {min} and {max}"

def validateProtocolFee (feeBps : Nat) : Except Panic Unit :=
  validateU32Range "fee_bps" feeBps 0 MAX_FEE_BPS

def validateSignature (label : String) (signature : Bytes64) : Except Panic Unit :=
  requireWithError (signature ≠ 0) s!"{label} must not be an all-zero or malformed signature"

def validateReportVerdict (verdict : ReportStatus) : Except Panic Unit :=
  requireWithError (verdict ≠ .pending) "verdict must be upheld or dismissed"

/-! ## Roles and pausing -/

def roleMask : Role → Nat
  | .admin => 1
  | .moderator => 2
  | .pauser => 4
  | .upgrader => 8

def roleName : Role → String
  | .admin => "Admin"
  | .moderator => "Moderator"
  | .pauser => "Pauser"
  | .upgrader => "Upgrader"

def getRoles (s : State) : Store Address Nat := s.access.roles.getD ∅

def hasRoleInternal (s : State) (account : Address) (role : Role) : Bool :=
  ((getRoles s).get account).getD 0 &&& roleMask role != 0

def requireRole (s : State) (account : Address) (role : Role) : Except Panic Unit :=
  requireWithError (hasRoleInternal s account role = true) (roleName role ++ " role required")

def isPaused (s : State) : Bool := s.access.paused.getD false

def getPauseMask (s : State) : Nat := s.access.pauseMask.getD 0

def isModulePaused (s : State) (m : PauseModule) : Bool := getPauseMask s &&& pauseBit m != 0

def requireNotPaused (s : State) (m : PauseModule) : Except Panic Unit := do
  requireWithError (isPaused s = false) "contract is paused"
  requireWithError (isModulePaused s m = false) "module is paused"

/-- A module is running when neither its own flag nor the global one is set. -/
def Running (s : State) (m : PauseModule) : Prop := isPaused s = false ∧ isModulePaused s m = false

/-! ## What a passed check says -/

@[simp] theorem validateNonDefaultAddress_eq_ok {label : String} {a : Address} {u : Unit} :
    validateNonDefaultAddress label a = .ok u ↔ isZeroAddress a = false :=
  requireWithError_eq_ok

@[simp] theorem validateAddressList_eq_ok {label : String} {l : List Address} {u : Unit} :
    validateAddressList label l = .ok u ↔ l ≠ [] ∧ ∀ a ∈ l, isZeroAddress a = false := by
  simp only [validateAddressList, Checked.bind_eq_ok, requireWithError_eq_ok, exists_const,
    Checked.forM_eq_ok]
  refine and_congr_right (fun _ => ⟨fun h a ha => ?_, fun h p hp => ?_⟩)
  · obtain ⟨i, hi, rfl⟩ := List.mem_iff_getElem.mp ha
    exact h (l[i], i) (by simpa using List.mk_mem_zipIdx_iff_getElem?.mpr (by simp [hi]))
  · exact h p.1 (List.fst_mem_of_mem_zipIdx hp)

@[simp] theorem validateAmount_eq_ok {label : String} {amount : Int} {u : Unit} :
    validateAmount label amount = .ok u ↔ 0 < amount ∧ amount ≤ MAX_PROTOCOL_AMOUNT := by
  simp [validateAmount]

@[simp] theorem validateU32Range_eq_ok {label : String} {value min max : Nat} {u : Unit} :
    validateU32Range label value min max = .ok u ↔ min ≤ value ∧ value ≤ max :=
  requireWithError_eq_ok

@[simp] theorem validateProtocolFee_eq_ok {feeBps : Nat} {u : Unit} :
    validateProtocolFee feeBps = .ok u ↔ feeBps ≤ MAX_FEE_BPS := by
  simp [validateProtocolFee]

@[simp] theorem validateReportVerdict_eq_ok {verdict : ReportStatus} {u : Unit} :
    validateReportVerdict verdict = .ok u ↔ verdict ≠ .pending :=
  requireWithError_eq_ok

@[simp] theorem requireRole_eq_ok {s : State} {a : Address} {role : Role} {u : Unit} :
    requireRole s a role = .ok u ↔ hasRoleInternal s a role = true :=
  requireWithError_eq_ok

@[simp] theorem requireNotPaused_eq_ok {s : State} {m : PauseModule} {u : Unit} :
    requireNotPaused s m = .ok u ↔ Running s m := by
  simp [requireNotPaused, Running]

theorem requireNotPaused_avoids {bad : Panic → Prop} {s : State} {m : PauseModule}
    (h : ¬bad (.message "contract is paused")) (h' : ¬bad (.message "module is paused")) :
    Checked.Avoids bad (requireNotPaused s m) := by
  unfold requireNotPaused
  exact .bind (requireWithError_avoids h) fun _ _ => requireWithError_avoids h'

end Contract
end Linkora
