import Linkora.Contract.Validation

/-!
# Initialisation, roles, pausing and upgrades
-/

namespace Linkora
namespace Contract

def initializeContract (env : Env) (s : State) (admin treasury : Address) (feeBps : Nat) :
    Except Panic State := do
  requireWithError (s.access.initialized.getD false = false) "already initialized"
  requireAuth env admin
  validateNonDefaultAddress "admin" admin
  validateNonDefaultAddress "treasury" treasury
  validateProtocolFee feeBps
  let access := { s.access with
    initialized := some true
    admin := some admin
    roles := some ((∅ : Store Address Nat).set admin (roleMask .admin ||| roleMask .upgrader))
    contractState := some { version := 1, implementationWasmHash := none } }
  let params := { s.params with
    treasury := some treasury
    feeBps := some feeBps
    tipCooldownWindow := some TIP_COOLDOWN_LEDGERS
    moderationSlashBps := some 0 }
  return ({ s with access, params }.publish (.roleGranted .admin admin admin)).publish
    (.roleGranted .upgrader admin admin)

def setRoles (s : State) (account : Address) (mask : Nat) : State :=
  { s with access := { s.access with roles := some ((getRoles s).set account mask) } }

def grantRole (env : Env) (s : State) (admin account : Address) (role : Role) :
    Except Panic State := do
  requireAuth env admin
  validateNonDefaultAddress "admin" admin
  validateNonDefaultAddress "account" account
  requireRole s admin .admin
  let current := ((getRoles s).get account).getD 0
  return (setRoles s account (current ||| roleMask role)).publish (.roleGranted role account admin)

def revokeRole (env : Env) (s : State) (admin account : Address) (role : Role) :
    Except Panic State := do
  requireAuth env admin
  validateNonDefaultAddress "admin" admin
  validateNonDefaultAddress "account" account
  requireRole s admin .admin
  let current := ((getRoles s).get account).getD 0
  return (setRoles s account (current &&& (U32_MAX - roleMask role))).publish
    (.roleRevoked role account admin)

def pause {σ : Type} (host : Host σ) (s : State) : Except Panic State := do
  requireRole s host.self .admin
  requireWithError (isPaused s = false) "already paused"
  return { s with access := { s.access with paused := some true } }.publish (.paused host.self)

def unpause {σ : Type} (host : Host σ) (s : State) : Except Panic State := do
  requireRole s host.self .admin
  requireWithError (isPaused s = true) "not paused"
  return { s with access := { s.access with paused := some false } }.publish (.unpaused host.self)

def pauseModule (env : Env) (s : State) (admin : Address) (m : PauseModule) :
    Except Panic State := do
  requireAuth env admin
  validateNonDefaultAddress "admin" admin
  requireWithError
    (hasRoleInternal s admin .pauser = true ∨ hasRoleInternal s admin .admin = true)
    "Pauser role required"
  requireWithError (isModulePaused s m = false) "module already paused"
  let access := { s.access with pauseMask := some (getPauseMask s ||| pauseBit m) }
  return { s with access }.publish (.modulePaused m admin)

def unpauseModule (env : Env) (s : State) (admin : Address) (m : PauseModule) :
    Except Panic State := do
  requireAuth env admin
  validateNonDefaultAddress "admin" admin
  requireWithError
    (hasRoleInternal s admin .pauser = true ∨ hasRoleInternal s admin .admin = true)
    "Pauser role required"
  requireWithError (isModulePaused s m = true) "module not paused"
  let access := { s.access with pauseMask := some (getPauseMask s &&& (U32_MAX - pauseBit m)) }
  return { s with access }.publish (.moduleUnpaused m admin)

/-- The runs considered here stay with this implementation: an upgrade records
the hash, and what the new code does is not modelled. -/
def upgrade {σ : Type} (host : Host σ) (env : Env) (s : State) (upgrader : Address)
    (newWasmHash : Bytes32) : Except Panic State := do
  let state ← expect s.access.contractState "called `Option::unwrap()` on a `None` value"
  requireAuth env upgrader
  validateNonDefaultAddress "upgrader" upgrader
  requireRole s upgrader .upgrader
  requireWithError (newWasmHash ≠ 0) "wasm hash must not be empty"
  requireWithError (state.version + 1 ≤ U32_MAX) "contract version overflow"
  let access := { s.access with
    contractState := some
      { version := state.version + 1, implementationWasmHash := some newWasmHash } }
  let s := { s with access }
  requireNotPaused s .governance
  if host.wasmUploaded newWasmHash then return s.publish (.contractUpgraded newWasmHash)
  else .error .wasmMissing

/-! ## What a successful call says -/

theorem initializeContract_ok {env : Env} {s s' : State} {admin treasury : Address}
    {feeBps : Nat} (h : initializeContract env s admin treasury feeBps = .ok s') :
    isZeroAddress treasury = false ∧ feeBps ≤ MAX_FEE_BPS ∧ ∃ access events,
      s' = { s with
        access
        params := { s.params with
          treasury := some treasury
          feeBps := some feeBps
          tipCooldownWindow := some TIP_COOLDOWN_LEDGERS
          moderationSlashBps := some 0 }
        events } := by
  simp only [initializeContract, Checked.bind_eq_ok, Checked.pure_eq_ok,
    validateNonDefaultAddress_eq_ok, validateProtocolFee_eq_ok, exists_const] at h
  obtain ⟨-, -, -, -, -, htreasury, hfee, rfl⟩ := h
  exact ⟨htreasury, hfee, _, _, rfl⟩

theorem grantRole_ok {env : Env} {s s' : State} {admin account : Address} {role : Role}
    (h : grantRole env s admin account role = .ok s') :
    ∃ roles events, s' = { s with access := { s.access with roles }, events } := by
  simp only [grantRole, Checked.bind_eq_ok, Checked.pure_eq_ok] at h
  obtain ⟨-, -, -, -, -, -, -, -, rfl⟩ := h
  exact ⟨_, _, rfl⟩

theorem revokeRole_ok {env : Env} {s s' : State} {admin account : Address} {role : Role}
    (h : revokeRole env s admin account role = .ok s') :
    ∃ roles events, s' = { s with access := { s.access with roles }, events } := by
  simp only [revokeRole, Checked.bind_eq_ok, Checked.pure_eq_ok] at h
  obtain ⟨-, -, -, -, -, -, -, -, rfl⟩ := h
  exact ⟨_, _, rfl⟩

theorem pause_eq_ok {σ : Type} {host : Host σ} {s s' : State} :
    pause host s = .ok s' ↔ hasRoleInternal s host.self .admin = true ∧ isPaused s = false ∧
      { s with access := { s.access with paused := some true } }.publish (.paused host.self)
        = s' := by
  simp only [pause, Checked.bind_eq_ok, Checked.pure_eq_ok, requireRole_eq_ok,
    requireWithError_eq_ok, exists_const]

theorem unpause_eq_ok {σ : Type} {host : Host σ} {s s' : State} :
    unpause host s = .ok s' ↔ hasRoleInternal s host.self .admin = true ∧ isPaused s = true ∧
      { s with access := { s.access with paused := some false } }.publish (.unpaused host.self)
        = s' := by
  simp only [unpause, Checked.bind_eq_ok, Checked.pure_eq_ok, requireRole_eq_ok,
    requireWithError_eq_ok, exists_const]

theorem pauseModule_ok {env : Env} {s s' : State} {admin : Address} {m : PauseModule}
    (h : pauseModule env s admin m = .ok s') :
    ∃ pauseMask events, s' = { s with access := { s.access with pauseMask }, events } := by
  simp only [pauseModule, Checked.bind_eq_ok, Checked.pure_eq_ok] at h
  obtain ⟨-, -, -, -, -, -, -, -, rfl⟩ := h
  exact ⟨_, _, rfl⟩

theorem unpauseModule_ok {env : Env} {s s' : State} {admin : Address} {m : PauseModule}
    (h : unpauseModule env s admin m = .ok s') :
    ∃ pauseMask events, s' = { s with access := { s.access with pauseMask }, events } := by
  simp only [unpauseModule, Checked.bind_eq_ok, Checked.pure_eq_ok] at h
  obtain ⟨-, -, -, -, -, -, -, -, rfl⟩ := h
  exact ⟨_, _, rfl⟩

theorem upgrade_ok {σ : Type} {host : Host σ} {env : Env} {s s' : State} {upgrader : Address}
    {newWasmHash : Bytes32} (h : upgrade host env s upgrader newWasmHash = .ok s') :
    ∃ contractState events, s' = { s with access := { s.access with contractState }, events } := by
  simp only [upgrade, Checked.bind_eq_ok] at h
  obtain ⟨_, _, _, _, _, _, _, _, _, _, _, _, _, _, h⟩ := h
  split at h
  · rw [Checked.pure_eq_ok] at h
    subst h
    exact ⟨_, _, rfl⟩
  · cases h

end Contract
end Linkora
