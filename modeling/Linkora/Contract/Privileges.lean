import Linkora.Contract.Pausing

/-!
# Who may change what

Eleven cells are guarded by roles.  Thirteen entry points set one of them on behalf
of an officer, whose authorisation and role they ask for; a vote may set four of the
cells as well; and `pause` and `unpause` ask for a role of the contract's own address
and for nobody's authorisation.
-/

namespace Linkora
namespace Contract

/-- The cells that only the holder of a role may change. -/
inductive Privilege where
  | roles
  | paused
  | pauseMask
  | rentRate
  | oracleKey
  | credentialAuthority
  | contractState
  | feeBps
  | treasury
  | tipCooldownWindow
  | govConfig
  deriving DecidableEq

namespace Privilege

def Same (s s' : State) : Privilege → Prop
  | .roles => s'.access.roles = s.access.roles
  | .paused => s'.access.paused = s.access.paused
  | .pauseMask => s'.access.pauseMask = s.access.pauseMask
  | .rentRate => s'.params.rentRateBps = s.params.rentRateBps
  | .oracleKey => s'.oracle.key = s.oracle.key
  | .credentialAuthority => s'.credentials.authority = s.credentials.authority
  | .contractState => s'.access.contractState = s.access.contractState
  | .feeBps => s'.params.feeBps = s.params.feeBps
  | .treasury => s'.params.treasury = s.params.treasury
  | .tipCooldownWindow => s'.params.tipCooldownWindow = s.params.tipCooldownWindow
  | .govConfig => s'.gov.config = s.gov.config

/-- The roles each of which is enough to change the cell. -/
def roleChoices : Privilege → List Role
  | .pauseMask => [.pauser, .admin]
  | .contractState => [.upgrader]
  | _ => [.admin]

/-- The cells that an executed proposal may set. -/
def byVote : Privilege → Bool
  | .feeBps | .treasury | .tipCooldownWindow | .govConfig => true
  | _ => false

def part : Privilege → Part
  | .roles | .paused | .pauseMask | .contractState => .access
  | .rentRate | .feeBps | .treasury | .tipCooldownWindow => .params
  | .oracleKey => .oracle
  | .credentialAuthority => .credentials
  | .govConfig => .gov

theorem same_of_sameOn {s s' : State} {p : Privilege} (h : s.SameOn s' p.part) :
    p.Same s s' := by
  cases p with
  | roles => exact congrArg Access.roles h
  | paused => exact congrArg Access.paused h
  | pauseMask => exact congrArg Access.pauseMask h
  | rentRate => exact congrArg Params.rentRateBps h
  | oracleKey => exact congrArg Oracle.key h
  | credentialAuthority => exact congrArg Credentials.authority h
  | contractState => exact congrArg Access.contractState h
  | feeBps => exact congrArg Params.feeBps h
  | treasury => exact congrArg Params.treasury h
  | tipCooldownWindow => exact congrArg Params.tipCooldownWindow h
  | govConfig => exact congrArg Gov.config h

end Privilege

def MayChange (s : State) (a : Address) (p : Privilege) : Prop :=
  ∃ role ∈ p.roleChoices, hasRoleInternal s a role = true

/-- The cell a call sets on behalf of an officer, and the officer. -/
def Call.officer : Call → Option (Privilege × Address)
  | .grantRole admin .. | .revokeRole admin .. => some (.roles, admin)
  | .setCredentialAuthority admin _ => some (.credentialAuthority, admin)
  | .setFee admin _ => some (.feeBps, admin)
  | .setTreasury admin _ => some (.treasury, admin)
  | .setTipCooldownWindow admin _ => some (.tipCooldownWindow, admin)
  | .govInitConfig admin .. => some (.govConfig, admin)
  | .registerOracle admin .. => some (.oracleKey, admin)
  | .upgrade upgrader _ => some (.contractState, upgrader)
  | .setRentRateBps admin _ => some (.rentRate, admin)
  | .pauseModule admin _ | .unpauseModule admin _ => some (.pauseMask, admin)
  | _ => none

/-- The call sets the cell without an officer: a vote, or one of the two switches of
the global pause. -/
def Call.unofficial (p : Privilege) : Call → Bool
  | .govExecute _ => p.byVote
  | .pause | .unpause => p == .paused
  | _ => false

theorem requireAuth_ensures (env : Env) (a : Address) :
    Checked.Ensures (env.auth a = true) (requireAuth env a) :=
  fun _ h => requireAuth_eq_ok.mp h

theorem requireRole_ensures (s : State) (a : Address) {role : Role} {p : Privilege}
    (hp : role ∈ p.roleChoices) : Checked.Ensures (MayChange s a p) (requireRole s a role) :=
  fun _ h => ⟨role, hp, requireRole_eq_ok.mp h⟩

theorem requirePauser_ensures (s : State) (a : Address) (msg : String) :
    Checked.Ensures (MayChange s a .pauseMask)
      (requireWithError
        (hasRoleInternal s a .pauser = true ∨ hasRoleInternal s a .admin = true) msg) := by
  intro u hu
  rcases requireWithError_eq_ok.mp hu with h | h
  · exact ⟨.pauser, by decide, h⟩
  · exact ⟨.admin, by decide, h⟩

section

variable {σ : Type} {host : Host σ} {env : Env} {w w' : World σ} {c : Call} {p : Privilege}
  {a : Address}

theorem exec_auth (he : exec host env w c = .ok w') (hc : c.officer = some (p, a)) :
    env.auth a = true := by
  have hasks : Checked.Ensures (env.auth a = true) (exec host env w c) := by
    cases c with
    | grantRole | revokeRole | setFee | setTreasury | setTipCooldownWindow | govInitConfig
    | registerOracle | setRentRateBps | pauseModule | unpauseModule =>
      obtain ⟨-, rfl⟩ := Prod.mk.inj (Option.some.inj hc)
      apply World.onStore_ensures
      exact .first (requireAuth_ensures _ _)
    | setCredentialAuthority | upgrade =>
      obtain ⟨-, rfl⟩ := Prod.mk.inj (Option.some.inj hc)
      apply World.onStore_ensures
      exact .later fun _ => .first (requireAuth_ensures _ _)
    | _ => cases hc
  exact hasks w' he

theorem exec_mayChange (he : exec host env w c = .ok w') (hc : c.officer = some (p, a)) :
    MayChange w.store a p := by
  have hasks : Checked.Ensures (MayChange w.store a p) (exec host env w c) := by
    cases c with
    | grantRole | revokeRole | setCredentialAuthority | upgrade =>
      obtain ⟨rfl, rfl⟩ := Prod.mk.inj (Option.some.inj hc)
      apply World.onStore_ensures
      exact .later fun _ => .later fun _ => .later fun _ =>
        .first (requireRole_ensures _ _ (List.mem_singleton_self _))
    | setFee | setTreasury | setTipCooldownWindow | govInitConfig | registerOracle
    | setRentRateBps =>
      obtain ⟨rfl, rfl⟩ := Prod.mk.inj (Option.some.inj hc)
      apply World.onStore_ensures
      exact .later fun _ => .later fun _ =>
        .first (requireRole_ensures _ _ (List.mem_singleton_self _))
    | pauseModule | unpauseModule =>
      obtain ⟨rfl, rfl⟩ := Prod.mk.inj (Option.some.inj hc)
      apply World.onStore_ensures
      exact .later fun _ => .later fun _ => .first (requirePauser_ensures _ _ _)
    | _ => cases hc
  exact hasks w' he

/-! ## The other calls leave the cells alone -/

/-- The contract has been set up, so that it cannot be set up again. -/
def Installed (s : State) : Prop := s.access.initialized = some true

theorem exec_installed (h : Installed w.store) (he : exec host env w c = .ok w') :
    Installed w'.store := by
  have hkept : w'.store.access.initialized = w.store.access.initialized := by
    cases c with
    | initializeContract =>
      have hs := (World.onStore_eq_ok.mp he).1
      simp only [initializeContract, Checked.bind_eq_ok, requireWithError_eq_ok,
        exists_const] at hs
      rw [show w.store.access.initialized = some true from h] at hs
      cases hs.1
    | grantRole =>
      obtain ⟨_, _, hs⟩ := grantRole_ok (World.onStore_eq_ok.mp he).1
      rw [hs]
    | revokeRole =>
      obtain ⟨_, _, hs⟩ := revokeRole_ok (World.onStore_eq_ok.mp he).1
      rw [hs]
    | upgrade =>
      obtain ⟨_, _, hs⟩ := upgrade_ok (World.onStore_eq_ok.mp he).1
      rw [hs]
    | pause =>
      obtain ⟨-, -, hs⟩ := pause_eq_ok.mp (World.onStore_eq_ok.mp he).1
      rw [← hs]
      rfl
    | unpause =>
      obtain ⟨-, -, hs⟩ := unpause_eq_ok.mp (World.onStore_eq_ok.mp he).1
      rw [← hs]
      rfl
    | pauseModule =>
      obtain ⟨_, _, hs⟩ := pauseModule_ok (World.onStore_eq_ok.mp he).1
      rw [hs]
    | unpauseModule =>
      obtain ⟨_, _, hs⟩ := unpauseModule_ok (World.onStore_eq_ok.mp he).1
      rw [hs]
    | _ =>
      have haccess : w.store.SameOn w'.store .access := exec_frame he (by simp [Call.parts])
      exact congrArg Access.initialized haccess
  exact hkept.trans h

theorem installed_of_reachable (h : Reachable host w) : Installed w.store := by
  refine h.store_invariant ?_ (fun w env c w' hw he => exec_installed hw he)
  intro s env admin treasury feeBps hs
  simp only [initializeContract, Checked.bind_eq_ok, Checked.pure_eq_ok] at hs
  obtain ⟨-, -, -, -, -, -, -, -, -, -, rfl⟩ := hs
  rfl

/-- A cell changes only by a call that sets it on behalf of an officer, by a vote, or
by one of the two switches of the global pause. -/
theorem exec_privilege (hw : Installed w.store) (he : exec host env w c = .ok w')
    (ha : ∀ a, c.officer ≠ some (p, a)) (hu : c.unofficial p = false) :
    p.Same w.store w'.store := by
  cases c with
  | initializeContract =>
    have hs := (World.onStore_eq_ok.mp he).1
    simp only [initializeContract, Checked.bind_eq_ok, requireWithError_eq_ok,
      exists_const] at hs
    rw [show w.store.access.initialized = some true from hw] at hs
    cases hs.1
  | grantRole =>
    obtain ⟨_, _, hs⟩ := grantRole_ok (World.onStore_eq_ok.mp he).1
    rw [hs]
    cases p <;> first | rfl | exact absurd rfl (ha _)
  | revokeRole =>
    obtain ⟨_, _, hs⟩ := revokeRole_ok (World.onStore_eq_ok.mp he).1
    rw [hs]
    cases p <;> first | rfl | exact absurd rfl (ha _)
  | deleteProfile =>
    obtain ⟨-, _, _, hs, -⟩ := deleteProfile_ok (World.onStore_eq_ok.mp he).1
    rw [hs]
    cases p <;> rfl
  | setCredentialAuthority =>
    rw [setCredentialAuthority_ok (World.onStore_eq_ok.mp he).1]
    cases p <;> first | rfl | exact absurd rfl (ha _)
  | updateCredentialRoot =>
    obtain ⟨_, _, _, hs⟩ := updateCredentialRoot_ok (World.onStore_eq_ok.mp he).1
    rw [hs]
    cases p <;> rfl
  | verifyCredential =>
    obtain ⟨r, hr, hrs⟩ := Checked.map_eq_ok.mp (World.onStore_eq_ok.mp he).1
    obtain ⟨_, _, hs⟩ := verifyCredential_ok hr
    rw [← hrs, hs]
    cases p <;> rfl
  | pruneNullifiers =>
    obtain ⟨_, hs⟩ := pruneNullifiers_ok (World.onStore_eq_ok.mp he).1
    rw [hs]
    cases p <;> rfl
  | setFee =>
    obtain ⟨-, _, hs⟩ := setFee_ok (World.onStore_eq_ok.mp he).1
    rw [hs]
    cases p <;> first | rfl | exact absurd rfl (ha _)
  | setTreasury =>
    obtain ⟨-, _, hs⟩ := setTreasury_ok (World.onStore_eq_ok.mp he).1
    rw [hs]
    cases p <;> first | rfl | exact absurd rfl (ha _)
  | setTipCooldownWindow =>
    obtain ⟨-, hs⟩ := setTipCooldownWindow_ok (World.onStore_eq_ok.mp he).1
    rw [hs]
    cases p <;> first | rfl | exact absurd rfl (ha _)
  | setRentRateBps =>
    obtain ⟨-, -, hs⟩ := setRentRateBps_ok (World.onStore_eq_ok.mp he).1
    rw [hs]
    cases p <;> first | rfl | exact absurd rfl (ha _)
  | govExecute =>
    obtain ⟨_, _, _, -, -, -, -, ht, hs⟩ := govExecute_ok (World.onStore_eq_ok.mp he).1
    obtain ⟨_, _, ht, hrent⟩ := applyProposal_ok ht
    rw [hs, ht]
    cases p <;> first | exact hrent | rfl | cases hu
  | registerOracle =>
    obtain ⟨_, hs⟩ := registerOracle_ok (World.onStore_eq_ok.mp he).1
    rw [hs]
    cases p <;> first | rfl | exact absurd rfl (ha _)
  | verifyAnalyticsAttestation =>
    obtain ⟨_, _, hs⟩ := verifyAnalyticsAttestation_ok (World.onStore_eq_ok.mp he).1
    rw [hs]
    cases p <;> rfl
  | upgrade =>
    obtain ⟨_, _, hs⟩ := upgrade_ok (World.onStore_eq_ok.mp he).1
    rw [hs]
    cases p <;> first | rfl | exact absurd rfl (ha _)
  | pause =>
    obtain ⟨-, -, hs⟩ := pause_eq_ok.mp (World.onStore_eq_ok.mp he).1
    rw [← hs]
    cases p <;> first | rfl | cases hu
  | unpause =>
    obtain ⟨-, -, hs⟩ := unpause_eq_ok.mp (World.onStore_eq_ok.mp he).1
    rw [← hs]
    cases p <;> first | rfl | cases hu
  | pauseModule =>
    obtain ⟨_, _, hs⟩ := pauseModule_ok (World.onStore_eq_ok.mp he).1
    rw [hs]
    cases p <;> first | rfl | exact absurd rfl (ha _)
  | unpauseModule =>
    obtain ⟨_, _, hs⟩ := unpauseModule_ok (World.onStore_eq_ok.mp he).1
    rw [hs]
    cases p <;> first | rfl | exact absurd rfl (ha _)
  | govInitConfig =>
    obtain ⟨-, hs⟩ := govInitConfig_ok (World.onStore_eq_ok.mp he).1
    rw [hs]
    cases p <;> first | rfl | exact absurd rfl (ha _)
  | _ =>
    by_cases hp : p = .govConfig
    · subst hp
      exact exec_config he (by simp) (by simp)
    · apply Privilege.same_of_sameOn
      apply exec_frame he
      cases p <;> first | exact absurd rfl hp | simp [Call.parts, Privilege.part]

end

/-! ## Authorised changes -/

def Env.without (env : Env) (a : Address) : Env :=
  { env with auth := fun b => b != a && env.auth b }

/-- The call goes through on the authorisation of `a`: `a` gave it, and without it the
call fails. -/
def AuthorisedBy {σ : Type} (host : Host σ) (env : Env) (w : World σ) (c : Call) (a : Address) :
    Prop :=
  env.auth a = true ∧ ∀ w', exec host (env.without a) w c ≠ .ok w'

/-- Whatever guarded cell the call changes, the change was authorised by a holder of a
role that is enough.  A vote is exempt for the cells that proposals may set. -/
def ChangesAuthorised {σ : Type} (host : Host σ) (env : Env) (w : World σ) (c : Call) : Prop :=
  ∀ w' p, exec host env w c = .ok w' → ¬p.Same w.store w'.store →
    ((∃ id, c = .govExecute id) → p.byVote = false) →
    ∃ a, MayChange w.store a p ∧ AuthorisedBy host env w c a

/-- The call switches the global pause, as anyone can while the contract's own address
holds the admin role. -/
def OpenSwitch {σ : Type} (host : Host σ) (s : State) : Call → Prop
  | .pause => hasRoleInternal s host.self .admin = true ∧ isPaused s = false
  | .unpause => hasRoleInternal s host.self .admin = true ∧ isPaused s = true
  | _ => False

section

variable {σ : Type} {host : Host σ} {env : Env} {w : World σ} {c : Call}

theorem authorisedBy_officer {w' : World σ} {p : Privilege} {a : Address}
    (he : exec host env w c = .ok w') (hc : c.officer = some (p, a)) :
    AuthorisedBy host env w c a := by
  refine ⟨exec_auth he hc, fun v hv => ?_⟩
  have hauth : (env.without a).auth a = true := exec_auth hv hc
  simp [Env.without] at hauth

theorem exec_openSwitch (env : Env) (h : OpenSwitch host w.store c) :
    ∃ w', exec host env w c = .ok w' ∧ ¬Privilege.paused.Same w.store w'.store := by
  cases c with
  | pause =>
    obtain ⟨hrole, hp⟩ := h
    refine ⟨{ w with store := _ },
      World.onStore_eq_ok.mpr ⟨pause_eq_ok.mpr ⟨hrole, hp, rfl⟩, rfl⟩, fun hsame => ?_⟩
    have hpaused : w.store.access.paused = some true := Eq.symm hsame
    rw [isPaused, hpaused] at hp
    cases hp
  | unpause =>
    obtain ⟨hrole, hp⟩ := h
    refine ⟨{ w with store := _ },
      World.onStore_eq_ok.mpr ⟨unpause_eq_ok.mpr ⟨hrole, hp, rfl⟩, rfl⟩, fun hsame => ?_⟩
    have hpaused : w.store.access.paused = some false := Eq.symm hsame
    rw [isPaused, hpaused] at hp
    cases hp
  | _ => exact h.elim

/-- The switches read nothing of who authorised what. -/
theorem not_authorisedBy_of_openSwitch (h : OpenSwitch host w.store c) (a : Address) :
    ¬AuthorisedBy host env w c a := by
  intro hauth
  obtain ⟨w', he, -⟩ := exec_openSwitch (env.without a) h
  exact hauth.2 w' he

theorem openSwitch_of_unofficial {w' : World σ} {p : Privilege}
    (he : exec host env w c = .ok w') (hu : c.unofficial p = true)
    (hvote : (∃ id, c = .govExecute id) → p.byVote = false) : OpenSwitch host w.store c := by
  cases c with
  | govExecute id =>
    rw [Call.unofficial, hvote ⟨id, rfl⟩] at hu
    cases hu
  | pause =>
    obtain ⟨hrole, hp, -⟩ := pause_eq_ok.mp (World.onStore_eq_ok.mp he).1
    exact ⟨hrole, hp⟩
  | unpause =>
    obtain ⟨hrole, hp, -⟩ := unpause_eq_ok.mp (World.onStore_eq_ok.mp he).1
    exact ⟨hrole, hp⟩
  | _ => cases hu

/-- In every reachable state, a call changes the guarded cells only with the
authorisation of a holder of the role, unless it switches the global pause while the
contract's own address holds the admin role. -/
theorem changesAuthorised_iff (hw : Reachable host w) :
    ChangesAuthorised host env w c ↔ ¬OpenSwitch host w.store c := by
  constructor
  · intro hall hswitch
    obtain ⟨w', he, hchange⟩ := exec_openSwitch env hswitch
    obtain ⟨a, -, hauth⟩ := hall w' .paused he hchange (fun _ => rfl)
    exact not_authorisedBy_of_openSwitch hswitch a hauth
  · intro hswitch w' p he hchange hvote
    by_cases hofficer : ∃ a, c.officer = some (p, a)
    · obtain ⟨a, ha⟩ := hofficer
      exact ⟨a, exec_mayChange he ha, authorisedBy_officer he ha⟩
    · refine absurd ?_ hchange
      apply exec_privilege (installed_of_reachable hw) he
      · exact fun a ha => hofficer ⟨a, ha⟩
      · rw [← Bool.not_eq_true]
        exact fun hu => hswitch (openSwitch_of_unofficial he hu hvote)

end

/-- An environment in which nobody authorised anything. -/
def unsignedAt (ledger : Nat) : Env where
  sequence := ledger
  timestamp := ledger
  auth _ := false

theorem reachable_selfAdmin : ∃ w, Reachable (bookHost linkora) w ∧
    (hasRoleInternal w.store linkora .admin, isPaused w.store) = (true, false) := by
  have hrun : (demo (fun _ _ _ => True) (fun _ _ => 0)
      [(signedAt 2, .grantRole alice linkora .admin)]).map
        (fun w => (hasRoleInternal w.store linkora .admin, isPaused w.store)) =
          some (true, false) := by decide
  obtain ⟨w, hw, hsee⟩ := reachable_demo hrun
  exact ⟨w, hw.reachable, hsee⟩

/-- Once the admin has granted its own role to the contract, anybody can pause it. -/
theorem pause_unauthorised :
    ∃ w w', Reachable (bookHost linkora) w ∧
      exec (bookHost linkora) (unsignedAt 3) w .pause = .ok w' ∧
      isPaused w.store = false ∧ isPaused w'.store = true ∧
      ¬ChangesAuthorised (bookHost linkora) (unsignedAt 3) w .pause := by
  obtain ⟨w, hw, hsee⟩ := reachable_selfAdmin
  obtain ⟨hrole, hp⟩ := Prod.mk.inj hsee
  have hswitch : OpenSwitch (bookHost linkora) w.store .pause := ⟨hrole, hp⟩
  refine ⟨w, { w with store := _ }, hw,
    World.onStore_eq_ok.mpr ⟨pause_eq_ok.mpr ⟨hrole, hp, rfl⟩, rfl⟩, hp, rfl, fun hall => ?_⟩
  obtain ⟨w', he, hchange⟩ := exec_openSwitch (unsignedAt 3) hswitch
  obtain ⟨a, -, hauth, -⟩ := hall w' .paused he hchange (fun _ => rfl)
  cases hauth

theorem changesAuthorised_iff_selfAdmin :
    ∃ w, Reachable (bookHost linkora) w ∧
      ChangesAuthorised (bookHost linkora) (signedAt 3) w (.setFee alice 300) ∧
      ¬ChangesAuthorised (bookHost linkora) (signedAt 3) w .pause := by
  obtain ⟨w, hw, hsee⟩ := reachable_selfAdmin
  obtain ⟨hrole, hp⟩ := Prod.mk.inj hsee
  refine ⟨w, hw, (changesAuthorised_iff hw).mpr id, fun hall => ?_⟩
  exact (changesAuthorised_iff hw).mp hall ⟨hrole, hp⟩

end Contract
end Linkora
