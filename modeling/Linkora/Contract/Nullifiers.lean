import Linkora.Contract.Entry

/-!
# Nullifiers are used once

A verified credential spends its nullifier in the user's current epoch.  The epoch
moves on with every new credential root and never otherwise, not even when the
profile is deleted, and only the nullifiers of earlier epochs can be pruned.  So a
nullifier stays spent for as long as the root is in force.
-/

namespace Linkora
namespace Contract

/-- The epoch that a user's next nullifier is spent in. -/
def Credentials.epochOf (c : Credentials) (user : Address) : Nat := (c.epoch.get user).getD 0

/-- The proof leads from the leaf to the user's root, and the nullifier has not been
spent under that root. -/
def Proves {σ : Type} (host : Host σ) (s : State) (user : Address) (proof : List Bytes32)
    (leaf nullifier : Bytes32) : Prop :=
  s.credentials.root.get user = some (proof.foldl (hashMerklePair host) leaf) ∧
    s.credentials.nullifier.has (user, s.credentials.epochOf user, nullifier) = false

instance {σ : Type} (host : Host σ) (s : State) (user : Address) (proof : List Bytes32)
    (leaf nullifier : Bytes32) : Decidable (Proves host s user proof leaf nullifier) :=
  inferInstanceAs (Decidable (_ ∧ _))

/-- The credentials with one more nullifier spent. -/
def Credentials.spend (c : Credentials) (user : Address) (nullifier : Bytes32) : Credentials :=
  { c with nullifier := c.nullifier.set (user, c.epochOf user, nullifier) true }

variable {σ : Type}

/-- A verification accepts what `Proves` says and spends the nullifier, or returns
false and leaves everything as it is. -/
theorem verifyCredential_result {host : Host σ} {s : State} {user : Address}
    {proof : List Bytes32} {leaf nullifier : Bytes32} {r : Bool × State}
    (h : verifyCredential host s user proof leaf nullifier = .ok r) :
    (Proves host s user proof leaf nullifier ∧
      r = (true, { s with credentials := s.credentials.spend user nullifier }.publish
        (.credentialVerified user nullifier))) ∨
    (¬Proves host s user proof leaf nullifier ∧ r = (false, s)) := by
  simp only [verifyCredential, Checked.bind_eq_ok] at h
  obtain ⟨-, -, -, -, h⟩ := h
  unfold Proves
  split at h
  · rename_i hroot
    rw [Checked.pure_eq_ok] at h
    rw [hroot]
    exact Or.inr ⟨fun hp => absurd hp.1 (by simp), h.symm⟩
  · rename_i root hroot
    split at h
    · rename_i hspent
      rw [Checked.pure_eq_ok] at h
      refine Or.inr ⟨fun hp => ?_, h.symm⟩
      have hfree := hp.2
      rw [Credentials.epochOf, hspent] at hfree
      cases hfree
    · rename_i hspent
      split at h
      · rename_i hne
        rw [Checked.pure_eq_ok] at h
        refine Or.inr ⟨fun hp => ?_, h.symm⟩
        rw [hroot, Option.some.injEq] at hp
        exact hne hp.1.symm
      · rename_i heq
        rw [Checked.pure_eq_ok] at h
        rw [not_not] at heq
        refine Or.inl ⟨⟨?_, Bool.not_eq_true _ ▸ hspent⟩, h.symm⟩
        rw [hroot, heq]

theorem updateCredentialRoot_result {host : Host σ} {env : Env} {s s' : State} {user : Address}
    {newRoot : Bytes32} {signature : Bytes64}
    (h : updateCredentialRoot host env s user newRoot signature = .ok s') :
    s'.credentials = { s.credentials with
      root := s.credentials.root.set user newRoot
      epoch := s.credentials.epoch.set user (s.credentials.epochOf user + 1) } := by
  simp only [updateCredentialRoot, Checked.bind_eq_ok, Checked.pure_eq_ok, u32_eq_ok] at h
  obtain ⟨-, -, -, -, -, -, -, -, -, -, -, -, -, ⟨-, rfl⟩, rfl⟩ := h
  rfl

theorem pruneNullifiers_result {s s' : State} {user : Address} {epoch : Nat}
    {nullifiers : List Bytes32} (h : pruneNullifiers s user epoch nullifiers = .ok s') :
    epoch < s.credentials.epochOf user ∧
      s' = { s with credentials := { s.credentials with
        nullifier := nullifiers.foldl (fun n v => n.remove (user, epoch, v))
          s.credentials.nullifier } } := by
  simp only [pruneNullifiers, Checked.bind_eq_ok, Checked.pure_eq_ok, requireWithError_eq_ok,
    exists_const] at h
  obtain ⟨-, -, hepoch, -, rfl⟩ := h
  exact ⟨hepoch, rfl⟩

/-! ## One call -/

/-- Every way a call can change the epochs and the nullifiers. -/
inductive NullifierStep (s : State) (c : Call) (s' : State) : Prop where
  | same (epoch : s'.credentials.epoch = s.credentials.epoch)
      (nullifier : s'.credentials.nullifier = s.credentials.nullifier)
  | update (user : Address) (newRoot : Bytes32) (signature : Bytes64)
      (call : c = .updateCredentialRoot user newRoot signature)
      (epoch : s'.credentials.epoch =
        s.credentials.epoch.set user (s.credentials.epochOf user + 1))
      (nullifier : s'.credentials.nullifier = s.credentials.nullifier)
  | spend (user : Address) (nullifier : Bytes32)
      (credentials : s'.credentials = s.credentials.spend user nullifier)
  | prune (user : Address) (epoch : Nat) (nullifiers : List Bytes32)
      (superseded : epoch < s.credentials.epochOf user)
      (same : s'.credentials.epoch = s.credentials.epoch)
      (nullifier : s'.credentials.nullifier =
        nullifiers.foldl (fun n v => n.remove (user, epoch, v)) s.credentials.nullifier)

theorem exec_nullifierStep {host : Host σ} {env : Env} {w w' : World σ} {c : Call}
    (he : exec host env w c = .ok w') : NullifierStep w.store c w'.store := by
  cases c with
  | deleteProfile user =>
    obtain ⟨-, _, _, hs, -⟩ := deleteProfile_ok (World.onStore_eq_ok.mp he).1
    rw [hs]
    exact .same rfl rfl
  | setCredentialAuthority admin pubkey =>
    rw [setCredentialAuthority_ok (World.onStore_eq_ok.mp he).1]
    exact .same rfl rfl
  | updateCredentialRoot user newRoot signature =>
    have hc := updateCredentialRoot_result (World.onStore_eq_ok.mp he).1
    exact .update user newRoot signature rfl (by rw [hc]) (by rw [hc])
  | verifyCredential user proof leaf nullifier =>
    obtain ⟨r, hr, hrs⟩ := Checked.map_eq_ok.mp (World.onStore_eq_ok.mp he).1
    rw [← hrs]
    rcases verifyCredential_result hr with ⟨-, rfl⟩ | ⟨-, rfl⟩
    · exact .spend user nullifier rfl
    · exact .same rfl rfl
  | pruneNullifiers user epoch nullifiers =>
    obtain ⟨hepoch, hs⟩ := pruneNullifiers_result (World.onStore_eq_ok.mp he).1
    rw [hs]
    exact .prune user epoch nullifiers hepoch rfl rfl
  | _ =>
    have hsame' : w'.store.credentials = w.store.credentials :=
      exec_frame (p := .credentials) he (by simp [Call.parts])
    exact .same (by rw [hsame']) (by rw [hsame'])

/-! ## Runs -/

/-- The nullifier is spent in the user's current epoch. -/
def Spent (s : State) (user : Address) (nullifier : Bytes32) : Prop :=
  s.credentials.nullifier.has (user, s.credentials.epochOf user, nullifier) = true

/-- The action gives the user a new credential root. -/
def Action.renews (user : Address) : Action σ → Prop
  | .call _ (.updateCredentialRoot u _ _) => u = user
  | _ => False

theorem Spent.call {host : Host σ} {env : Env} {w w' : World σ} {c : Call} {user : Address}
    {nullifier : Bytes32} (h : Spent w.store user nullifier)
    (hc : ¬(Action.call env c : Action σ).renews user) (he : exec host env w c = .ok w') :
    Spent w'.store user nullifier := by
  unfold Spent Credentials.epochOf at h ⊢
  cases exec_nullifierStep he with
  | same hepoch hnull =>
    rw [hepoch, hnull]
    exact h
  | update u newRoot signature hcall hepoch hnull =>
    subst hcall
    have hne : user ≠ u := fun e => hc e.symm
    rw [hepoch, hnull, Store.get_set_of_ne hne]
    exact h
  | spend u n hcred =>
    rw [hcred]
    show (w.store.credentials.nullifier.set _ true).has _ = true
    rw [Store.has_set]
    split
    · rfl
    · exact h
  | prune u epoch nullifiers hold hepoch hnull =>
    rw [hepoch, hnull, Store.has_foldl_remove (fun v => (u, epoch, v))]
    refine ⟨h, fun v _ hkey => ?_⟩
    -- A pruned key lies in an earlier epoch of its user than the one read here.
    simp only [Prod.mk.injEq] at hkey
    obtain ⟨rfl, hsame, -⟩ := hkey
    unfold Credentials.epochOf at hold
    omega

/-- A spent nullifier stays spent in every run that gives the user no new root. -/
theorem Spent.run {host : Host σ} {w w' : World σ} {acts : List (Action σ)} {user : Address}
    {nullifier : Bytes32} (h : Spent w.store user nullifier)
    (hrun : Run (Step host) w acts w') (hacts : ∀ a ∈ acts, ¬a.renews user) :
    Spent w'.store user nullifier := by
  induction hrun with
  | nil => exact h
  | @snoc acts w₁ w₂ a _ hstep ih =>
    have hpre := ih fun b hb => hacts b (List.mem_append_left [a] hb)
    have ha := hacts a (List.mem_append_right acts (List.mem_singleton_self a))
    cases hstep with
    | call he => exact hpre.call ha he
    | others => exact hpre

/-- The action is a call of `verify_credential` for the user and the nullifier that
returns true. -/
def Accepts (host : Host σ) (w : World σ) (user : Address) (nullifier : Bytes32)
    (a : Action σ) : Prop :=
  ∃ env proof leaf s', a = .call env (.verifyCredential user proof leaf nullifier) ∧
    verifyCredential host w.store user proof leaf nullifier = .ok (true, s')

theorem Accepts.spent {host : Host σ} {w w' : World σ} {user : Address} {nullifier : Bytes32}
    {a : Action σ} (h : Accepts host w user nullifier a) (hstep : Step host w a w') :
    Spent w'.store user nullifier := by
  obtain ⟨env, proof, leaf, s', rfl, hv⟩ := h
  cases hstep with
  | call he =>
    obtain ⟨r, hr, hrs⟩ := Checked.map_eq_ok.mp (World.onStore_eq_ok.mp he).1
    obtain rfl := Except.ok.inj (hv.symm.trans hr)
    rcases verifyCredential_result hv with ⟨-, heq⟩ | ⟨-, heq⟩
    · rw [← hrs, (Prod.mk.inj heq).2]
      show (w.store.credentials.nullifier.set _ true).has _ = true
      rw [Store.has_set]
      exact if_pos rfl
    · cases heq

theorem Spent.not_accepts {host : Host σ} {w : World σ} {user : Address} {nullifier : Bytes32}
    {a : Action σ} (h : Spent w.store user nullifier) : ¬Accepts host w user nullifier a := by
  rintro ⟨env, proof, leaf, s', rfl, hv⟩
  rcases verifyCredential_result hv with ⟨hp, -⟩ | ⟨-, heq⟩
  · rw [Spent, hp.2] at h
    cases h
  · cases heq

/-- In every run, between two calls of `verify_credential` that return true for one
user and one nullifier lies a successful `update_credential_root` for that user; a
verification that returns false leaves the storage and the token contracts as they
are, and one that aborts takes no step. -/
theorem nullifier_single_use (host : Host σ) (user : Address) (nullifier : Bytes32) :
    (∀ w₁ w₂ w₃ a b acts, Step host w₁ a w₂ → Run (Step host) w₂ acts w₃ →
      Accepts host w₁ user nullifier a → Accepts host w₃ user nullifier b →
      ∃ env newRoot signature, .call env (.updateCredentialRoot user newRoot signature) ∈ acts) ∧
    ∀ w env proof leaf,
      (∀ s', verifyCredential host w.store user proof leaf nullifier = .ok (false, s') →
        exec host env w (.verifyCredential user proof leaf nullifier) = .ok w) ∧
      ∀ e, verifyCredential host w.store user proof leaf nullifier = .error e →
        ∀ w', ¬Step host w (.call env (.verifyCredential user proof leaf nullifier)) w' := by
  refine ⟨?_, fun w env proof leaf => ⟨fun s' hv => ?_, fun e hv w' hstep => ?_⟩⟩
  · intro w₁ w₂ w₃ a b acts hstep hrun ha hb
    by_contra hnone
    refine ((ha.spent hstep).run hrun fun x hx hrenews => ?_).not_accepts hb
    refine hnone ?_
    cases x with
    | others => cases hrenews
    | call env c =>
      cases c with
      | updateCredentialRoot u newRoot signature =>
        obtain rfl : u = user := hrenews
        exact ⟨env, newRoot, signature, hx⟩
      | _ => cases hrenews
  · rcases verifyCredential_result hv with ⟨-, heq⟩ | ⟨-, heq⟩
    · cases heq
    · show w.onStore ((verifyCredential host w.store user proof leaf nullifier).map (·.2)) = .ok w
      rw [hv, (Prod.mk.inj heq).2]
      rfl
  · cases hstep with
    | call he =>
      obtain ⟨r, hr, -⟩ := Checked.map_eq_ok.mp (World.onStore_eq_ok.mp he).1
      rw [hv] at hr
      cases hr

/-! A root, its nullifier spent, the root renewed, and the nullifier spent again. -/

/-- A host that takes every signature for good. -/
def trustingHost : Host Book := { bookHost linkora with ed25519Verify := fun _ _ _ => true }

/-- `alice` holds the root 7, and the credential authority is known. -/
def certifiedAlice : World Book where
  store := { State.empty with
    credentials := ⟨(∅ : Store Address Bytes32).set alice 7, ∅, ∅, some 1⟩ }
  tokens := fun _ _ => 0

theorem nullifier_single_use_renewed :
    ∃ w₂ w₃ acts, Run (Step trustingHost) w₂ acts w₃ ∧
      Step trustingHost certifiedAlice
        (.call (signedAt 1) (.verifyCredential alice [] 7 5)) w₂ ∧
      Accepts trustingHost certifiedAlice alice 5
        (.call (signedAt 1) (.verifyCredential alice [] 7 5)) ∧
      Accepts trustingHost w₃ alice 5 (.call (signedAt 4) (.verifyCredential alice [] 8 5)) ∧
      ∃ env newRoot signature,
        .call env (.updateCredentialRoot alice newRoot signature) ∈ acts := by
  have hrun : ((exec trustingHost (signedAt 1) certifiedAlice
      (.verifyCredential alice [] 7 5)).toOption.bind fun w₂ =>
        (replay trustingHost (fun _ _ _ => True)
          [(signedAt 2, .updateCredentialRoot alice 8 1),
            (signedAt 3, .pruneNullifiers alice 0 [5])] w₂).map fun w₃ =>
          ((verifyCredential trustingHost certifiedAlice.store alice [] 7 5).toOption.map (·.1),
            (verifyCredential trustingHost w₃.store alice [] 8 5).toOption.map (·.1))) =
      some (some true, some true) := by decide +kernel
  obtain ⟨w₂, h₂, hrun⟩ := Option.bind_eq_some_iff.mp hrun
  obtain ⟨w₃, h₃, hsee⟩ := Option.map_eq_some_iff.mp hrun
  obtain ⟨hfirst, hsecond⟩ := Prod.mk.inj hsee
  obtain ⟨⟨_, s₁⟩, hs₁, rfl⟩ := Option.map_eq_some_iff.mp hfirst
  obtain ⟨⟨_, s₂⟩, hs₂, rfl⟩ := Option.map_eq_some_iff.mp hsecond
  have hstep : Step trustingHost certifiedAlice
      (.call (signedAt 1) (.verifyCredential alice [] 7 5)) w₂ := .call (toOption_eq_some.mp h₂)
  have ha : Accepts trustingHost certifiedAlice alice 5
      (.call (signedAt 1) (.verifyCredential alice [] 7 5)) :=
    ⟨_, _, _, s₁, rfl, toOption_eq_some.mp hs₁⟩
  have hb : Accepts trustingHost w₃ alice 5
      (.call (signedAt 4) (.verifyCredential alice [] 8 5)) :=
    ⟨_, _, _, s₂, rfl, toOption_eq_some.mp hs₂⟩
  have hmid := (run_of_replay h₃).of_guarded
  exact ⟨w₂, w₃, _, hmid, hstep, ha, hb,
    (nullifier_single_use trustingHost alice 5).1 _ _ _ _ _ _ hstep hmid ha hb⟩

end Contract
end Linkora
