import Linkora.Contract.State

/-!
# Exact token ledgers

What the contract relies on when it holds a token: a transfer moves exactly the
amount it is given, and nobody but the contract moves the contract's own balance.
Nothing is assumed about the other tokens, except that they cannot do that either.
-/

namespace Linkora
namespace Contract

variable {σ : Type}

/-- Some call on `token` leads from one state of the token contracts to another. -/
inductive Host.TokenStep (host : Host σ) (token : Address) : σ → σ → Prop where
  | transfer {t t' : σ} {sender recipient : Address} {x : Int} :
      host.transfer t token sender recipient x = some t' → host.TokenStep token t t'
  | balance {t : σ} {account : Address} {r : Int × σ} :
      host.balance t token account = some r → host.TokenStep token t r.2
  | allowance {t : σ} {owner spender : Address} {r : Int × σ} :
      host.allowance t token owner spender = some r → host.TokenStep token t r.2
  | burnFrom {t t' : σ} {spender owner : Address} {x : Int} :
      host.burnFrom t token spender owner x = some t' → host.TokenStep token t t'
  | decimals {t : σ} {r : Nat × σ} :
      host.decimals t token = some r → host.TokenStep token t r.2

/-- `T` is an exact SEP-41 ledger, and the contract's address authorises nothing
but the contract's own calls. -/
structure ExactLedger (host : Host σ) (T : Address) where
  bal : σ → Address → Int
  bal_nonneg : ∀ (t : σ) (a : Address), 0 ≤ bal t a
  transfer_moves : ∀ {t t' : σ} {sender recipient : Address} {x : Int},
    host.transfer t T sender recipient x = some t' → ∀ a,
      bal t' a = bal t a - (if a = sender then x else 0) + (if a = recipient then x else 0)
  /-- The contract can spend what it has. -/
  transfer_covered : ∀ (t : σ) (recipient : Address) (x : Int), 0 < x → x ≤ bal t host.self →
    ∃ t', host.transfer t T host.self recipient x = some t'
  balance_keeps : ∀ {t : σ} {account : Address} {r : Int × σ},
    host.balance t T account = some r → bal r.2 = bal t
  allowance_keeps : ∀ {t : σ} {owner spender : Address} {r : Int × σ},
    host.allowance t T owner spender = some r → bal r.2 = bal t
  decimals_keeps : ∀ {t : σ} {r : Nat × σ}, host.decimals t T = some r → bal r.2 = bal t
  burn_owner : ∀ {t t' : σ} {spender owner : Address} {x : Int},
    host.burnFrom t T spender owner x = some t' → ∀ a, a ≠ owner → bal t' a = bal t a
  foreign : ∀ {token : Address} {t t' : σ}, token ≠ T → host.TokenStep token t t' →
    bal t host.self ≤ bal t' host.self
  others_keep : ∀ {t t' : σ}, host.others t t' → bal t host.self ≤ bal t' host.self

namespace ExactLedger

variable {host : Host σ} {T : Address} (L : ExactLedger host T)

/-- What the contract holds of `T`. -/
def held (t : σ) : Int := L.bal t host.self

/-- A transfer into the contract's account, in whatever token. -/
theorem receive {t t' : σ} {token sender recipient : Address} {x : Int}
    (hs : sender ≠ host.self) (hr : recipient = host.self)
    (h : host.transfer t token sender recipient x = some t') :
    L.held t + (if token = T then x else 0) ≤ L.held t' := by
  by_cases ht : token = T
  · subst ht
    have hm := L.transfer_moves h host.self
    rw [if_neg hs.symm, if_pos hr.symm] at hm
    show L.bal t host.self + _ ≤ L.bal t' host.self
    rw [if_pos rfl]
    omega
  · rw [if_neg ht, add_zero]
    exact L.foreign ht (.transfer h)

/-- A payment out of the contract's account, in whatever token. -/
theorem spend {t t' : σ} {token recipient : Address} {x : Int} (hx : 0 ≤ x)
    (h : host.transfer t token host.self recipient x = some t') :
    L.held t ≤ L.held t' + (if token = T then x else 0) := by
  by_cases ht : token = T
  · subst ht
    have hm := L.transfer_moves h host.self
    rw [if_pos rfl] at hm
    show L.bal t host.self ≤ L.bal t' host.self + _
    rw [if_pos rfl]
    split at hm <;> omega
  · rw [if_neg ht, add_zero]
    exact L.foreign ht (.transfer h)

/-- A transfer out of somebody else's account, in whatever token, never lowers
what the contract holds, unless it gives the contract a negative amount. -/
theorem transfer_keeps {t t' : σ} {token sender recipient : Address} {x : Int}
    (hs : sender ≠ host.self) (hx : 0 ≤ x)
    (h : host.transfer t token sender recipient x = some t') : L.held t ≤ L.held t' := by
  by_cases hr : recipient = host.self
  · have hle := L.receive hs hr h
    split at hle <;> omega
  · by_cases ht : token = T
    · subst ht
      have hm := L.transfer_moves h host.self
      rw [if_neg hs.symm, if_neg (Ne.symm hr)] at hm
      show L.bal t host.self ≤ L.bal t' host.self
      omega
    · exact L.foreign ht (.transfer h)

theorem query_balance {t : σ} {token account : Address} {r : Int × σ}
    (h : host.balance t token account = some r) : L.held t ≤ L.held r.2 := by
  by_cases ht : token = T
  · subst ht
    exact (congrFun (L.balance_keeps h) host.self).ge
  · exact L.foreign ht (.balance h)

theorem query_allowance {t : σ} {token owner spender : Address} {r : Int × σ}
    (h : host.allowance t token owner spender = some r) : L.held t ≤ L.held r.2 := by
  by_cases ht : token = T
  · subst ht
    exact (congrFun (L.allowance_keeps h) host.self).ge
  · exact L.foreign ht (.allowance h)

theorem query_decimals {t : σ} {token : Address} {r : Nat × σ}
    (h : host.decimals t token = some r) : L.held t ≤ L.held r.2 := by
  by_cases ht : token = T
  · subst ht
    exact (congrFun (L.decimals_keeps h) host.self).ge
  · exact L.foreign ht (.decimals h)

theorem burn_keeps {t t' : σ} {token spender owner : Address} {x : Int}
    (ho : owner ≠ host.self) (h : host.burnFrom t token spender owner x = some t') :
    L.held t ≤ L.held t' := by
  by_cases ht : token = T
  · subst ht
    exact (L.burn_owner h host.self ho.symm).ge
  · exact L.foreign ht (.burnFrom h)

end ExactLedger

/-! ## A ledger that can be run

Every token is a book of balances on which nobody has granted an allowance. -/

abbrev Book := Address → Address → Nat

def Book.move (b : Book) (token sender recipient : Address) (x : Nat) : Book := fun t a =>
  if t = token then
    b t a - (if a = sender then x else 0) + (if a = recipient then x else 0)
  else b t a

/-- The hash and the signatures of this host are never asked for in the runs it
is used in. -/
def bookHost (self : Address) : Host Book where
  self
  sha256 _ := 0
  ed25519Verify _ _ _ := false
  wasmUploaded _ := false
  transfer b token sender recipient x :=
    if 0 ≤ x ∧ x ≤ b token sender then some (b.move token sender recipient x.toNat) else none
  balance b token account := some (b token account, b)
  allowance b _ _ _ := some (0, b)
  burnFrom _ _ _ _ _ := none
  decimals b _ := some (7, b)
  others b b' := ∀ token, b token self ≤ b' token self

theorem bookHost_transfer {self : Address} {b b' : Book} {token sender recipient : Address}
    {x : Int} (h : (bookHost self).transfer b token sender recipient x = some b') :
    0 ≤ x ∧ x ≤ b token sender ∧ b' = b.move token sender recipient x.toNat := by
  simp only [bookHost] at h
  split at h
  · rename_i hx
    exact ⟨hx.1, hx.2, (Option.some.inj h).symm⟩
  · cases h

theorem Book.move_eq (b : Book) {token sender recipient : Address} {x : Int} (hx : 0 ≤ x)
    (hle : x ≤ b token sender) (a : Address) :
    (b.move token sender recipient x.toNat token a : Int) =
      b token a - (if a = sender then x else 0) + (if a = recipient then x else 0) := by
  rw [Book.move, if_pos rfl]
  by_cases ha : a = sender
  · subst ha
    rw [if_pos rfl, if_pos rfl]
    split <;> omega
  · rw [if_neg ha, if_neg ha]
    split <;> omega

def bookLedger (self T : Address) : ExactLedger (bookHost self) T where
  bal b a := b T a
  bal_nonneg b a := Int.natCast_nonneg (b T a)
  transfer_moves h a := by
    obtain ⟨hx, hle, rfl⟩ := bookHost_transfer h
    exact Book.move_eq _ hx hle a
  transfer_covered b recipient x hx hle := by
    have hle' : x ≤ b T self := hle
    exact ⟨_, if_pos ⟨hx.le, hle'⟩⟩
  balance_keeps h := by cases h; rfl
  allowance_keeps h := by cases h; rfl
  decimals_keeps h := by cases h; rfl
  burn_owner h := by cases h
  foreign ht h := by
    cases h with
    | transfer h =>
      obtain ⟨-, -, rfl⟩ := bookHost_transfer h
      rw [Book.move, if_neg ht.symm]
    | balance h => cases h; exact le_refl _
    | allowance h => cases h; exact le_refl _
    | burnFrom h => cases h
    | decimals h => cases h; exact le_refl _
  others_keep h := Int.ofNat_le.mpr (h T)

/-! The parties of the runs that are written out, and the ledger they see when
everybody but the contract itself has authorised the call. -/

def linkora : Address := .contract 9
def alice : Address := .account 1
def bob : Address := .account 2
def carol : Address := .account 3
def coin : Address := .contract 5

def signedAt (ledger : Nat) : Env where
  sequence := ledger
  timestamp := ledger
  auth a := a != linkora

end Contract
end Linkora
