import Linkora.Lib.Seen
import Linkora.Lib.Sha256
import Linkora.Lib.Text

/-!
# Authentication of the DM relay

`services/dm-relay/src/auth.ts`: a message submission is signed over its recipient, index,
timestamp and ciphertext, and the owner of an address signs the address and a timestamp.  A
signature is honoured while its timestamp is near the clock, and the signatures that were
honoured are remembered for as long.
-/

namespace Linkora
namespace Relay

/-- `@stellar/stellar-sdk` and the hash. -/
structure Stellar where
  /-- `StrKey.isValidEd25519PublicKey(address)` -/
  isValidEd25519PublicKey : String → Bool
  /-- `Keypair.fromPublicKey(address).verify(hash, signature)` -/
  verify : String → List UInt8 → List UInt8 → Bool
  sha256 : List UInt8 → List UInt8

structure AuthData where
  sender : String
  recipient : String
  nonce : Int
  timestamp : Int
  ciphertext : String
  signature : String
  deriving DecidableEq

structure AuthError where
  message : String
  deriving DecidableEq

def DM_AUTH_MESSAGE_VERSION : String := "v2"

def hashCiphertext (lib : Stellar) (ciphertext : String) : String :=
  Text.hex (lib.sha256 (Text.utf8 ciphertext))

def buildDmAuthMessage (lib : Stellar) (recipient : String) (nonce timestamp : Int) (ciphertext : String) :
    String :=
  DM_AUTH_MESSAGE_VERSION ++ ":" ++ recipient ++ ":" ++ toString nonce ++ ":" ++ toString timestamp ++
    ":" ++ hashCiphertext lib ciphertext

/-- What the owner of an address signs. -/
def ownershipChallenge (address : String) (timestamp : Int) : String :=
  address ++ ":" ++ toString timestamp

/-! ## The replay cache -/

/-- `sweepDmRelayNonces` and the lookup; a signature that is not there is recorded. -/
def isDmRelayReplay (seen : Seen String) (signature : String) (nowSecs maxSkewSecs : Int) :
    Bool × Seen String :=
  let swept := seen.sweep nowSecs
  if swept.has signature = true then (true, swept)
  else (false, swept.record signature (nowSecs + maxSkewSecs))

/-! ## Verification -/

/-- `Math.abs(now - timestamp) > maxTimestampSkew` -/
def skewError (now timestamp maxTimestampSkew : Int) : Option AuthError :=
  let skew := |now - timestamp|
  if maxTimestampSkew < skew then
    some ⟨"Timestamp too old or too far in future. Skew: " ++ toString skew ++ "s, max: " ++
      toString maxTimestampSkew ++ "s"⟩
  else none

/-- Whether the signature is one of the message: the end of both verifications. -/
def verifySignature (lib : Stellar) (address message signatureHex : String) :
    Except AuthError Bool :=
  let hash := lib.sha256 (Text.utf8 message)
  let signature := Text.fromHex signatureHex
  if signature.length ≠ 64 then .error ⟨"Invalid signature length"⟩
  else .ok (lib.verify address hash signature)

/-- The checks of `verifyMessageAuth` before the replay guard. -/
def checkMessageAuth (lib : Stellar) (maxTimestampSkew now : Int) (authData : AuthData) :
    Except AuthError Unit := do
  if authData.ciphertext = "" then
    throw ⟨"Missing ciphertext: the signature must cover the message payload"⟩
  if lib.isValidEd25519PublicKey authData.sender = false then
    throw ⟨"Invalid sender address format"⟩
  if lib.isValidEd25519PublicKey authData.recipient = false then
    throw ⟨"Invalid recipient address format"⟩
  if let some err := skewError now authData.timestamp maxTimestampSkew then throw err
  let isValid ← verifySignature lib authData.sender
    (buildDmAuthMessage lib authData.recipient authData.nonce authData.timestamp authData.ciphertext)
    authData.signature
  if isValid = false then throw ⟨"Invalid signature"⟩

/-- The checks of `verifyAddressOwnership` before the replay guard. -/
def checkAddressOwnership (lib : Stellar) (maxTimestampSkew now : Int) (address : String)
    (timestamp : Int) (signatureHex : String) : Except AuthError Unit := do
  if lib.isValidEd25519PublicKey address = false then throw ⟨"Invalid address format"⟩
  if let some err := skewError now timestamp maxTimestampSkew then throw err
  let isValid ← verifySignature lib address (ownershipChallenge address timestamp) signatureHex
  if isValid = false then throw ⟨"Invalid signature"⟩

/-- The replay guard, once the checks have passed. -/
def guardReplay (seen : Seen String) (now maxTimestampSkew : Int) (signature message : String)
    (checked : Except AuthError Unit) : Except AuthError Unit × Seen String :=
  match checked with
  | .error err => (.error err, seen)
  | .ok () =>
    let (replayed, seen) := isDmRelayReplay seen signature now maxTimestampSkew
    (if replayed = true then .error ⟨message⟩ else .ok (), seen)

def verifyMessageAuth (lib : Stellar) (maxTimestampSkew now : Int) (seen : Seen String)
    (authData : AuthData) : Except AuthError Unit × Seen String :=
  guardReplay seen now maxTimestampSkew authData.signature
    "Replayed signature: this signed request has already been used"
    (checkMessageAuth lib maxTimestampSkew now authData)

def verifyAddressOwnership (lib : Stellar) (maxTimestampSkew now : Int) (seen : Seen String)
    (address : String) (timestamp : Int) (signatureHex : String) :
    Except AuthError Unit × Seen String :=
  guardReplay seen now maxTimestampSkew signatureHex
    "Replayed signature: this address ownership proof has already been used"
    (checkAddressOwnership lib maxTimestampSkew now address timestamp signatureHex)

/-! ## What a verification says -/

variable {lib : Stellar} {maxTimestampSkew now : Int} {seen : Seen String}

/-- The timestamp is within the skew of the clock. -/
def Timely (maxTimestampSkew now timestamp : Int) : Prop := |now - timestamp| ≤ maxTimestampSkew

instance (maxTimestampSkew now timestamp : Int) :
    Decidable (Timely maxTimestampSkew now timestamp) :=
  inferInstanceAs (Decidable (_ ≤ _))

theorem skewError_of_timely {timestamp : Int} (h : Timely maxTimestampSkew now timestamp) :
    skewError now timestamp maxTimestampSkew = none := if_neg (not_lt.mpr h)

/-- The signature is 64 bytes in hexadecimal that the library verifies. -/
theorem verifySignature_of_verify {address message signatureHex : String} {signature : List UInt8}
    (hhex : Text.fromHex signatureHex = signature) (hlength : signature.length = 64)
    (hverify : lib.verify address (lib.sha256 (Text.utf8 message)) signature = true) :
    verifySignature lib address message signatureHex = .ok true := by
  rw [verifySignature, hhex, hlength, hverify]
  rfl

theorem checkMessageAuth_of_verify {authData : AuthData}
    (hciphertext : authData.ciphertext ≠ "")
    (hsender : lib.isValidEd25519PublicKey authData.sender = true)
    (hrecipient : lib.isValidEd25519PublicKey authData.recipient = true)
    (htimely : Timely maxTimestampSkew now authData.timestamp)
    (hverify : verifySignature lib authData.sender (buildDmAuthMessage lib authData.recipient
      authData.nonce authData.timestamp authData.ciphertext) authData.signature = .ok true) :
    checkMessageAuth lib maxTimestampSkew now authData = .ok () := by
  rw [checkMessageAuth, if_neg hciphertext, hsender, hrecipient, skewError_of_timely htimely,
    hverify]
  rfl

theorem checkAddressOwnership_of_verify {address signatureHex : String} {timestamp : Int}
    (haddress : lib.isValidEd25519PublicKey address = true)
    (htimely : Timely maxTimestampSkew now timestamp)
    (hverify : verifySignature lib address (ownershipChallenge address timestamp) signatureHex =
      .ok true) :
    checkAddressOwnership lib maxTimestampSkew now address timestamp signatureHex = .ok () := by
  rw [checkAddressOwnership, haddress, skewError_of_timely htimely, hverify]
  rfl

/-- A verification succeeds if its checks do and its signature is not remembered, and then the
signature is recorded. -/
theorem guardReplay_cases (seen : Seen String) (now maxTimestampSkew : Int)
    (signature message : String) (checked : Except AuthError Unit) :
    (∃ err, checked = .error err ∧
      guardReplay seen now maxTimestampSkew signature message checked = (.error err, seen)) ∨
    (checked = .ok () ∧ (seen.sweep now).has signature = true ∧
      guardReplay seen now maxTimestampSkew signature message checked =
        (.error ⟨message⟩, seen.sweep now)) ∨
    (checked = .ok () ∧ (seen.sweep now).has signature = false ∧
      guardReplay seen now maxTimestampSkew signature message checked =
        (.ok (), (seen.sweep now).record signature (now + maxTimestampSkew))) := by
  cases checked with
  | error err => exact Or.inl ⟨err, rfl, rfl⟩
  | ok =>
    right
    cases hhas : (seen.sweep now).has signature with
    | true => exact Or.inl ⟨rfl, rfl, by simp [guardReplay, isDmRelayReplay, hhas]⟩
    | false => exact Or.inr ⟨rfl, rfl, by simp [guardReplay, isDmRelayReplay, hhas]⟩

end Relay
end Linkora
