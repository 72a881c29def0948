import Mathlib.Data.Rat.Defs
import Mathlib.Algebra.Order.Ring.Rat
import Mathlib.Tactic.Linarith
import Linkora.Lib.Seen
import Linkora.Lib.Text

/-!
# Signed requests of the indexer's API

`services/indexer/src/middleware/stellarAuth.ts` and `packages/types/src/auth.ts`: a request
carries the address, the time and a signature of its method, path and body.  Every request
under `/api` passes `optionalStellarAuth`, and the routes that need a signer pass
`requireStellarAuth` after it.  Both look at one cache of the signatures that were seen.
-/

namespace Linkora
namespace Indexer

/-- A number of a JSON text: how it prints, and its value where it is finite. -/
structure JsonNumber where
  text : String
  value : Option Rat
  deriving DecidableEq

/-- The members of the payload that have the expected type. -/
structure SigPayload where
  address : Option String
  timestamp : Option JsonNumber
  signature : Option String
  deriving DecidableEq

/-- What the middleware calls. -/
structure AuthLibraries where
  /-- `JSON.parse(Buffer.from(payload, "base64").toString("utf8"))`, which may throw. -/
  parse : String → Option SigPayload
  sha256 : List UInt8 → List UInt8
  /-- `Keypair.fromPublicKey(address).verify(hash, signature)`; a throw counts as `false`. -/
  verify : String → List UInt8 → List UInt8 → Bool

structure HttpRequest where
  method : String
  originalUrl : String
  rawBody : Option (List UInt8)
  authorization : Option String
  deriving DecidableEq

structure StellarSig where
  address : String
  timestamp : JsonNumber
  time : Rat
  signature : String
  deriving DecidableEq

def SIGNATURE_TIMESTAMP_TOLERANCE_MS : Int := 30000

/-! ## The message -/

def AUTH_MESSAGE_VERSION : String := "v1"

def canonicalizeAuthPath (rawPath : String) : String :=
  let withoutQuery := rawPath.toList.takeWhile (· ≠ '?')
  let withoutTrailingSlash := (withoutQuery.reverse.dropWhile (· = '/')).reverse
  if withoutTrailingSlash = [] then "/" else String.ofList withoutTrailingSlash

def buildAuthMessage (method canonicalPath address timestamp bodyHash : String) : String :=
  AUTH_MESSAGE_VERSION ++ ":" ++ method.toUpper ++ ":" ++ canonicalPath ++ ":" ++ address ++ ":" ++
    timestamp ++ ":" ++ bodyHash

def hashRequestBody (lib : AuthLibraries) (req : HttpRequest) : String :=
  Text.hex (lib.sha256 (req.rawBody.getD []))

/-- The message that the signature of a request is of. -/
def HttpRequest.message (lib : AuthLibraries) (req : HttpRequest) (sig : StellarSig) : String :=
  buildAuthMessage req.method (canonicalizeAuthPath req.originalUrl) sig.address sig.timestamp.text
    (hashRequestBody lib req)

def verifyEd25519Signature (lib : AuthLibraries) (req : HttpRequest) (sig : StellarSig) : Bool :=
  lib.verify sig.address (lib.sha256 (Text.utf8 (req.message lib sig)))
    (Text.fromBase64 sig.signature)

/-! ## The header -/

/-- White space of JavaScript, as `trim` takes it off. -/
def isSpace (c : Char) : Bool :=
  (9 ≤ c.toNat ∧ c.toNat ≤ 13) ∨ (0x2000 ≤ c.toNat ∧ c.toNat ≤ 0x200a) ∨
    c.toNat ∈ [0x20, 0xa0, 0x1680, 0x2028, 0x2029, 0x202f, 0x205f, 0x3000, 0xfeff]

/-- `s.trim() === ""` -/
def isBlank (s : String) : Bool := s.toList.all isSpace

/-- `header.split(" ")` -/
def splitSpaces (s : String) : List String := (s.toList.splitOn ' ').map String.ofList

def parseStellarSignatureHeader (lib : AuthLibraries) (header : Option String) :
    Option StellarSig :=
  match header with
  | none => none
  | some header =>
    match splitSpaces header with
    | ["StellarSig", base64Payload] =>
      match lib.parse base64Payload with
      | some ⟨some address, some timestamp, some signature⟩ =>
        match timestamp.value with
        | none => none
        | some time =>
          if isBlank address = true ∨ isBlank signature = true then none
          else some { address, timestamp, time, signature }
      | _ => none
    | _ => none

/-! ## The two middlewares -/

structure AuthRefusal where
  status : Nat
  code : String
  message : String
  deriving DecidableEq

def invalidAuthHeader : AuthRefusal where
  status := 400
  code := "INVALID_AUTH_HEADER"
  message := "Missing or malformed Authorization header. Expected: Authorization: StellarSig <base64(JSON \x7b address, timestamp, signature \x7d)>"

def futureTimestamp : AuthRefusal := ⟨403, "INVALID_TIMESTAMP", "Timestamp is in the future"⟩

def expiredTimestamp : AuthRefusal where
  status := 403
  code := "EXPIRED_TIMESTAMP"
  message := "Timestamp is more than 30s old. Request rejected for security (replay protection)."

def invalidSignature : AuthRefusal := ⟨401, "INVALID_SIGNATURE", "Invalid signature"⟩

def replayedSignature : AuthRefusal where
  status := 403
  code := "REPLAYED_SIGNATURE"
  message := "This signed request has already been used. Please sign a new request."

def recordReplay (seen : Seen String) (signature : String) (nowMs : Int) : Seen String :=
  seen.record signature (nowMs + SIGNATURE_TIMESTAMP_TOLERANCE_MS)

/-- The signature after a sweep; one that is not there is recorded. -/
def recordAndCheckReplay (seen : Seen String) (signature : String) (nowMs : Int) :
    Bool × Seen String :=
  let swept := seen.sweep nowMs
  if swept.has signature = true then (true, swept)
  else (false, swept.record signature (nowMs + SIGNATURE_TIMESTAMP_TOLERANCE_MS))

def checkReplayOnly (seen : Seen String) (signature : String) (nowMs : Int) : Bool × Seen String :=
  let swept := seen.sweep nowMs
  (swept.has signature, swept)

/-- The address that `requireStellarAuth` puts into the context, or the response it ends with. -/
def requireStellarAuth (lib : AuthLibraries) (seen : Seen String) (now : Int)
    (req : HttpRequest) : Except AuthRefusal String × Seen String :=
  match parseStellarSignatureHeader lib req.authorization with
  | none => (.error invalidAuthHeader, seen)
  | some sig =>
    let age : Rat := now - sig.time
    if age < 0 then (.error futureTimestamp, seen)
    else if (SIGNATURE_TIMESTAMP_TOLERANCE_MS : Rat) < age then (.error expiredTimestamp, seen)
    else if verifyEd25519Signature lib req sig = false then (.error invalidSignature, seen)
    else
      let (replayed, seen) := recordAndCheckReplay seen sig.signature now
      (if replayed = true then .error replayedSignature else .ok sig.address, seen)

/-- The address that `optionalStellarAuth` puts into the context, if any. -/
def optionalStellarAuth (lib : AuthLibraries) (seen : Seen String) (now : Int)
    (req : HttpRequest) : Option String × Seen String :=
  match parseStellarSignatureHeader lib req.authorization with
  | none => (none, seen)
  | some sig =>
    let age : Rat := now - sig.time
    if age < 0 ∨ (SIGNATURE_TIMESTAMP_TOLERANCE_MS : Rat) < age then (none, seen)
    else if verifyEd25519Signature lib req sig = false then (none, seen)
    else
      let (replayed, seen) := checkReplayOnly seen sig.signature now
      if replayed = true then (none, seen)
      else (some sig.address, recordReplay seen sig.signature now)

/-! ## What the middlewares say -/

/-- The signature that a request carries, if it is one of the request. -/
def HttpRequest.signed (lib : AuthLibraries) (req : HttpRequest) : Option StellarSig :=
  (parseStellarSignatureHeader lib req.authorization).filter (verifyEd25519Signature lib req)

/-- The age of the signature is between zero and the tolerance. -/
def StellarSig.inTime (sig : StellarSig) (now : Int) : Prop :=
  sig.time ≤ now ∧ (now : Rat) ≤ sig.time + (SIGNATURE_TIMESTAMP_TOLERANCE_MS : Int)

instance (sig : StellarSig) (now : Int) : Decidable (sig.inTime now) :=
  inferInstanceAs (Decidable (_ ∧ _))

variable {lib : AuthLibraries} {seen : Seen String} {now : Int} {req : HttpRequest}

theorem signed_eq_some {sig : StellarSig} : req.signed lib = some sig ↔
    parseStellarSignatureHeader lib req.authorization = some sig ∧
      verifyEd25519Signature lib req sig = true := by
  rw [HttpRequest.signed, Option.filter_eq_some_iff]

/-- The signature that a request is signed with is the one that its header holds. -/
theorem signed_of_parsed {sig sig' : StellarSig}
    (hparse : parseStellarSignatureHeader lib req.authorization = some sig)
    (hsigned : req.signed lib = some sig') :
    sig' = sig ∧ verifyEd25519Signature lib req sig' = true := by
  obtain ⟨hheader, hvalid⟩ := signed_eq_some.mp hsigned
  exact ⟨Option.some.inj (hheader.symm.trans hparse), hvalid⟩

/-- `requireStellarAuth` looks at the cache only for a valid signature that is in time. -/
theorem requireStellarAuth_cases (lib : AuthLibraries) (seen : Seen String) (now : Int)
    (req : HttpRequest) :
    ((∀ sig, req.signed lib = some sig → ¬ sig.inTime now) ∧
      ∃ err, requireStellarAuth lib seen now req = (.error err, seen)) ∨
    ∃ sig, req.signed lib = some sig ∧ sig.inTime now ∧
      (((seen.sweep now).has sig.signature = true ∧
        requireStellarAuth lib seen now req = (.error replayedSignature, seen.sweep now)) ∨
      ((seen.sweep now).has sig.signature = false ∧
        requireStellarAuth lib seen now req = (.ok sig.address,
          (seen.sweep now).record sig.signature (now + SIGNATURE_TIMESTAMP_TOLERANCE_MS)))) := by
  unfold requireStellarAuth
  cases hparse : parseStellarSignatureHeader lib req.authorization with
  | none =>
    refine Or.inl ⟨fun sig hsig => ?_, _, rfl⟩
    rw [(signed_eq_some.mp hsig).1] at hparse
    cases hparse
  | some sig =>
    dsimp only
    split
    · rename_i hfuture
      refine Or.inl ⟨fun sig' hsig' hin => ?_, _, rfl⟩
      obtain ⟨rfl, -⟩ := signed_of_parsed hparse hsig'
      exact absurd hin.1 (not_le.mpr (by linarith))
    · split
      · rename_i hexpired
        refine Or.inl ⟨fun sig' hsig' hin => ?_, _, rfl⟩
        obtain ⟨rfl, -⟩ := signed_of_parsed hparse hsig'
        exact absurd hin.2 (not_le.mpr (by linarith))
      · split
        · rename_i hinvalid
          refine Or.inl ⟨fun sig' hsig' _ => ?_, _, rfl⟩
          obtain ⟨rfl, hvalid⟩ := signed_of_parsed hparse hsig'
          rw [hinvalid] at hvalid
          cases hvalid
        · rename_i hpast hfresh hvalid
          have hsigned : req.signed lib = some sig :=
            signed_eq_some.mpr ⟨hparse, by simpa using hvalid⟩
          have hin : sig.inTime now := ⟨by linarith, by linarith⟩
          refine Or.inr ⟨sig, hsigned, hin, ?_⟩
          cases hhas : (seen.sweep now).has sig.signature with
          | true => exact Or.inl ⟨rfl, by simp [recordAndCheckReplay, hhas]⟩
          | false => exact Or.inr ⟨rfl, by simp [recordAndCheckReplay, hhas]⟩

/-- `optionalStellarAuth` records a valid signature that is in time and not in the cache. -/
theorem optionalStellarAuth_cases (lib : AuthLibraries) (seen : Seen String) (now : Int)
    (req : HttpRequest) :
    ((∀ sig, req.signed lib = some sig → ¬ sig.inTime now) ∧
      optionalStellarAuth lib seen now req = (none, seen)) ∨
    ∃ sig, req.signed lib = some sig ∧ sig.inTime now ∧
      (((seen.sweep now).has sig.signature = true ∧
        optionalStellarAuth lib seen now req = (none, seen.sweep now)) ∨
      ((seen.sweep now).has sig.signature = false ∧
        optionalStellarAuth lib seen now req = (some sig.address,
          (seen.sweep now).record sig.signature (now + SIGNATURE_TIMESTAMP_TOLERANCE_MS)))) := by
  unfold optionalStellarAuth
  cases hparse : parseStellarSignatureHeader lib req.authorization with
  | none =>
    refine Or.inl ⟨fun sig hsig => ?_, rfl⟩
    rw [(signed_eq_some.mp hsig).1] at hparse
    cases hparse
  | some sig =>
    dsimp only
    split
    · rename_i hout
      refine Or.inl ⟨fun sig' hsig' hin => ?_, rfl⟩
      obtain ⟨rfl, -⟩ := signed_of_parsed hparse hsig'
      obtain ⟨hpast, hfresh⟩ := hin
      rcases hout with hfuture | hexpired
      · linarith
      · linarith
    · split
      · rename_i hinvalid
        refine Or.inl ⟨fun sig' hsig' _ => ?_, rfl⟩
        obtain ⟨rfl, hvalid⟩ := signed_of_parsed hparse hsig'
        rw [hinvalid] at hvalid
        cases hvalid
      · rename_i hin hvalid
        have hsigned : req.signed lib = some sig :=
          signed_eq_some.mpr ⟨hparse, by simpa using hvalid⟩
        have hin' : sig.inTime now := by
          rw [not_or, not_lt, not_lt] at hin
          exact ⟨by linarith [hin.1], by linarith [hin.2]⟩
        refine Or.inr ⟨sig, hsigned, hin', ?_⟩
        cases hhas : (seen.sweep now).has sig.signature with
        | true => exact Or.inl ⟨rfl, by simp [checkReplayOnly, hhas]⟩
        | false => exact Or.inr ⟨rfl, by simp [checkReplayOnly, recordReplay, hhas]⟩

end Indexer
end Linkora
