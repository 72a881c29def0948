import Linkora.Lib.Sha256
import Linkora.Lib.Text
import Linkora.Lib.X25519

/-!
# Direct messages of the SDK

`packages/sdk/src/dm` encrypts a message under a key that both parties derive from their
DM keys and the conversation, with a nonce that is derived from the key and the message's
index.  The index is the sender's clock in milliseconds, and both directions of a
conversation share the key, so two messages of a conversation are encrypted alike exactly
if they read the same millisecond.  The libraries behind X25519 and HKDF are parameters; a
ciphertext is represented by what the cipher is given.
-/

namespace Linkora
namespace Sdk

abbrev Octets := List UInt8

/-- `@noble/curves` and `@noble/hashes`. -/
structure Primitives where
  getPublicKey : Octets → Octets
  /-- Throws on points of small order. -/
  getSharedSecret : Octets → Octets → Option Octets
  /-- With SHA-256 and without salt: the key material, the info and the length. -/
  hkdf : Octets → Octets → Nat → Octets

structure DmKeyPair where
  publicKey : Octets
  privateKey : Octets

/-- What `chacha20poly1305(key, nonce).encrypt` is called with. -/
structure Sealed where
  key : Octets
  nonce : Octets
  plaintext : Octets
  deriving DecidableEq

def deriveSharedSecret (P : Primitives) (myPrivateKey theirPublicKey : Octets) :
    Except String Octets :=
  if myPrivateKey.length ≠ 32 ∨ theirPublicKey.length ≠ 32 then
    .error "Keys must be exactly 32 bytes"
  else
    match P.getSharedSecret myPrivateKey theirPublicKey with
    | none => .error "invalid private or public key received"
    | some secret => .ok secret

/-- The info under which the key of a conversation is derived. -/
def keyInfo (conversationId : String) : Octets := Text.utf8 ("linkora-dm-v1:" ++ conversationId)

def deriveConversationKey (P : Primitives) (sharedSecret : Octets) (conversationId : String) :
    Octets :=
  P.hkdf sharedSecret (keyInfo conversationId) 32

/-- `[addressA, addressB].sort()`, joined. -/
def sortedPair (addressA addressB : String) : String :=
  if Text.before addressB addressA = true then addressB ++ addressA else addressA ++ addressB

def createConversationId (addressA addressB : String) : String :=
  Text.hex (Sha256.bytes (Sha256.digest (Text.utf8 (sortedPair addressA addressB))))

/-- The info under which the nonce of a message is derived. -/
def nonceInfo (messageIndex : Int) : Octets := Text.utf8 ("nonce:" ++ toString messageIndex)

def deriveNonce (P : Primitives) (conversationKey : Octets) (messageIndex : Int) : Octets :=
  P.hkdf conversationKey (nonceInfo messageIndex) 12

def encryptMessage (P : Primitives) (sharedSecret : Octets) (plaintext conversationId : String)
    (messageIndex : Int) : Sealed :=
  let key := deriveConversationKey P sharedSecret conversationId
  { key, nonce := deriveNonce P key messageIndex, plaintext := Text.utf8 plaintext }

def encryptDirectMessage (P : Primitives) (myPrivateKey theirPublicKey : Octets)
    (myAddress theirAddress plaintext : String) (messageIndex : Int) : Except String Sealed := do
  let sharedSecret ← deriveSharedSecret P myPrivateKey theirPublicKey
  let conversationId := createConversationId myAddress theirAddress
  return encryptMessage P sharedSecret plaintext conversationId messageIndex

structure DmService where
  keypair : Option DmKeyPair
  userAddress : String

/-- What is passed to `relayClient.sendMessage`. -/
structure Outgoing where
  recipient : String
  encrypted : Sealed
  messageIndex : Int

/-- The lookup of the recipient's key is given by its outcome: an error, no key, or the key.
`now` is what `Date.now()` returns after it. -/
def DmService.sendMessage (P : Primitives) (service : DmService) (toAddress content : String)
    (dmKey : Except String (Option Octets)) (now : Int) : Except String Outgoing :=
  match service.keypair with
  | none => .error "No DM keys available. Generate keys first."
  | some keypair =>
    match dmKey with
    | .error e => .error e
    | .ok none => .error "Recipient has not published DM keys"
    | .ok (some recipientPubKey) => do
      let messageIndex := now
      let encrypted ← encryptDirectMessage P keypair.privateKey recipientPubKey
        service.userAddress toAddress content messageIndex
      return { recipient := toAddress, encrypted, messageIndex }

/-! ## Pairs of addresses -/

theorem sortedPair_comm (a b : String) : sortedPair a b = sortedPair b a := by
  unfold sortedPair
  cases hba : Text.before b a with
  | true => rw [Text.before_asymm hba]; rfl
  | false =>
    cases hab : Text.before a b with
    | true => rfl
    | false => rw [Text.eq_of_not_before hab hba]

theorem sortedPair_cases (a b : String) : sortedPair a b = a ++ b ∨ sortedPair a b = b ++ a := by
  unfold sortedPair
  split
  · exact Or.inr rfl
  · exact Or.inl rfl

/-- Two texts of which the first parts are equally long. -/
theorem append_inj_of_length {a b c d : String} (h : a ++ b = c ++ d)
    (hlen : a.length = c.length) : a = c ∧ b = d := by
  have hlist := congrArg String.toList h
  rw [String.toList_append, String.toList_append] at hlist
  have hlen' : a.toList.length = c.toList.length := by
    rw [String.length_toList, String.length_toList, hlen]
  obtain ⟨hac, hbd⟩ := List.append_inj hlist hlen'
  exact ⟨String.toList_inj.mp hac, String.toList_inj.mp hbd⟩

theorem keyInfo_injective : Function.Injective keyInfo := by
  intro a b h
  exact (append_inj_of_length (Text.utf8_injective h) rfl).2

theorem nonceInfo_injective : Function.Injective nonceInfo := by
  intro a b h
  exact Text.toString_int_injective (append_inj_of_length (Text.utf8_injective h) rfl).2

/-! ## Two users -/

inductive Side where
  | left
  | right
  deriving DecidableEq

/-- Two users with fixed DM keys, and the keys that the contract holds, theirs among
them. -/
structure Users (P : Primitives) where
  address : Side → String
  privateKey : Side → Octets
  directory : String → Option Octets
  published : ∀ u, directory (address u) = some (P.getPublicKey (privateKey u))
  distinct : address .left ≠ address .right
  length : ∀ u, (address u).length = 56
  /-- Each derives the same secret as the other. -/
  agree : P.getSharedSecret (privateKey .left) (P.getPublicKey (privateKey .right)) =
    P.getSharedSecret (privateKey .right) (P.getPublicKey (privateKey .left))

/-- A call of `sendMessage`.  The lookup of the recipient's key may fail. -/
structure SendCall where
  sender : Side
  toAddress : String
  content : String
  lookupError : Option String
  now : Int

namespace Users

variable {P : Primitives} (U : Users P)

def service (u : Side) : DmService where
  keypair := some ⟨P.getPublicKey (U.privateKey u), U.privateKey u⟩
  userAddress := U.address u

def send (c : SendCall) : Except String Outgoing :=
  (U.service c.sender).sendMessage P c.toAddress c.content
    (match c.lookupError with
      | some e => .error e
      | none => .ok (U.directory c.toAddress)) c.now

/-- The messages that a list of calls sends, in the order in which the lookups end. -/
def outgoing (calls : List SendCall) : List Outgoing :=
  calls.filterMap fun c => (U.send c).toOption

/-- The calls that send their message. -/
def sent (calls : List SendCall) : List SendCall :=
  calls.filter fun c => (U.send c).toOption.isSome

/-- The secret that a message is encrypted under. -/
def secretOf (c : SendCall) : Option Octets :=
  if c.lookupError = none then
    (U.directory c.toAddress).bind fun theirs =>
      (deriveSharedSecret P (U.privateKey c.sender) theirs).toOption
  else none

def conversationOf (c : SendCall) : String :=
  createConversationId (U.address c.sender) c.toAddress

/-- The message goes between the same two addresses, in the same direction or in the other. -/
def SameConversation (a b : SendCall) : Prop :=
  (U.address a.sender = U.address b.sender ∧ a.toAddress = b.toAddress) ∨
    (U.address a.sender = b.toAddress ∧ a.toAddress = U.address b.sender)

instance (a b : SendCall) : Decidable (U.SameConversation a b) :=
  inferInstanceAs (Decidable (_ ∨ _))

/-- What the key of a conversation is derived from. -/
def keyInputs (calls : List SendCall) : List (Octets × Octets) :=
  calls.filterMap fun c => (U.secretOf c).map fun secret => (secret, keyInfo (U.conversationOf c))

/-- What the nonces are derived from. -/
def nonceInputs (calls : List SendCall) : List (Octets × Octets) :=
  calls.filterMap fun c => (U.secretOf c).map fun secret =>
    (deriveConversationKey P secret (U.conversationOf c), nonceInfo c.now)

/-- What the conversation ids are derived from. -/
def idInputs (calls : List SendCall) : List Octets :=
  calls.map fun c => Text.utf8 (sortedPair (U.address c.sender) c.toAddress)

/-! ## One message -/

theorem send_eq (c : SendCall) : (U.send c).toOption = (U.secretOf c).map fun secret =>
    { recipient := c.toAddress
      encrypted := encryptMessage P secret c.content (U.conversationOf c) c.now
      messageIndex := c.now } := by
  unfold send secretOf DmService.sendMessage service
  cases c.lookupError with
  | some e => rfl
  | none =>
    cases hkey : U.directory c.toAddress with
    | none => simp [Except.toOption]
    | some theirs =>
      simp only [encryptDirectMessage]
      cases hsecret : deriveSharedSecret P (U.privateKey c.sender) theirs with
      | error e => simp [hsecret, Except.toOption, bind, Except.bind]
      | ok secret =>
        simp [hsecret, Except.toOption, bind, Except.bind, pure, Except.pure, conversationOf]

theorem secretOf_eq_some {c : SendCall} {secret : Octets} :
    U.secretOf c = some secret ↔ c.lookupError = none ∧ ∃ theirs,
      U.directory c.toAddress = some theirs ∧
        deriveSharedSecret P (U.privateKey c.sender) theirs = .ok secret := by
  have htoOption : ∀ x : Except String Octets, x.toOption = some secret ↔ x = .ok secret := by
    intro x
    cases x <;> simp [Except.toOption]
  unfold secretOf
  split
  · rename_i herror
    rw [Option.bind_eq_some_iff]
    simp only [htoOption, herror, true_and]
  · rename_i herror
    exact ⟨nofun, fun h => absurd h.1 herror⟩

theorem address_injective : Function.Injective U.address := by
  intro u v h
  cases u with
  | left =>
    cases v with
    | left => rfl
    | right => exact absurd h U.distinct
  | right =>
    cases v with
    | left => exact absurd h.symm U.distinct
    | right => rfl

theorem getSharedSecret_of_derive {mine theirs secret : Octets}
    (h : deriveSharedSecret P mine theirs = .ok secret) :
    P.getSharedSecret mine theirs = some secret := by
  unfold deriveSharedSecret at h
  split at h
  · cases h
  · split at h
    · cases h
    · rename_i found hfound
      rw [hfound, Except.ok.inj h]

theorem agree' (u v : Side) : P.getSharedSecret (U.privateKey u) (P.getPublicKey (U.privateKey v)) =
    P.getSharedSecret (U.privateKey v) (P.getPublicKey (U.privateKey u)) := by
  cases u with
  | left =>
    cases v with
    | left => rfl
    | right => exact U.agree
  | right =>
    cases v with
    | left => exact U.agree.symm
    | right => rfl

/-- The two users derive one secret for the messages of one conversation. -/
theorem secretOf_eq_of_sameConversation {a b : SendCall} {s t : Octets}
    (ha : U.secretOf a = some s) (hb : U.secretOf b = some t) (hab : U.SameConversation a b) :
    s = t := by
  obtain ⟨-, theirs, htheirs, hs⟩ := U.secretOf_eq_some.mp ha
  obtain ⟨-, theirs', htheirs', ht⟩ := U.secretOf_eq_some.mp hb
  have hs' := getSharedSecret_of_derive hs
  have ht' := getSharedSecret_of_derive ht
  rcases hab with ⟨hsender, hto⟩ | ⟨hsender, hto⟩
  · have hside := U.address_injective hsender
    rw [hto, htheirs', Option.some.injEq] at htheirs
    rw [hside, ← htheirs, ht'] at hs'
    exact (Option.some.inj hs').symm
  · -- The message goes the other way, so each public key is the other's sender's.
    rw [hto, U.published, Option.some.injEq] at htheirs
    rw [← hsender, U.published, Option.some.injEq] at htheirs'
    rw [← htheirs, U.agree', htheirs', ht'] at hs'
    exact (Option.some.inj hs').symm

/-! ## Conversations -/

theorem sameConversation_of_sortedPair {a b : SendCall} (ha : a.toAddress.length = 56)
    (hb : b.toAddress.length = 56)
    (h : sortedPair (U.address a.sender) a.toAddress = sortedPair (U.address b.sender) b.toAddress) :
    U.SameConversation a b := by
  have hla := U.length a.sender
  have hlb := U.length b.sender
  rcases sortedPair_cases (U.address a.sender) a.toAddress with hea | hea <;>
    rcases sortedPair_cases (U.address b.sender) b.toAddress with heb | heb <;>
    rw [hea, heb] at h
  · exact Or.inl (append_inj_of_length h (hla.trans hlb.symm))
  · exact Or.inr (append_inj_of_length h (hla.trans hb.symm))
  · obtain ⟨hto, hsender⟩ := append_inj_of_length h (ha.trans hlb.symm)
    exact Or.inr ⟨hsender, hto⟩
  · obtain ⟨hto, hsender⟩ := append_inj_of_length h (ha.trans hb.symm)
    exact Or.inl ⟨hsender, hto⟩

theorem sortedPair_of_sameConversation {a b : SendCall} (h : U.SameConversation a b) :
    sortedPair (U.address a.sender) a.toAddress =
      sortedPair (U.address b.sender) b.toAddress := by
  rcases h with ⟨hsender, hto⟩ | ⟨hsender, hto⟩
  · rw [hsender, hto]
  · rw [hsender, hto, sortedPair_comm]

/-! ## All messages -/

variable {U} {calls : List SendCall}

theorem conversationOf_eq_iff (haddr : ∀ c ∈ calls, c.toAddress.length = 56)
    (hids : CollisionFree Sha256.digest (U.idInputs calls)) {a b : SendCall} (ha : a ∈ calls)
    (hb : b ∈ calls) : U.conversationOf a = U.conversationOf b ↔ U.SameConversation a b := by
  constructor
  · intro h
    have hdigest := Sha256.bytes_injective (Text.hex_injective h)
    have htext := hids _ (List.mem_map_of_mem ha) _ (List.mem_map_of_mem hb) hdigest
    exact U.sameConversation_of_sortedPair (haddr a ha) (haddr b hb) (Text.utf8_injective htext)
  · intro h
    unfold conversationOf createConversationId
    rw [U.sortedPair_of_sameConversation h]

/-- What the two messages are encrypted under is the same. -/
def Reuses (m n : Outgoing) : Prop :=
  m.encrypted.key = n.encrypted.key ∧ m.encrypted.nonce = n.encrypted.nonce

/-- Two messages are encrypted under the same key and nonce if and only if they belong to one
conversation and have read the same clock. -/
theorem reuses_iff (haddr : ∀ c ∈ calls, c.toAddress.length = 56)
    (hids : CollisionFree Sha256.digest (U.idInputs calls))
    (hkeys : CollisionFree (fun x => P.hkdf x.1 x.2 32) (U.keyInputs calls))
    (hnonces : CollisionFree (fun x => P.hkdf x.1 x.2 12) (U.nonceInputs calls))
    {a b : SendCall} (ha : a ∈ calls) (hb : b ∈ calls) {m n : Outgoing}
    (hm : (U.send a).toOption = some m) (hn : (U.send b).toOption = some n) :
    Reuses m n ↔ U.SameConversation a b ∧ a.now = b.now := by
  rw [send_eq] at hm hn
  obtain ⟨s, hs, rfl⟩ := Option.map_eq_some_iff.mp hm
  obtain ⟨t, ht, rfl⟩ := Option.map_eq_some_iff.mp hn
  constructor
  · rintro ⟨hkey, hnonce⟩
    have hkeyIn : (s, keyInfo (U.conversationOf a)) = (t, keyInfo (U.conversationOf b)) :=
      hkeys _ (List.mem_filterMap.mpr ⟨a, ha, by rw [hs]; rfl⟩)
        _ (List.mem_filterMap.mpr ⟨b, hb, by rw [ht]; rfl⟩) hkey
    have hnonceIn : (deriveConversationKey P s (U.conversationOf a), nonceInfo a.now) =
        (deriveConversationKey P t (U.conversationOf b), nonceInfo b.now) :=
      hnonces _ (List.mem_filterMap.mpr ⟨a, ha, by rw [hs]; rfl⟩)
        _ (List.mem_filterMap.mpr ⟨b, hb, by rw [ht]; rfl⟩) hnonce
    exact ⟨(conversationOf_eq_iff haddr hids ha hb).mp (keyInfo_injective (Prod.mk.inj hkeyIn).2),
      nonceInfo_injective (Prod.mk.inj hnonceIn).2⟩
  · rintro ⟨hsame, hnow⟩
    have hid := (conversationOf_eq_iff haddr hids ha hb).mpr hsame
    have hsecret := U.secretOf_eq_of_sameConversation hs ht hsame
    subst hsecret
    show (encryptMessage P s a.content (U.conversationOf a) a.now).key = _ ∧
      (encryptMessage P s a.content (U.conversationOf a) a.now).nonce = _
    rw [hid, hnow]
    exact ⟨rfl, rfl⟩

/-- Let HKDF and SHA-256 be injective on what they are called with.  For every list of calls
by the two users, to each other or to others, no two of the messages sent are encrypted
under the same key and nonce if and only if no two messages of one conversation have read
the same clock. -/
theorem no_nonce_reuse_iff (haddr : ∀ c ∈ calls, c.toAddress.length = 56)
    (hids : CollisionFree Sha256.digest (U.idInputs calls))
    (hkeys : CollisionFree (fun x => P.hkdf x.1 x.2 32) (U.keyInputs calls))
    (hnonces : CollisionFree (fun x => P.hkdf x.1 x.2 12) (U.nonceInputs calls)) :
    (U.outgoing calls).Pairwise (fun m n => ¬Reuses m n) ↔
      (U.sent calls).Pairwise (fun a b => U.SameConversation a b → a.now ≠ b.now) := by
  rw [outgoing, List.pairwise_filterMap, sent, List.pairwise_filter]
  apply List.Pairwise.iff_of_mem
  intro a b ha hb
  constructor
  · intro h hsa hsb hsame hnow
    obtain ⟨m, hm⟩ := Option.isSome_iff_exists.mp hsa
    obtain ⟨n, hn⟩ := Option.isSome_iff_exists.mp hsb
    exact h m hm n hn ((reuses_iff haddr hids hkeys hnonces ha hb hm hn).mpr ⟨hsame, hnow⟩)
  · intro h m hm n hn hreuse
    obtain ⟨hsame, hnow⟩ := (reuses_iff haddr hids hkeys hnonces ha hb hm hn).mp hreuse
    exact h (by rw [hm]; rfl) (by rw [hn]; rfl) hsame hnow

end Users

/-! ## Two users who write in the same millisecond -/

def noble : Primitives := ⟨X25519.getPublicKey, X25519.getSharedSecret, Sha256.hkdf⟩

def leftKey : Octets := List.replicate 32 1
def rightKey : Octets := List.replicate 32 2

def leftPublic : Octets :=
  [164, 224, 146, 146, 182, 81, 194, 120, 185, 119, 44, 86, 159, 95, 169, 187, 19, 217, 6, 180, 106,
    182, 140, 157, 249, 220, 43, 68, 9, 248, 162, 9]

def rightPublic : Octets :=
  [206, 141, 58, 209, 204, 182, 51, 236, 123, 112, 193, 120, 20, 165, 199, 110, 205, 2, 150, 133, 5,
    13, 52, 71, 69, 186, 5, 135, 14, 88, 125, 89]

def pairSecret : Octets :=
  [46, 215, 106, 181, 73, 177, 231, 60, 3, 30, 180, 156, 148, 72, 240, 121, 138, 234, 129, 182, 152,
    39, 154, 12, 61, 195, 228, 159, 191, 196, 185, 83]

/-- What the curve gives for the two keys. -/
theorem curve_pair :
    noble.getPublicKey leftKey = leftPublic ∧ noble.getPublicKey rightKey = rightPublic ∧
      noble.getSharedSecret leftKey rightPublic = some pairSecret ∧
      noble.getSharedSecret rightKey leftPublic = some pairSecret := by
  decide +kernel

theorem getPublicKey_left : noble.getPublicKey leftKey = leftPublic := curve_pair.1

theorem getPublicKey_right : noble.getPublicKey rightKey = rightPublic := curve_pair.2.1

theorem getSharedSecret_left : noble.getSharedSecret leftKey rightPublic = some pairSecret :=
  curve_pair.2.2.1

theorem getSharedSecret_right : noble.getSharedSecret rightKey leftPublic = some pairSecret :=
  curve_pair.2.2.2

def leftAddress : String := String.ofList (List.replicate 56 'A')
def rightAddress : String := String.ofList (List.replicate 56 'B')

theorem length_ofList_replicate (n : Nat) (c : Char) :
    (String.ofList (List.replicate n c)).length = n := by
  rw [String.length_ofList, List.length_replicate]

theorem length_leftAddress : leftAddress.length = 56 := length_ofList_replicate 56 'A'

theorem length_rightAddress : rightAddress.length = 56 := length_ofList_replicate 56 'B'

theorem leftAddress_ne_right : leftAddress ≠ rightAddress := by
  unfold leftAddress rightAddress
  rw [Ne, String.ofList_inj]
  decide

def pair : Users noble where
  address
    | .left => leftAddress
    | .right => rightAddress
  privateKey
    | .left => leftKey
    | .right => rightKey
  directory a :=
    if a = leftAddress then some leftPublic
    else if a = rightAddress then some rightPublic else none
  published
    | .left => by rw [getPublicKey_left]; rfl
    | .right => by rw [getPublicKey_right]; rfl
  distinct := leftAddress_ne_right
  length
    | .left => length_leftAddress
    | .right => length_rightAddress
  agree := by
    show noble.getSharedSecret leftKey (noble.getPublicKey rightKey) =
      noble.getSharedSecret rightKey (noble.getPublicKey leftKey)
    rw [getPublicKey_left, getPublicKey_right, getSharedSecret_left, getSharedSecret_right]

/-- A message to the other one of the two. -/
def callAt (sender : Side) (content : String) (now : Int) : SendCall where
  sender
  toAddress := match sender with
    | .left => rightAddress
    | .right => leftAddress
  content
  lookupError := none
  now

theorem secretOf_callAt (u : Side) (content : String) (now : Int) :
    pair.secretOf (callAt u content now) = some pairSecret := by
  have hlengths : leftKey.length = 32 ∧ rightKey.length = 32 ∧ leftPublic.length = 32 ∧
      rightPublic.length = 32 := by decide
  obtain ⟨hleft, hright, hleft', hright'⟩ := hlengths
  rw [Users.secretOf_eq_some]
  cases u with
  | left =>
    refine ⟨rfl, rightPublic, rfl, ?_⟩
    show deriveSharedSecret noble leftKey rightPublic = .ok pairSecret
    rw [deriveSharedSecret, if_neg (by omega), getSharedSecret_left]
  | right =>
    refine ⟨rfl, leftPublic, rfl, ?_⟩
    show deriveSharedSecret noble rightKey leftPublic = .ok pairSecret
    rw [deriveSharedSecret, if_neg (by omega), getSharedSecret_right]

/-- Each writes to the other, at the two clocks. -/
def exchange (now now' : Int) : List SendCall :=
  [callAt .left "hi" now, callAt .right "hello" now']

theorem toAddress_exchange (now now' : Int) :
    ∀ c ∈ exchange now now', c.toAddress.length = 56 := by
  intro c hc
  simp only [exchange, List.mem_cons, List.not_mem_nil, or_false] at hc
  rcases hc with rfl | rfl
  · exact length_rightAddress
  · exact length_leftAddress

theorem sameConversation_callAt (content content' : String) (now now' : Int) :
    pair.SameConversation (callAt .left content now) (callAt .right content' now') :=
  Or.inr ⟨rfl, rfl⟩

/-- All of the inputs are the same. -/
theorem collisionFree_pair {α β : Type} {f : α → β} {a b : α} (h : a = b) :
    CollisionFree f [a, b] := by
  subst h
  intro x hx y hy _
  have hx' : x = a := by simpa using hx
  have hy' : y = a := by simpa using hy
  rw [hx', hy']

theorem collisionFree_of_ne {α β : Type} {f : α → β} {a b : α} (h : f a ≠ f b) :
    CollisionFree f [a, b] := by
  intro x hx y hy hxy
  simp only [List.mem_cons, List.not_mem_nil, or_false] at hx hy
  rcases hx with rfl | rfl <;> rcases hy with rfl | rfl
  · rfl
  · exact absurd hxy h
  · exact absurd hxy.symm h
  · rfl

theorem idInputs_exchange (now now' : Int) :
    CollisionFree Sha256.digest (pair.idInputs (exchange now now')) := by
  have hpair := pair.sortedPair_of_sameConversation (sameConversation_callAt "hi" "hello" now now')
  exact collisionFree_pair (congrArg Text.utf8 hpair)

theorem conversationOf_exchange (now now' : Int) :
    pair.conversationOf (callAt .left "hi" now) =
      pair.conversationOf (callAt .right "hello" now') := by
  unfold Users.conversationOf createConversationId
  rw [pair.sortedPair_of_sameConversation (sameConversation_callAt _ _ now now')]

theorem keyInputs_exchange (now now' : Int) :
    CollisionFree (fun x => noble.hkdf x.1 x.2 32) (pair.keyInputs (exchange now now')) := by
  simp only [Users.keyInputs, exchange, List.filterMap_cons, List.filterMap_nil, secretOf_callAt,
    Option.map_some]
  refine collisionFree_pair ?_
  rw [conversationOf_exchange now now']

def pairKey : Octets :=
  [178, 236, 141, 118, 28, 96, 1, 94, 185, 130, 70, 169, 38, 189, 130, 189, 163, 107, 26, 91, 67,
    206, 241, 5, 183, 53, 149, 176, 60, 100, 104, 247]

theorem deriveConversationKey_pair :
    deriveConversationKey noble pairSecret (createConversationId leftAddress rightAddress) =
      pairKey := by
  simp only [deriveConversationKey, createConversationId, noble, Sha256.hkdf_eq_eager,
    Sha256.digest_eq_eager]
  decide +kernel

theorem nonceInputs_exchange (now now' : Int) : pair.nonceInputs (exchange now now') =
    [(pairKey, nonceInfo now), (pairKey, nonceInfo now')] := by
  simp only [Users.nonceInputs, exchange, List.filterMap_cons, List.filterMap_nil, secretOf_callAt,
    Option.map_some]
  rw [← conversationOf_exchange now now']
  show [(deriveConversationKey noble pairSecret (createConversationId leftAddress rightAddress),
      nonceInfo now), (deriveConversationKey noble pairSecret
        (createConversationId leftAddress rightAddress), nonceInfo now')] = _
  rw [deriveConversationKey_pair]

/-- One millisecond apart, the two messages have different nonces. -/
theorem no_nonce_reuse_iff_apart :
    (pair.outgoing (exchange 1700000000000 1700000000001)).Pairwise
      fun m n => ¬Users.Reuses m n := by
  have hnonces : CollisionFree (fun x => noble.hkdf x.1 x.2 12)
      (pair.nonceInputs (exchange 1700000000000 1700000000001)) := by
    rw [nonceInputs_exchange]
    refine collisionFree_of_ne ?_
    rw [noble, Sha256.hkdf_eq_eager]
    decide +kernel
  refine (Users.no_nonce_reuse_iff (toAddress_exchange _ _) (idInputs_exchange _ _)
    (keyInputs_exchange _ _) hnonces).mpr ?_
  refine List.Pairwise.filter _ ?_
  simp [exchange, callAt]

/-- In one millisecond, the two messages have one key and one nonce. -/
theorem nonce_reused_in_one_millisecond :
    (∀ c ∈ exchange 1700000000000 1700000000000, c.toAddress.length = 56) ∧
      CollisionFree Sha256.digest (pair.idInputs (exchange 1700000000000 1700000000000)) ∧
      CollisionFree (fun x => noble.hkdf x.1 x.2 32)
        (pair.keyInputs (exchange 1700000000000 1700000000000)) ∧
      CollisionFree (fun x => noble.hkdf x.1 x.2 12)
        (pair.nonceInputs (exchange 1700000000000 1700000000000)) ∧
      ¬(pair.outgoing (exchange 1700000000000 1700000000000)).Pairwise
        fun m n => ¬Users.Reuses m n := by
  have hnonces : CollisionFree (fun x => noble.hkdf x.1 x.2 12)
      (pair.nonceInputs (exchange 1700000000000 1700000000000)) := by
    rw [nonceInputs_exchange]
    exact collisionFree_pair rfl
  refine ⟨toAddress_exchange _ _, idInputs_exchange _ _, keyInputs_exchange _ _, hnonces, ?_⟩
  intro h
  rw [Users.outgoing, List.pairwise_filterMap, exchange, List.pairwise_cons] at h
  have hleft : callAt .left "hi" 1700000000000 ∈ exchange 1700000000000 1700000000000 := by
    simp [exchange]
  have hright : callAt .right "hello" 1700000000000 ∈ exchange 1700000000000 1700000000000 := by
    simp [exchange]
  have hsendl := pair.send_eq (callAt .left "hi" 1700000000000)
  have hsendr := pair.send_eq (callAt .right "hello" 1700000000000)
  rw [secretOf_callAt, Option.map_some] at hsendl hsendr
  have hreuse := (Users.reuses_iff (toAddress_exchange _ _) (idInputs_exchange _ _)
    (keyInputs_exchange _ _) hnonces hleft hright hsendl hsendr).mpr
      ⟨sameConversation_callAt _ _ _ _, rfl⟩
  exact h.1 _ (List.mem_singleton_self _) _ hsendl _ hsendr hreuse

end Sdk
end Linkora
