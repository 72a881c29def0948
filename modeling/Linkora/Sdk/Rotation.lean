import Linkora.Lib.Checked
import Linkora.Sdk.Dm

/-!
# Key rotation

The rest of `packages/sdk/src/dm/crypto.ts`: decryption, the rotation of a user's DM key, and
decryption with any of the keys that either user has had.  The text of a message is decoded by
`TextDecoder`, which drops a byte order mark at its beginning.
-/

namespace Linkora
namespace Sdk

/-- Where the errors of decryption come from. -/
inductive DmError where
  | decryption (message : String)
  | plain (message : String)
  deriving DecidableEq

/-- What comes from the relay: bytes that the cipher made, or others. -/
inductive Ciphertext where
  | sealed (s : Sealed)
  | forged (bytes : Octets)

/-- What Node does with bytes that are no text, and the cipher with a ciphertext that it does not
authenticate. -/
structure DecryptRuntime where
  replaceIllFormed : Octets → String
  invalidTag : String

/-- The first code unit of a text is U+FEFF. -/
def startsWithBom (s : String) : Bool := Text.startsWith s "\uFEFF"

/-- `new TextDecoder().decode(bytes)` -/
def decodeText (D : DecryptRuntime) (bytes : Octets) : String :=
  let s := (String.fromUTF8? ⟨bytes.toArray⟩).getD (D.replaceIllFormed bytes)
  if startsWithBom s = true then String.ofList (s.toList.drop 1) else s

/-- `chacha20poly1305(key, nonce).decrypt(ciphertext)` -/
def cipherDecrypt (key nonce : Octets) : Ciphertext → Option Octets
  | .sealed s => if s.key = key ∧ s.nonce = nonce then some s.plaintext else none
  | .forged _ => none

def decryptMessage (P : Primitives) (D : DecryptRuntime) (sharedSecret : Octets)
    (ciphertext : Ciphertext) (conversationId : String) (messageIndex : Int) :
    Except DmError String :=
  let key := deriveConversationKey P sharedSecret conversationId
  match cipherDecrypt key (deriveNonce P key messageIndex) ciphertext with
  | none => .error (.decryption ("Failed to decrypt message: " ++ D.invalidTag))
  | some plaintext => .ok (decodeText D plaintext)

def decryptDirectMessage (P : Primitives) (D : DecryptRuntime)
    (myPrivateKey theirPublicKey : Octets) (myAddress theirAddress : String)
    (ciphertext : Ciphertext) (messageIndex : Int) : Except DmError String :=
  match deriveSharedSecret P myPrivateKey theirPublicKey with
  | .error e => .error (.plain e)
  | .ok sharedSecret =>
    decryptMessage P D sharedSecret ciphertext (createConversationId myAddress theirAddress)
      messageIndex

/-! ## Rotation -/

structure OutboxItem where
  id : String
  plaintext : String
  messageIndex : Int

structure RotatedOutboxItem where
  id : String
  ciphertext : Sealed
  messageIndex : Int

structure KeyRotationEvent where
  oldPublicKey : Octets
  newPublicKey : Octets
  rotatedAt : Int
  reEncryptedOutbox : List RotatedOutboxItem

/-- With the new key pair that is given or generated, and what `Date.now()` returns. -/
def rotateConversationKey (P : Primitives) (currentPrivateKey theirPublicKey : Octets)
    (myAddress theirAddress : String) (newKeyPair : DmKeyPair) (pendingOutbox : List OutboxItem)
    (rotatedAt : Int) : Except String (DmKeyPair × KeyRotationEvent) := do
  let reEncryptedOutbox ← pendingOutbox.mapM fun item => do
    let ciphertext ← encryptDirectMessage P newKeyPair.privateKey theirPublicKey myAddress
      theirAddress item.plaintext item.messageIndex
    return ({ id := item.id, ciphertext, messageIndex := item.messageIndex } : RotatedOutboxItem)
  return (newKeyPair, {
    oldPublicKey := P.getPublicKey currentPrivateKey
    newPublicKey := newKeyPair.publicKey
    rotatedAt
    reEncryptedOutbox })

structure KeyMap where
  currentKey : Octets
  historicalKeys : Option (List Octets)

def KeyMap.keys (m : KeyMap) : List Octets := m.currentKey :: m.historicalKeys.getD []

/-- The pairs of keys in the order in which they are tried. -/
def keyPairs (myPrivateKeyMap theirPublicKeyMap : KeyMap) : List (Octets × Octets) :=
  myPrivateKeyMap.keys.flatMap fun myPriv =>
    theirPublicKeyMap.keys.map fun theirPub => (myPriv, theirPub)

/-- The error that is thrown after the last pair has failed. -/
def finalError : Option DmError → DmError
  | some (.decryption message) => .decryption message
  | some (.plain message) => .decryption
      ("Failed to decrypt message with active or historical keys: Error: " ++ message)
  | none => .decryption "Failed to decrypt message with active or historical keys: null"

def tryPairs (P : Primitives) (D : DecryptRuntime) (myAddress theirAddress : String)
    (ciphertext : Ciphertext) (messageIndex : Int) :
    List (Octets × Octets) → Option DmError → Except DmError String
  | [], lastError => .error (finalError lastError)
  | (myPriv, theirPub) :: rest, _ =>
    match decryptDirectMessage P D myPriv theirPub myAddress theirAddress ciphertext
        messageIndex with
    | .ok plaintext => .ok plaintext
    | .error e => tryPairs P D myAddress theirAddress ciphertext messageIndex rest (some e)

def decryptDirectMessageWithGracePeriod (P : Primitives) (D : DecryptRuntime)
    (myPrivateKeyMap theirPublicKeyMap : KeyMap) (myAddress theirAddress : String)
    (ciphertext : Ciphertext) (messageIndex : Int) : Except DmError String :=
  tryPairs P D myAddress theirAddress ciphertext messageIndex
    (keyPairs myPrivateKeyMap theirPublicKeyMap) none

/-! ## Texts -/

variable {P : Primitives} {D : DecryptRuntime}

theorem decodeText_utf8 (D : DecryptRuntime) (s : String) : decodeText D (Text.utf8 s) =
    if startsWithBom s = true then String.ofList (s.toList.drop 1) else s := by
  have hbytes : (⟨(Text.utf8 s).toArray⟩ : ByteArray) = s.toUTF8 := by
    rw [Text.utf8]
  have hdecode : String.fromUTF8? ⟨(Text.utf8 s).toArray⟩ = some s := by
    rw [hbytes, String.fromUTF8?, String.toUTF8_eq_toByteArray, dif_pos s.isValidUTF8]
    rfl
  rw [decodeText, hdecode]
  rfl

/-- The text comes back unless it begins with a byte order mark. -/
theorem decodeText_utf8_iff (D : DecryptRuntime) (s : String) :
    decodeText D (Text.utf8 s) = s ↔ startsWithBom s = false := by
  rw [decodeText_utf8]
  constructor
  · intro h
    by_contra hbom
    rw [Bool.not_eq_false] at hbom
    rw [if_pos hbom] at h
    obtain ⟨rest, hrest⟩ := of_decide_eq_true hbom
    have hlength := congrArg (fun t => t.toList.length) h
    simp [← hrest] at hlength
  · intro h
    rw [if_neg (by rw [h]; exact Bool.false_ne_true)]

/-! ## Trying the pairs -/

/-- A pair of keys derives the key and the nonce under which a message was sealed. -/
def Opens (P : Primitives) (myAddress theirAddress : String) (messageIndex : Int) (s : Sealed)
    (pair : Octets × Octets) : Prop :=
  ∃ secret, deriveSharedSecret P pair.1 pair.2 = .ok secret ∧
    s.key = deriveConversationKey P secret (createConversationId myAddress theirAddress) ∧
    s.nonce = deriveNonce P s.key messageIndex

section

variable {myAddress theirAddress : String} {messageIndex : Int} {s : Sealed}
  {pair : Octets × Octets} {pairs : List (Octets × Octets)} {last : Option DmError}

theorem decrypt_of_opens (h : Opens P myAddress theirAddress messageIndex s pair) :
    decryptDirectMessage P D pair.1 pair.2 myAddress theirAddress (.sealed s) messageIndex =
      .ok (decodeText D s.plaintext) := by
  obtain ⟨secret, hsecret, hkey, hnonce⟩ := h
  rw [decryptDirectMessage, hsecret]
  show decryptMessage P D secret _ _ _ = _
  rw [decryptMessage, cipherDecrypt, ← hkey, if_pos ⟨rfl, hnonce⟩]

theorem decrypt_of_not_opens (h : ¬Opens P myAddress theirAddress messageIndex s pair) : ∃ e,
    decryptDirectMessage P D pair.1 pair.2 myAddress theirAddress (.sealed s) messageIndex =
      .error e := by
  rw [decryptDirectMessage]
  cases hsecret : deriveSharedSecret P pair.1 pair.2 with
  | error e => exact ⟨_, rfl⟩
  | ok secret =>
    show ∃ e, decryptMessage P D secret _ _ _ = .error e
    rw [decryptMessage, cipherDecrypt, if_neg]
    · exact ⟨_, rfl⟩
    · rintro ⟨hkey, hnonce⟩
      rw [← hkey] at hnonce
      exact h ⟨secret, hsecret, hkey, hnonce⟩

theorem decrypt_forged (bytes : Octets) : ∃ e,
    decryptDirectMessage P D pair.1 pair.2 myAddress theirAddress (.forged bytes) messageIndex =
      .error e := by
  rw [decryptDirectMessage]
  cases deriveSharedSecret P pair.1 pair.2 with
  | error e => exact ⟨_, rfl⟩
  | ok secret => exact ⟨_, rfl⟩

/-- One pair that opens the message is enough: those before it fail, or open it too. -/
theorem tryPairs_of_opens (hmem : pair ∈ pairs)
    (h : Opens P myAddress theirAddress messageIndex s pair) :
    tryPairs P D myAddress theirAddress (.sealed s) messageIndex pairs last =
      .ok (decodeText D s.plaintext) := by
  induction pairs generalizing last with
  | nil => cases hmem
  | cons first rest ih =>
    rw [tryPairs]
    by_cases hfirst : Opens P myAddress theirAddress messageIndex s first
    · rw [decrypt_of_opens hfirst]
    · obtain ⟨e, he⟩ := decrypt_of_not_opens (D := D) hfirst
      rw [he]
      rcases List.mem_cons.mp hmem with rfl | hrest
      · exact absurd h hfirst
      · exact ih hrest

theorem finalError_decryption (last : Option DmError) :
    ∃ message, finalError last = .decryption message := by
  cases last with
  | none => exact ⟨_, rfl⟩
  | some e => cases e <;> exact ⟨_, rfl⟩

theorem tryPairs_of_fails {c : Ciphertext} (h : ∀ pair ∈ pairs, ∃ e,
    decryptDirectMessage P D pair.1 pair.2 myAddress theirAddress c messageIndex = .error e) :
    ∃ message, tryPairs P D myAddress theirAddress c messageIndex pairs last =
      .error (.decryption message) := by
  induction pairs generalizing last with
  | nil =>
    obtain ⟨message, hmessage⟩ := finalError_decryption last
    exact ⟨message, congrArg _ hmessage⟩
  | cons first rest ih =>
    obtain ⟨e, he⟩ := h first List.mem_cons_self
    rw [tryPairs, he]
    exact ih fun pair hpair => h pair (List.mem_cons_of_mem _ hpair)

end

/-! ## Round trips -/

theorem createConversationId_comm (a b : String) :
    createConversationId a b = createConversationId b a := by
  rw [createConversationId, sortedPair_comm, createConversationId]

theorem mem_keyPairs {my their : KeyMap} {a b : Octets} :
    (b, a) ∈ keyPairs my their ↔ b ∈ my.keys ∧ a ∈ their.keys := by
  simp [keyPairs]

section

variable {a b : Octets} {my their : KeyMap} {sender receiver plaintext : String}
  {messageIndex : Int} {s : Sealed}

/-- The receiver's private key with the sender's public key opens what the sender sealed. -/
theorem opens_of_encrypt (ha : (P.getPublicKey a).length = 32) (hb : b.length = 32)
    (hagree : P.getSharedSecret a (P.getPublicKey b) = P.getSharedSecret b (P.getPublicKey a))
    (hs : encryptDirectMessage P a (P.getPublicKey b) sender receiver plaintext messageIndex =
      .ok s) :
    Opens P receiver sender messageIndex s (b, P.getPublicKey a) ∧
      s.plaintext = Text.utf8 plaintext := by
  rw [encryptDirectMessage] at hs
  cases hsecret : deriveSharedSecret P a (P.getPublicKey b) with
  | error e =>
    rw [hsecret] at hs
    cases hs
  | ok secret =>
    rw [hsecret] at hs
    obtain rfl := Except.ok.inj hs
    have hshared := Users.getSharedSecret_of_derive hsecret
    refine ⟨⟨secret, ?_, ?_, rfl⟩, rfl⟩
    · rw [deriveSharedSecret, if_neg (by simp [ha, hb]), ← hagree, hshared]
    · rw [createConversationId_comm]
      rfl

theorem decrypts_iff (ha : (P.getPublicKey a).length = 32) (hb : b.length = 32)
    (hagree : P.getSharedSecret a (P.getPublicKey b) = P.getSharedSecret b (P.getPublicKey a))
    (hmy : b ∈ my.keys) (htheir : P.getPublicKey a ∈ their.keys)
    (hs : encryptDirectMessage P a (P.getPublicKey b) sender receiver plaintext messageIndex =
      .ok s) :
    decryptDirectMessageWithGracePeriod P D my their receiver sender (.sealed s) messageIndex =
      .ok plaintext ↔ startsWithBom plaintext = false := by
  obtain ⟨hopens, hplain⟩ := opens_of_encrypt ha hb hagree hs
  rw [decryptDirectMessageWithGracePeriod,
    tryPairs_of_opens (mem_keyPairs.mpr ⟨hmy, htheir⟩) hopens, hplain, Except.ok.injEq]
  exact decodeText_utf8_iff D plaintext

theorem rotated_items {items : List OutboxItem} {current : Octets} {newKeyPair : DmKeyPair}
    {rotatedAt : Int} {r : DmKeyPair × KeyRotationEvent}
    (h : rotateConversationKey P current (P.getPublicKey b) sender receiver newKeyPair items
      rotatedAt = .ok r) :
    List.Forall₂ (fun item (out : RotatedOutboxItem) => out.id = item.id ∧
      out.messageIndex = item.messageIndex ∧
      encryptDirectMessage P newKeyPair.privateKey (P.getPublicKey b) sender receiver
        item.plaintext item.messageIndex = .ok out.ciphertext) items r.2.reEncryptedOutbox := by
  rw [rotateConversationKey] at h
  obtain ⟨outs, houts, h⟩ := Checked.bind_eq_ok.mp h
  obtain rfl := Checked.pure_eq_ok.mp h
  refine (Checked.forall₂_of_mapM houts).imp fun item out hout => ?_
  obtain ⟨ciphertext, hciphertext, hout⟩ := Checked.bind_eq_ok.mp hout
  obtain rfl := Checked.pure_eq_ok.mp hout
  exact ⟨rfl, rfl, hciphertext⟩

/-- A message sealed under a private key of the sender for a public key of the receiver comes
back, if the receiver holds the matching keys, exactly if its text does not begin with a byte
order mark.  So do the messages that a rotation seals again.  What no pair of keys opens is
refused. -/
theorem dm_round_trip_iff (ha : (P.getPublicKey a).length = 32) (hb : b.length = 32)
    (hagree : P.getSharedSecret a (P.getPublicKey b) = P.getSharedSecret b (P.getPublicKey a))
    (hmy : b ∈ my.keys) (htheir : P.getPublicKey a ∈ their.keys)
    (hs : encryptDirectMessage P a (P.getPublicKey b) sender receiver plaintext messageIndex =
      .ok s) :
    (decryptDirectMessageWithGracePeriod P D my their receiver sender (.sealed s) messageIndex =
      .ok plaintext ↔ startsWithBom plaintext = false) ∧
    (∀ current newKeyPair items rotatedAt r, newKeyPair.privateKey = a →
      rotateConversationKey P current (P.getPublicKey b) sender receiver newKeyPair items
        rotatedAt = .ok r →
      List.Forall₂ (fun item (out : RotatedOutboxItem) => out.id = item.id ∧
        out.messageIndex = item.messageIndex ∧
        (decryptDirectMessageWithGracePeriod P D my their receiver sender
          (.sealed out.ciphertext) out.messageIndex = .ok item.plaintext ↔
            startsWithBom item.plaintext = false)) items r.2.reEncryptedOutbox) ∧
    ∀ myKeys theirKeys myAddress theirAddress index c,
      (∀ t, c = .sealed t → ∀ pair ∈ keyPairs myKeys theirKeys,
        ¬Opens P myAddress theirAddress index t pair) →
      ∃ message, decryptDirectMessageWithGracePeriod P D myKeys theirKeys myAddress theirAddress c
        index = .error (.decryption message) := by
  refine ⟨decrypts_iff ha hb hagree hmy htheir hs, ?_, ?_⟩
  · rintro current newKeyPair items rotatedAt r rfl hr
    refine (rotated_items hr).imp fun item out hout => ?_
    obtain ⟨hid, hindex, hciphertext⟩ := hout
    refine ⟨hid, hindex, ?_⟩
    rw [hindex]
    exact decrypts_iff ha hb hagree hmy htheir hciphertext
  · intro myKeys theirKeys myAddress theirAddress index c hclosed
    refine tryPairs_of_fails fun pair hpair => ?_
    cases c with
    | sealed t => exact decrypt_of_not_opens (hclosed t rfl pair hpair)
    | forged bytes => exact decrypt_forged bytes

end

/-! ## Two users -/

def strictRuntime : DecryptRuntime where
  replaceIllFormed _ := "\uFFFD"
  invalidTag := "invalid tag"

theorem left_seals (plaintext : String) : ∃ s, encryptDirectMessage noble leftKey
    (noble.getPublicKey rightKey) leftAddress rightAddress plaintext 1 = .ok s := by
  have hsecret : deriveSharedSecret noble leftKey (noble.getPublicKey rightKey) =
      .ok pairSecret := by
    rw [getPublicKey_right, deriveSharedSecret, getSharedSecret_left]
    rfl
  rw [encryptDirectMessage, hsecret]
  exact ⟨_, rfl⟩

theorem left_right_agree : noble.getSharedSecret leftKey (noble.getPublicKey rightKey) =
    noble.getSharedSecret rightKey (noble.getPublicKey leftKey) := by
  rw [getPublicKey_right, getPublicKey_left, getSharedSecret_left, getSharedSecret_right]

theorem length_public_left : (noble.getPublicKey leftKey).length = 32 := by
  rw [getPublicKey_left]
  rfl

theorem length_right : rightKey.length = 32 := by
  rw [rightKey, List.length_replicate]

/-- The receiver has rotated to another key since, and still holds the old one. -/
def rotatedKeys : KeyMap := ⟨leftKey, some [rightKey]⟩

def publicKeys : KeyMap := ⟨noble.getPublicKey leftKey, none⟩

theorem right_mem_rotatedKeys : rightKey ∈ rotatedKeys.keys :=
  List.mem_cons_of_mem _ List.mem_cons_self

theorem left_mem_publicKeys : noble.getPublicKey leftKey ∈ publicKeys.keys := by
  simp only [publicKeys, KeyMap.keys, List.mem_cons, true_or]

theorem dm_round_trip_iff_rotated : ∃ s, encryptDirectMessage noble leftKey
      (noble.getPublicKey rightKey) leftAddress rightAddress "hi" 1 = .ok s ∧
    (decryptDirectMessageWithGracePeriod noble strictRuntime rotatedKeys
      publicKeys rightAddress leftAddress (.sealed s) 1 = .ok "hi" ↔
        startsWithBom "hi" = false) := by
  obtain ⟨s, hs⟩ := left_seals "hi"
  have hiff := dm_round_trip_iff (D := strictRuntime) length_public_left length_right
    left_right_agree right_mem_rotatedKeys left_mem_publicKeys hs
  exact ⟨s, hs, hiff.1⟩

/-- The message comes back without its first character. -/
theorem bom_lost : ∃ s, encryptDirectMessage noble leftKey (noble.getPublicKey rightKey)
      leftAddress rightAddress "\uFEFFhi" 1 = .ok s ∧
    decryptDirectMessageWithGracePeriod noble strictRuntime rotatedKeys
      publicKeys rightAddress leftAddress (.sealed s) 1 ≠
        .ok "\uFEFFhi" := by
  obtain ⟨s, hs⟩ := left_seals "\uFEFFhi"
  refine ⟨s, hs, fun hback => ?_⟩
  have hbom := (decrypts_iff length_public_left length_right left_right_agree
    right_mem_rotatedKeys left_mem_publicKeys hs).mp hback
  have htrue : startsWithBom "\uFEFFhi" = true := by decide
  rw [htrue] at hbom
  cases hbom

end Sdk
end Linkora
