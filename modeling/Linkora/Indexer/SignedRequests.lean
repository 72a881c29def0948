import Linkora.Indexer.Fanout
import Linkora.Indexer.StellarAuth
import Linkora.Indexer.Strkey
import Linkora.Lib.Decimal

/-!
# What a signed message binds

`packages/types/src/auth.ts`: the parts of a request are joined by colons.  The path is the only
part that may have colons of its own, so the others are read off from both ends.
-/

namespace Linkora
namespace Indexer

/-- The parts of a request that go into its message, the path as it stands in the request. -/
structure RequestParts where
  method : String
  rawPath : String
  address : String
  timestamp : Decimal
  bodyHash : String

/-- `buildAuthMessage` of the canonical path; `toUpperCase` is the one of the platform. -/
def RequestParts.message (toUpperCase : String → String) (r : RequestParts) : String :=
  AUTH_MESSAGE_VERSION ++ ":" ++ toUpperCase r.method ++ ":" ++ canonicalizeAuthPath r.rawPath ++
    ":" ++ r.address ++ ":" ++ r.timestamp.text ++ ":" ++ r.bodyHash

theorem message_toUpper (r : RequestParts) : r.message String.toUpper =
    buildAuthMessage r.method (canonicalizeAuthPath r.rawPath) r.address r.timestamp.text
      r.bodyHash := rfl

/-- The path up to its query string and its trailing slashes. -/
def pathOf (rawPath : String) : List Char :=
  (rawPath.toList.takeWhile (· ≠ '?')).rdropWhile (· = '/')

/-! ## Canonical paths -/

theorem canonicalizeAuthPath_toList (rawPath : String) : (canonicalizeAuthPath rawPath).toList =
    if pathOf rawPath = [] then ['/'] else pathOf rawPath := by
  show (if pathOf rawPath = [] then "/" else String.ofList (pathOf rawPath)).toList = _
  split
  · rfl
  · exact String.toList_ofList

theorem pathOf_last (rawPath : String) (l : List Char) : pathOf rawPath ≠ l ++ ['/'] := by
  intro h
  have hne : pathOf rawPath ≠ [] := by
    rw [h]
    exact List.append_ne_nil_of_right_ne_nil l (List.cons_ne_nil _ _)
  have hlast := List.rdropWhile_last_not (· = '/') (rawPath.toList.takeWhile (· ≠ '?')) hne
  apply hlast
  have hslash : (pathOf rawPath).getLast hne = '/' := by
    simp only [h]
    exact List.getLast_concat
  exact decide_eq_true hslash

theorem canonicalizeAuthPath_eq_iff (p q : String) :
    canonicalizeAuthPath p = canonicalizeAuthPath q ↔ pathOf p = pathOf q := by
  rw [← String.toList_inj, canonicalizeAuthPath_toList, canonicalizeAuthPath_toList]
  constructor
  · intro h
    split at h
    · rename_i hp
      split at h
      · rename_i hq
        rw [hp, hq]
      · exact absurd h.symm (pathOf_last q [])
    · split at h
      · exact absurd h (pathOf_last p [])
      · exact h
  · intro h
    rw [h]

/-- A canonical path has no query string, and no trailing slash but for the root. -/
theorem pathOf_canonical (p : String) : pathOf (canonicalizeAuthPath p) = pathOf p := by
  have hquery : ∀ c ∈ pathOf p, c ≠ '?' := by
    intro c hc
    have hin : c ∈ p.toList.takeWhile (· ≠ '?') := (List.rdropWhile_prefix _ _).subset hc
    have hkept : decide (c ≠ '?') = true :=
      List.mem_takeWhile_imp (p := fun c => decide (c ≠ '?')) hin
    exact of_decide_eq_true hkept
  rw [pathOf, canonicalizeAuthPath_toList]
  split
  · rename_i hnil
    rw [hnil]
    decide
  · rw [List.takeWhile_eq_self_iff.mpr fun c hc => decide_eq_true (hquery c hc)]
    refine List.rdropWhile_eq_self_iff.mpr fun hne hslash => ?_
    have hlast := List.dropLast_append_getLast hne
    rw [of_decide_eq_true hslash] at hlast
    exact pathOf_last p _ hlast.symm

theorem canonicalizeAuthPath_idem (p : String) :
    canonicalizeAuthPath (canonicalizeAuthPath p) = canonicalizeAuthPath p :=
  (canonicalizeAuthPath_eq_iff _ _).mpr (pathOf_canonical p)

/-! ## Messages -/

/-- `Keypair.fromPublicKey` accepts the address. -/
def acceptedAddress (address : String) : Prop := ∃ key, address = strkey (.account key)

def isHex64 (hash : String) : Prop :=
  hash.length = 64 ∧ ∀ c ∈ hash.toList, c.isDigit = true ∨ c ∈ "abcdef".toList

theorem colon_not_mem_strkey (a : Contract.Address) : ':' ∉ (strkey a).toList := by
  have hchars : ∀ d < 32, base32Char d ≠ ':' := by decide
  rw [strkey, String.toList_ofList]
  intro hmem
  obtain ⟨d, hd, heq⟩ := List.mem_map.mp hmem
  exact hchars d (baseDigits_lt (by decide) 56 _ d hd) heq

theorem colon_not_mem_isHex64 {hash : String} (h : isHex64 hash) : ':' ∉ hash.toList := by
  intro hmem
  rcases h.2 _ hmem with h | h
  · exact absurd h (by decide)
  · exact absurd h (by decide)

/-- The parts of a request but for the path, which the server accepts. -/
structure RequestParts.Accepted (toUpperCase : String → String) (r : RequestParts) : Prop where
  method : ':' ∉ (toUpperCase r.method).toList
  address : acceptedAddress r.address
  bodyHash : isHex64 r.bodyHash

section

variable {toUpperCase : String → String} {r r' : RequestParts}

theorem message_toList (r : RequestParts) : (r.message toUpperCase).toList =
    'v' :: '1' :: ':' :: ((toUpperCase r.method).toList ++ ':' ::
      ((canonicalizeAuthPath r.rawPath).toList ++ ':' :: (r.address.toList ++ ':' ::
        (r.timestamp.text.toList ++ ':' :: r.bodyHash.toList)))) := by
  have hversion : AUTH_MESSAGE_VERSION.toList = ['v', '1'] := rfl
  have hcolon : ":".toList = [':'] := rfl
  simp only [RequestParts.message, String.toList_append, hversion, hcolon, List.append_assoc,
    List.cons_append, List.nil_append]

/-- Three parts without a colon are read off the end. -/
theorem last_parts_inj {p a b c p' a' b' c' : List Char} (ha : ':' ∉ a) (hb : ':' ∉ b)
    (hc : ':' ∉ c) (ha' : ':' ∉ a') (hb' : ':' ∉ b') (hc' : ':' ∉ c')
    (h : p ++ ':' :: (a ++ ':' :: (b ++ ':' :: c)) =
      p' ++ ':' :: (a' ++ ':' :: (b' ++ ':' :: c'))) : p = p' ∧ a = a' ∧ b = b' ∧ c = c' := by
  have hshape : ∀ p a b c : List Char, p ++ ':' :: (a ++ ':' :: (b ++ ':' :: c)) =
      p ++ ':' :: a ++ ':' :: b ++ ':' :: c := fun p a b c => by simp
  rw [hshape, hshape] at h
  obtain ⟨hpab, hcc⟩ := Text.append_cons_inj_last hc hc' h
  obtain ⟨hpa, hbb⟩ := Text.append_cons_inj_last hb hb' hpab
  obtain ⟨hpp, haa⟩ := Text.append_cons_inj_last ha ha' hpa
  exact ⟨hpp, haa, hbb, hcc⟩

theorem parts_of_message (h : r.Accepted toUpperCase) (h' : r'.Accepted toUpperCase)
    (hsame : r.message toUpperCase = r'.message toUpperCase) :
    toUpperCase r.method = toUpperCase r'.method ∧ pathOf r.rawPath = pathOf r'.rawPath ∧
      r.address = r'.address ∧ r.timestamp = r'.timestamp ∧ r.bodyHash = r'.bodyHash := by
  have haddress : ∀ {s}, acceptedAddress s → ':' ∉ s.toList := by
    rintro s ⟨key, rfl⟩
    exact colon_not_mem_strkey _
  have htime : ∀ x : Decimal, ':' ∉ x.text.toList := fun x => x.not_mem_text (by decide)
  have hlists := congrArg String.toList hsame
  rw [message_toList, message_toList] at hlists
  have hbehind := (List.cons.inj (List.cons.inj (List.cons.inj hlists).2).2).2
  obtain ⟨hmethod, hrest⟩ := Text.append_cons_inj h.method h'.method hbehind
  obtain ⟨hpath, haddr, htext, hhash⟩ := last_parts_inj (haddress h.address) (htime r.timestamp)
    (colon_not_mem_isHex64 h.bodyHash) (haddress h'.address) (htime r'.timestamp)
    (colon_not_mem_isHex64 h'.bodyHash) hrest
  exact ⟨String.toList_inj.mp hmethod,
    (canonicalizeAuthPath_eq_iff _ _).mp (String.toList_inj.mp hpath), String.toList_inj.mp haddr,
    Decimal.text_injective (String.toList_inj.mp htext), String.toList_inj.mp hhash⟩

theorem message_ne_ws (r : RequestParts) (address timestamp : String) :
    r.message toUpperCase ≠ buildWsAuthMessage address timestamp := by
  intro h
  have hlists := congrArg String.toList h
  have hws : (buildWsAuthMessage address timestamp).toList =
      "WS:AUTH:".toList ++ (address.toList ++ ":".toList ++ timestamp.toList) := by
    simp only [buildWsAuthMessage, String.toList_append, List.append_assoc]
  rw [message_toList, hws] at hlists
  exact absurd (List.cons.inj hlists).1 (by decide)

/-- Messages are equal just if all parts are, the path up to its query string and its trailing
slashes.  A canonical path stays as it is, and no message is one for a socket. -/
theorem message_binds_request (h : r.Accepted toUpperCase) (h' : r'.Accepted toUpperCase) :
    (r.message toUpperCase = r'.message toUpperCase ↔
      toUpperCase r.method = toUpperCase r'.method ∧ pathOf r.rawPath = pathOf r'.rawPath ∧
        r.address = r'.address ∧ r.timestamp = r'.timestamp ∧ r.bodyHash = r'.bodyHash) ∧
      (∀ path, canonicalizeAuthPath (canonicalizeAuthPath path) = canonicalizeAuthPath path) ∧
        ∀ (q : RequestParts) (address timestamp : String),
          q.message toUpperCase ≠ buildWsAuthMessage address timestamp := by
  refine ⟨⟨parts_of_message h h', fun ⟨hmethod, hpath, haddress, htime, hhash⟩ => ?_⟩,
    canonicalizeAuthPath_idem, message_ne_ws⟩
  rw [RequestParts.message, RequestParts.message, hmethod,
    (canonicalizeAuthPath_eq_iff _ _).mpr hpath, haddress, htime, hhash]

end

def noon : Decimal where
  negative := false
  digits := ['1', '7', '2']
  point := 13
  isDigit := Text.forall_chars (by decide)
  head_ne := by decide
  last_ne := by decide
  zero h := by cases h

/-- `toUpperCase` on ASCII. -/
def upperAscii (s : String) : String := String.ofList (s.toList.map Char.toUpper)

/-- A request to a path, of one account at one time. -/
def requestTo (method rawPath : String) : RequestParts :=
  ⟨method, rawPath, strkey (.account 7), noon, String.ofList (List.replicate 64 '0')⟩

theorem accepted_requestTo {method : String} (h : ':' ∉ (upperAscii method).toList)
    (rawPath : String) : (requestTo method rawPath).Accepted upperAscii := by
  refine ⟨h, ⟨7, rfl⟩, ?_, fun c hc => ?_⟩
  · rw [requestTo, String.length_ofList, List.length_replicate]
  · rw [requestTo, String.toList_ofList] at hc
    rw [List.eq_of_mem_replicate hc]
    exact .inl rfl

theorem message_binds_request_colon :
    ¬(requestTo "get" "/api/a:b?x=1").message upperAscii =
      (requestTo "get" "/api/a:c").message upperAscii := by
  intro h
  have hpaths := ((message_binds_request (accepted_requestTo (by decide) "/api/a:b?x=1")
    (accepted_requestTo (by decide) "/api/a:c")).1.mp h).2.1
  exact absurd hpaths (by decide)

/-- A method with a colon can take over the beginning of the path. -/
theorem colon_in_method :
    (requestTo "GET:/A" "/b").message upperAscii = (requestTo "GET" "/A:/b").message upperAscii ∧
      upperAscii "GET:/A" ≠ upperAscii "GET" := by
  have hfront : ∀ l : List Char, (upperAscii "GET:/A").toList ++ ':' ::
      ((canonicalizeAuthPath "/b").toList ++ ':' :: l) = (upperAscii "GET").toList ++ ':' ::
        ((canonicalizeAuthPath "/A:/b").toList ++ ':' :: l) := fun l => rfl
  constructor
  · rw [← String.toList_inj, message_toList, message_toList]
    exact congrArg (fun l => 'v' :: '1' :: ':' :: l) (hfront _)
  · decide

end Indexer
end Linkora
