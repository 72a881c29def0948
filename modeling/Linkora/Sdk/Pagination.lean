import Linkora.Contract.Graph
import Linkora.Lib.Decoding
import Linkora.Lib.Json

/-!
# Cursor pagination

`packages/sdk/src/pagination.ts`, and the list reads of the generated client that it is used
with.  A cursor is an offset with a version, as JSON in Base64, and a page is the last one if
it is shorter than was asked for.
-/

namespace Linkora
namespace Sdk

inductive ErrorContext where
  | cursor (cursor : String)
  | pageSize (pageSize : Option Number)

structure LinkoraError where
  message : String
  code : String
  context : ErrorContext

/-! ## Cursors -/

/-- Is `atob` a function in this runtime?  Node's `Buffer` is used where it is not. -/
structure Globals where
  atob : Bool

def CURSOR_VERSION : Nat := 1

/-- `JSON.stringify({ v: CURSOR_VERSION, offset })`, for an offset that is a safe integer. -/
def payloadText (offset : Nat) : String :=
  "\x7b\"v\":" ++ toString CURSOR_VERSION ++ ",\"offset\":" ++ toString offset ++ "\x7d"

/-- `btoa` and Node's `Buffer` write the same. -/
def encodeCursor (offset : Nat) : String := Text.toBase64 (Text.utf8 (payloadText offset))

def decodeJson (G : Globals) (token : String) : Option Json.Value :=
  match if G.atob = true then Text.atob token else some (Text.fromBase64 token) with
  | none => none
  | some bytes => Json.parse (Text.decodeUtf8 bytes)

def malformedCursor (cursor : String) : LinkoraError where
  message := "Malformed pagination cursor."
  code := "INVALID_CURSOR"
  context := .cursor cursor

/-- The offset of a payload of the version. -/
def payloadOffset : Json.Value → Option Nat
  | .object members =>
    match Json.property members "v", Json.property members "offset" with
    | some (.number v), some (.number offset) =>
      if v = .finite CURSOR_VERSION ∧ offset.isInteger = true ∧ 0 ≤ offset.toInt then
        some offset.toInt.toNat
      else none
    | _, _ => none
  | _ => none

def decodeCursor (G : Globals) (cursor : String) : Except LinkoraError Nat :=
  match (decodeJson G cursor).bind payloadOffset with
  | some offset => .ok offset
  | none => .error (malformedCursor cursor)

/-! ## Pages -/

structure Page (α : Type) where
  items : List α
  nextCursor : Option String

inductive Thrown (ε : Type) where
  | linkora (e : LinkoraError)
  | fetch (e : ε)

def invalidPageSize (pageSize : Option Number) : LinkoraError where
  message := "pageSize must be a positive integer."
  code := "INVALID_PAGE_SIZE"
  context := .pageSize pageSize

def checkPageSize (pageSize : Option Number) : Except LinkoraError Nat :=
  let size := pageSize.getD (.finite 100)
  if size.isInteger = false ∨ size.toInt ≤ 0 then .error (invalidPageSize pageSize)
  else .ok size.toInt.toNat

section Paging

variable {ε α : Type} (G : Globals) (fetchPage : Nat → Nat → Except ε (List α))

/-- Where a page starts. -/
def startOf : Option String → Except LinkoraError Nat
  | some cursor => decodeCursor G cursor
  | none => .ok 0

def fetchPageWithCursor (cursor : Option String) (pageSize : Option Number) :
    Except (Thrown ε) (Page α) := do
  let limit ← (checkPageSize pageSize).mapError .linkora
  let offset ← (startOf G cursor).mapError .linkora
  let items ← (fetchPage offset limit).mapError .fetch
  return {
    items
    nextCursor :=
      if limit ≤ items.length then some (encodeCursor (offset + items.length)) else none }

/-- What an iteration yields, and the error that it ends with, if any. -/
structure Iteration (ε α : Type) where
  items : List α
  thrown : Option (Thrown ε)

/-- The loop of `paginateList`, for a number of pages that it may still fetch. -/
def iteratePages (pageSize : Option Number) : Nat → Option String → Iteration ε α
  | 0, _ => ⟨[], none⟩
  | pages + 1, cursor =>
    match fetchPageWithCursor G fetchPage cursor pageSize with
    | .error e => ⟨[], some e⟩
    | .ok page =>
      match page.nextCursor with
      | none => ⟨page.items, none⟩
      | some next =>
        let rest := iteratePages pageSize pages (some next)
        ⟨page.items ++ rest.items, rest.thrown⟩

/-- `maxPages` is a whole number. -/
structure PaginationOptions where
  pageSize : Option Number := none
  maxPages : Option Nat := none
  cursor : Option String := none

/-- The first page is fetched in any case. -/
def paginateList (opts : PaginationOptions) : Iteration ε α :=
  iteratePages G fetchPage opts.pageSize (max 1 (opts.maxPages.getD 100)) opts.cursor

end Paging

/-! ## The reads of the client -/

inductive ReadError where
  | notU32 (n : Nat)
  | simulation (panic : Contract.Panic)

def scvU32 (n : Nat) : Except ReadError Nat :=
  if n ≤ Contract.U32_MAX then .ok n else .error (.notU32 n)

def getFollowers (s : Contract.State) (user : Contract.Address) (offset limit : Nat) :
    Except ReadError (List Contract.Address) := do
  let offset ← scvU32 offset
  let limit ← scvU32 limit
  (Contract.getFollowers s user offset limit).mapError .simulation

def getFollowing (s : Contract.State) (user : Contract.Address) (offset limit : Nat) :
    Except ReadError (List Contract.Address) := do
  let offset ← scvU32 offset
  let limit ← scvU32 limit
  (Contract.getFollowing s user offset limit).mapError .simulation

/-- Either read, by the side of the graph that it reads. -/
def listRead (s : Contract.State) (user : Contract.Address) (isFollowing : Bool) :
    Nat → Nat → Except ReadError (List Contract.Address) :=
  if isFollowing then getFollowing s user else getFollowers s user

/-! ## A cursor gives back its offset -/

theorem payloadText_toList (n : Nat) :
    (payloadText n).toList =
      '\x7b' :: '"' :: (['v'] ++ '"' :: ':' :: ((toString 1).toList ++ ',' :: '"' ::
        ("offset".toList ++ '"' :: ':' :: ((toString n).toList ++ '\x7d' :: [])))) := by
  rw [payloadText]
  simp only [String.toList_append, List.append_assoc]
  rfl

theorem ascii_payloadText (n : Nat) : ∀ c ∈ (payloadText n).toList, c.toNat < 128 := by
  intro c hc
  have hdigit : ∀ m : Nat, c ∈ (toString m).toList → c.toNat < 128 := by
    intro m hm
    have hbounds := Scan.digit_cases (Scan.isDigit_of_mem_toString hm)
    omega
  have hplain : c ∈ ['\x7b', '"', 'v', ':', ',', 'o', 'f', 's', 'e', 't', '\x7d'] →
      c.toNat < 128 := by
    intro hmem
    have hall : ∀ d ∈ ['\x7b', '"', 'v', ':', ',', 'o', 'f', 's', 'e', 't', '\x7d'],
        d.toNat < 128 := Text.forall_chars (by decide)
    exact hall c hmem
  rw [payloadText_toList] at hc
  have hoffset : "offset".toList = ['o', 'f', 'f', 's', 'e', 't'] := rfl
  simp only [hoffset, List.mem_cons, List.mem_append, List.not_mem_nil, or_false] at hc
  simp only [List.mem_cons, List.not_mem_nil, or_false] at hplain
  tauto

theorem parse_payloadText (n : Nat) :
    Json.parse (payloadText n).toList =
      some (.object [(Text.utf16 "v", .number (Number.ofRat (1 : Nat))),
        (Text.utf16 "offset", .number (Number.ofRat n))]) := by
  have hlt : (payloadText n).toList.length < (payloadText n).toList.length + 3 := by omega
  rw [Json.parse_fuel hlt, payloadText_toList]
  generalize ('\x7b' :: '"' :: (['v'] ++ '"' :: ':' :: ((toString 1).toList ++ ',' :: '"' ::
    ("offset".toList ++ '"' :: ':' :: ((toString n).toList ++ '\x7d' :: []))))).length = k
  have hoffsetName : ∀ l, Json.readString ("offset".toList ++ '"' :: l) =
      some (Text.utf16 "offset", l) := fun l => rfl
  have hvName : ∀ l, Json.readString (['v'] ++ '"' :: l) = some (Text.utf16 "v", l) := fun l => rfl
  have hoffset := Json.readMember_toString (k + 1) n hoffsetName (c := '\x7d') rfl (by decide) []
  have hv := Json.readMember_toString (k + 1) 1 hvName (c := ',') rfl (by decide)
    ('"' :: ("offset".toList ++ '"' :: ':' :: ((toString n).toList ++ '\x7d' :: [])))
  rw [Json.readValue, Json.dropSpace_cons rfl]
  simp only [if_true, Json.readBracket]
  rw [Json.dropSpace_cons rfl, if_neg (by rw [List.head?_cons]; decide), Json.readItems, hv]
  simp only [Option.bind_eq_bind, Option.bind_some]
  rw [Json.dropSpace_cons rfl]
  simp only [if_true, Json.readItems, hoffset, Option.bind_eq_bind, Option.bind_some]
  rw [Json.dropSpace_cons rfl]
  rfl

theorem decodeJson_encodeCursor (G : Globals) (n : Nat) :
    decodeJson G (encodeCursor n) = Json.parse (payloadText n).toList := by
  have hbytes : (if G.atob = true then Text.atob (encodeCursor n)
      else some (Text.fromBase64 (encodeCursor n))) = some (Text.utf8 (payloadText n)) := by
    split
    · exact Text.atob_toBase64 _
    · exact congrArg some (Text.fromBase64_toBase64 _)
  have hascii : Text.utf8 (payloadText n) = Text.asciiBytes (payloadText n).toList := by
    rw [← Text.utf8_ascii (ascii_payloadText n), String.ofList_toList]
  rw [decodeJson, hbytes, hascii]
  exact congrArg Json.parse (Text.decodeUtf8_ascii (ascii_payloadText n))

/-- A whole number that needs no rounding comes back. -/
theorem decodeCursor_exact (G : Globals) {n : Nat} (hn : Number.ofRat n = .finite n) :
    decodeCursor G (encodeCursor n) = .ok n := by
  have hone : Number.ofRat (1 : Nat) = .finite (1 : Nat) := Number.ofRat_natCast (by decide)
  have hpayload : payloadOffset (.object [(Text.utf16 "v", .number (Number.ofRat (1 : Nat))),
      (Text.utf16 "offset", .number (Number.ofRat n))]) = some n := by
    have hv : Json.property [(Text.utf16 "v", .number (Number.ofRat (1 : Nat))),
        (Text.utf16 "offset", .number (Number.ofRat n))] "v" =
          some (.number (.finite (1 : Nat))) := by
      rw [hone]
      rfl
    have hoffset : Json.property [(Text.utf16 "v", .number (Number.ofRat (1 : Nat))),
        (Text.utf16 "offset", .number (Number.ofRat n))] "offset" =
          some (.number (.finite n)) := by
      rw [hn]
      rfl
    rw [payloadOffset, hv, hoffset]
    simp only [Number.isInteger_natCast, Number.toInt_natCast]
    rw [if_pos ⟨rfl, trivial, Int.natCast_nonneg n⟩, Int.toNat_natCast]
  rw [decodeCursor, decodeJson_encodeCursor, parse_payloadText, Option.bind_some, hpayload]

theorem decodeCursor_encodeCursor (G : Globals) {n : Nat} (hn : n < 2 ^ 53) :
    decodeCursor G (encodeCursor n) = .ok n :=
  decodeCursor_exact G (Number.ofRat_natCast hn)

/-! ## What a cursor is accepted for -/

/-- The token is a payload of the version, with an offset that is an integer and not negative. -/
def Encodes (G : Globals) (token : String) (offset : Nat) : Prop :=
  ∃ members x, decodeJson G token = some (.object members) ∧
    Json.property members "v" = some (.number (.finite CURSOR_VERSION)) ∧
    Json.property members "offset" = some (.number x) ∧ x.isInteger = true ∧ x.toInt = offset

theorem payloadOffset_eq_some {v : Json.Value} {n : Nat} :
    payloadOffset v = some n ↔ ∃ members x, v = .object members ∧
      Json.property members "v" = some (.number (.finite CURSOR_VERSION)) ∧
      Json.property members "offset" = some (.number x) ∧ x.isInteger = true ∧ x.toInt = n := by
  constructor
  · intro h
    cases v with
    | object members =>
      rw [payloadOffset] at h
      split at h
      · rename_i v x hv hx
        split at h
        · rename_i hall
          obtain ⟨rfl, hinteger, hpos⟩ := hall
          have hn : x.toInt = n := by
            rw [← Option.some.inj h, Int.toNat_of_nonneg hpos]
          exact ⟨members, x, rfl, hv, hx, hinteger, hn⟩
        · cases h
      · cases h
    | _ => cases h
  · rintro ⟨members, x, rfl, hv, hx, hinteger, hn⟩
    rw [payloadOffset, hv, hx]
    dsimp only
    rw [if_pos ⟨rfl, hinteger, by rw [hn]; exact Int.natCast_nonneg n⟩, hn, Int.toNat_natCast]

theorem decodeCursor_eq_ok {G : Globals} {token : String} {n : Nat} :
    decodeCursor G token = .ok n ↔ Encodes G token n := by
  have hsome : decodeCursor G token = .ok n ↔
      (decodeJson G token).bind payloadOffset = some n := by
    rw [decodeCursor]
    split
    · rename_i m hm
      rw [hm, Except.ok.injEq, Option.some.injEq]
    · rename_i hnone
      rw [hnone]
      simp
  rw [hsome, Option.bind_eq_some_iff]
  constructor
  · rintro ⟨v, hv, hoffset⟩
    obtain ⟨members, x, rfl, hrest⟩ := payloadOffset_eq_some.mp hoffset
    exact ⟨members, x, hv, hrest⟩
  · rintro ⟨members, x, hv, hrest⟩
    exact ⟨_, hv, payloadOffset_eq_some.mpr ⟨members, x, rfl, hrest⟩⟩

theorem decodeCursor_rejects {G : Globals} {token : String} (h : ∀ n, ¬Encodes G token n) :
    decodeCursor G token = .error (malformedCursor token) := by
  cases hdecode : decodeCursor G token with
  | ok n => exact absurd (decodeCursor_eq_ok.mp hdecode) (h n)
  | error e =>
    rw [decodeCursor] at hdecode
    split at hdecode
    · cases hdecode
    · exact hdecode.symm

end Sdk
end Linkora
