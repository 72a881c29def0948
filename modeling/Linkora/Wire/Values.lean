import Linkora.Indexer.Strkey

/-!
# Contract values on the JavaScript side

The values that the fields of an event carry, what `scValToNative` makes of them, and how
JavaScript reads one type as another.
-/

namespace Linkora
namespace Wire

open Contract (Address Bytes)

/-- A value of an event field.  A unit variant is written as a vector of its name, and a
Soroban string is its text. -/
inductive ScVal where
  | u32 (n : Nat)
  | u64 (n : Nat)
  | i128 (z : Int)
  | bool (b : Bool)
  | symbol (s : String)
  | string (s : String)
  | address (a : Address)
  | bytes (b : Bytes)
  | addresses (as : List Address)
  | unit (variant : String)
  deriving DecidableEq

inductive JsScalar where
  | undefined
  | boolean (b : Bool)
  | number (z : Int)
  | bigint (z : Int)
  | string (s : String)
  | bytes (b : Bytes)
  deriving DecidableEq

inductive JsValue where
  | scalar (v : JsScalar)
  | array (items : List JsScalar)
  deriving DecidableEq

def JsValue.undefined : JsValue := .scalar .undefined

def scValToNative : ScVal → JsValue
  | .u32 n => .scalar (.number n)
  | .u64 n => .scalar (.bigint n)
  | .i128 z => .scalar (.bigint z)
  | .bool b => .scalar (.boolean b)
  | .symbol s => .scalar (.string s)
  | .string s => .scalar (.string s)
  | .address a => .scalar (.string (Indexer.strkey a))
  | .bytes b => .scalar (.bytes b)
  | .addresses as => .array (as.map fun a => .string (Indexer.strkey a))
  | .unit variant => .array [.string variant]

/-! ## Conversions -/

/-- `String(value)` -/
def JsScalar.text : JsScalar → String
  | .undefined => "undefined"
  | .boolean b => if b then "true" else "false"
  | .number z => toString z
  | .bigint z => toString z
  | .string s => s
  | .bytes b => ",".intercalate (b.map fun byte => toString byte.toNat)

/-- Undefined items are left blank. -/
def JsValue.text : JsValue → String
  | .scalar v => v.text
  | .array items => ",".intercalate (items.map fun v => if v = .undefined then "" else v.text)

def isBlank (c : Char) : Bool :=
  c.toNat ∈ [9, 10, 11, 12, 13, 32, 0xa0, 0x1680, 0x2028, 0x2029, 0x202f, 0x205f, 0x3000, 0xfeff]
    || (0x2000 ≤ c.toNat && c.toNat ≤ 0x200a)

def digitsValue (digits : List Char) : Option Nat :=
  if digits ≠ [] ∧ digits.all Char.isDigit = true then
    some (digits.foldl (fun n c => 10 * n + (c.toNat - 48)) 0)
  else none

/-- The value of a text with a decimal integer, blanks around it allowed.  The texts that are
read as numbers here are decimal or no numbers at all. -/
def integerOfText (text : String) : Option Int :=
  match ((text.toList.dropWhile isBlank).reverse.dropWhile isBlank).reverse with
  | [] => some 0
  | '-' :: digits => (digitsValue digits).map fun n => -(n : Int)
  | '+' :: digits => (digitsValue digits).map Int.ofNat
  | digits => (digitsValue digits).map Int.ofNat

/-- The double that is closest to `n`; of two the even one. -/
def toDouble (n : Nat) : Nat :=
  if n < 2 ^ 53 then n
  else
    let unit := 2 ^ (n.log2 - 52)
    let low := n / unit
    let rest := n % unit
    if 2 * rest < unit ∨ (2 * rest = unit ∧ low % 2 = 0) then low * unit else (low + 1) * unit

/-- `Number(value)`, with none for `NaN`. -/
def JsValue.number : JsValue → Option Int
  | .scalar .undefined => none
  | .scalar (.boolean b) => some (if b then 1 else 0)
  | .scalar (.number z) => some z
  | .scalar (.bigint z) => some (z.sign * toDouble z.natAbs)
  | v => (integerOfText v.text).map fun z => z.sign * toDouble z.natAbs

/-- `BigInt(String(value))`, which throws if there is no integer in the text. -/
def JsValue.bigInt : JsValue → Option Int
  | .scalar (.bigint z) => some z
  | v => integerOfText v.text

/-- `Boolean(value)` -/
def JsValue.truthy : JsValue → Bool
  | .scalar .undefined => false
  | .scalar (.boolean b) => b
  | .scalar (.number z) => z ≠ 0
  | .scalar (.bigint z) => z ≠ 0
  | .scalar (.string s) => s ≠ ""
  | .scalar (.bytes _) => true
  | .array _ => true

def base64Char (n : Nat) : Char :=
  Char.ofNat (if n < 26 then 65 + n else if n < 52 then 71 + n else if n < 62 then n - 4
    else if n = 62 then 43 else 47)

/-- Three bytes at a time as four characters, the last ones filled up with `=`. -/
def base64Chars : Bytes → List Char
  | [] => []
  | [a] => [base64Char (a.toNat / 4), base64Char (a.toNat % 4 * 16), '=', '=']
  | [a, b] =>
    [base64Char (a.toNat / 4), base64Char (a.toNat % 4 * 16 + b.toNat / 16),
      base64Char (b.toNat % 16 * 4), '=']
  | a :: b :: c :: rest =>
    base64Char (a.toNat / 4) :: base64Char (a.toNat % 4 * 16 + b.toNat / 16) ::
      base64Char (b.toNat % 16 * 4 + c.toNat / 64) :: base64Char (c.toNat % 64) ::
        base64Chars rest

/-- `Buffer.from(value).toString("base64")` -/
def base64 (b : Bytes) : String := String.ofList (base64Chars b)

example : base64 [76, 105, 110, 107] = "TGluaw==" := by decide

/-! ## Objects -/

/-- The own properties of an object, of which the last with a name counts. -/
abbrev Payload := List (String × JsValue)

def Payload.get (payload : Payload) (name : String) : JsValue :=
  match payload.reverse.find? fun entry => entry.1 == name with
  | some entry => entry.2
  | none => .undefined

/-- What `Object.assign` takes from a decoded topic: only bytes are objects that are no arrays,
and their properties are their indices. -/
def topicEntries : JsValue → Payload
  | .scalar (.bytes b) => b.zipIdx.map fun entry =>
    (toString entry.2, .scalar (.number entry.1.toNat))
  | _ => []

/-! ## Equal values -/

theorem length_base64Chars (b : Bytes) : (base64Chars b).length = 4 * ((b.length + 2) / 3) := by
  induction b using base64Chars.induct with
  | case1 => rfl
  | case2 a => simp [base64Chars]
  | case3 a b => simp [base64Chars]
  | case4 a b c rest ih =>
    show (base64Chars rest).length + 1 + 1 + 1 + 1 = 4 * ((rest.length + 1 + 1 + 1 + 2) / 3)
    omega

theorem base64_ne_undefined (b : Bytes) : base64 b ≠ "undefined" := by
  intro h
  have hlength := congrArg String.length h
  have hnine : "undefined".length = 9 := by decide
  rw [base64, String.length_ofList, length_base64Chars, hnine] at hlength
  omega

theorem strkey_ne_undefined (a : Address) : Indexer.strkey a ≠ "undefined" := by
  intro h
  have hlength := congrArg String.length h
  have hnine : "undefined".length = 9 := by decide
  rw [Indexer.strkey, String.length_ofList, List.length_map, Indexer.length_baseDigits, hnine]
    at hlength
  omega

theorem bigInt_undefined : JsValue.bigInt .undefined = none := by decide

theorem Payload.get_of_forall_ne {payload : Payload} {name : String}
    (h : ∀ entry ∈ payload, entry.1 ≠ name) : payload.get name = .undefined := by
  have hnone : (payload.reverse.find? fun entry => entry.1 == name) = none := by
    apply List.find?_eq_none.mpr
    intro entry hentry
    have hne := h entry (List.mem_reverse.mp hentry)
    simpa using hne
  rw [Payload.get, hnone]

/-- The names of a decoded topic's properties are numbers. -/
theorem topicEntries_numeric {v : JsValue} : ∀ entry ∈ topicEntries v,
    ∃ n : Nat, entry.1 = toString n := by
  intro entry hentry
  unfold topicEntries at hentry
  split at hentry
  · obtain ⟨x, _, rfl⟩ := List.mem_map.mp hentry
    exact ⟨x.2, rfl⟩
  · cases hentry

end Wire
end Linkora
