import Linkora.Contract.Credentials

/-!
# Reports of the analytics oracle

`services/analytics-oracle` writes a report as a CBOR array (`src/codec.ts`) and signs the
digest of those bytes (`src/signer.ts`).  The CBOR library and the signature scheme are
parameters.
-/

namespace Linkora
namespace Oracle

open Contract (Bytes Bytes32 Bytes64)

/-- A JavaScript number: how it prints, and its value where it is an integer. -/
structure Number where
  text : String
  integer : Option Int
  deriving DecidableEq

/-- What an array of the CBOR encoder may hold here. -/
inductive Item where
  | number (n : Number)
  | bigint (n : Int)
  | bytes (b : Bytes)
  deriving DecidableEq

structure AnalyticsReport where
  version : Number
  creator : Bytes
  windowStart : Int
  windowEnd : Int
  totalTips : Int
  postCount : Int
  followerDelta : Int
  uniqueTippers : Number
  deriving DecidableEq

structure ValidationError where
  message : String
  field : String
  value : Item
  deriving DecidableEq

def CREATOR_BYTE_LENGTH : Nat := 32
def U8_MAX : Int := 255
def U32_MAX : Int := 4294967295

/-- `Number.isInteger(n) && 0 <= n && n <= max`. -/
def Number.within (n : Number) (max : Int) : Bool :=
  n.integer.any fun v => decide (0 ≤ v ∧ v ≤ max)

/-- `if (!ok) throw new ValidationError(message, field, value)` -/
def require (ok : Bool) (message field : String) (value : Item) : Except ValidationError Unit :=
  if ok = true then .ok () else .error ⟨message, field, value⟩

def validateReport (report : AnalyticsReport) : Except ValidationError Unit := do
  require (report.version.within U8_MAX)
    ("version must be a u8 integer (0-255), got " ++ report.version.text)
    "version" (.number report.version)
  require (report.creator.length == CREATOR_BYTE_LENGTH)
    ("creator must be a " ++ toString CREATOR_BYTE_LENGTH ++ "-byte Ed25519 public key, got " ++
      toString report.creator.length ++ " bytes")
    "creator" (.bytes report.creator)
  require (0 < report.windowStart)
    ("windowStart must be a positive integer, got " ++ toString report.windowStart)
    "windowStart" (.bigint report.windowStart)
  require (0 < report.windowEnd)
    ("windowEnd must be a positive integer, got " ++ toString report.windowEnd)
    "windowEnd" (.bigint report.windowEnd)
  require (report.windowStart < report.windowEnd)
    ("windowStart (" ++ toString report.windowStart ++ ") must be less than windowEnd (" ++
      toString report.windowEnd ++ ")")
    "windowStart" (.bigint report.windowStart)
  require (0 ≤ report.totalTips)
    ("totalTips must be non-negative, got " ++ toString report.totalTips)
    "totalTips" (.bigint report.totalTips)
  require (0 ≤ report.postCount)
    ("postCount must be non-negative, got " ++ toString report.postCount)
    "postCount" (.bigint report.postCount)
  require (-9223372036854775808 ≤ report.followerDelta ∧
      report.followerDelta ≤ 9223372036854775807)
    ("followerDelta must be an i64 integer, got " ++ toString report.followerDelta)
    "followerDelta" (.bigint report.followerDelta)
  require (report.uniqueTippers.within U32_MAX)
    ("uniqueTippers must be a u32 integer (0-" ++ toString U32_MAX ++ "), got " ++
      report.uniqueTippers.text)
    "uniqueTippers" (.number report.uniqueTippers)

/-- The fields in canonical order. -/
def AnalyticsReport.array (report : AnalyticsReport) : List Item :=
  [.number report.version, .bytes report.creator, .bigint report.windowStart,
    .bigint report.windowEnd, .bigint report.totalTips, .bigint report.postCount,
    .bigint report.followerDelta, .number report.uniqueTippers]

/-- Why no bytes are returned: a field is refused, or the encoder throws. -/
inductive EncodeError where
  | validation (e : ValidationError)
  | encoder
  deriving DecidableEq

def encodeReport (encode : List Item → Option Bytes) (report : AnalyticsReport) :
    Except EncodeError Bytes :=
  match validateReport report with
  | .error e => .error (.validation e)
  | .ok () =>
    match encode report.array with
    | none => .error .encoder
    | some bytes => .ok bytes

def hashReport (sha256 : Bytes → Bytes32) (reportCbor : Bytes) : Bytes32 := sha256 reportCbor

/-- The seed that the signer holds, until it is disposed of. -/
structure Signer where
  seed : Bytes
  disposed : Bool
  deriving DecidableEq

structure SignedReport where
  signature : Bytes64
  reportHash : Bytes32

def Signer.signReport (sha256 : Bytes → Bytes32) (sign : Bytes32 → Bytes → Bytes64)
    (signer : Signer) (reportCbor : Bytes) : Except String SignedReport :=
  if signer.disposed = true then .error "Signer has been disposed"
  else
    let reportHash := hashReport sha256 reportCbor
    .ok { signature := sign reportHash signer.seed, reportHash }

theorem signReport_ok {sha256 : Bytes → Bytes32} {sign : Bytes32 → Bytes → Bytes64}
    {signer : Signer} {cbor : Bytes} {out : SignedReport}
    (h : signer.signReport sha256 sign cbor = .ok out) : out.reportHash = sha256 cbor := by
  unfold Signer.signReport at h
  split at h
  · cases h
  · obtain rfl := Except.ok.inj h
    rfl

end Oracle
end Linkora
