import Mathlib.Data.List.Induction
import Linkora.Lib.Hosts

/-!
# Client addresses

`services/indexer/src/middleware/rateLimit.ts`: requests are counted by the address that they
come from.  Behind trusted proxies this is the last address of `X-Forwarded-For` that is no
trusted proxy's.
-/

namespace Linkora
namespace Indexer

/-- A header is one text or several. -/
inductive ForwardedFor where
  | text (s : String)
  | lines (l : List String)

structure ClientRequest where
  remoteAddress : Option String
  ip : Option String
  forwardedFor : Option ForwardedFor

def defaultTrustedProxies : List String :=
  ["127.0.0.1/32", "127.0.0.1", "::1/128", "::1", "10.0.0.0/8", "172.16.0.0/12", "192.168.0.0/16"]

def normalizeIp (ip : String) : String :=
  if ip = "" then "unknown"
  else
    let cleaned := Scan.trim ip
    if Text.startsWith cleaned "::ffff:" = true then String.ofList (cleaned.toList.drop 7)
    else cleaned

/-- A part of an IPv4 address, if it is a number from 0 to 255. -/
def octet (part : String) : Option Nat :=
  match Scan.parseInt part with
  | some p => if p < 0 ∨ 255 < p then none else some p.toNat
  | none => none

def joinOctets (a b c d : Nat) : BitVec 32 :=
  BitVec.ofNat 32 a <<< 24 ||| BitVec.ofNat 32 b <<< 16 ||| BitVec.ofNat 32 c <<< 8 |||
    BitVec.ofNat 32 d

def ipv4ToLong (ip : String) : Option (BitVec 32) :=
  match (Text.split '.' ip).map octet with
  | [some a, some b, some c, some d] => some (joinOctets a b c d)
  | _ => none

def cidrMask (bits : Nat) : BitVec 32 :=
  if bits = 0 then 0 else ~~~(0 : BitVec 32) <<< (32 - bits)

def isIpInCidr (ip cidr : String) : Bool :=
  let normalizedIp := normalizeIp ip
  let normalizedCidr := normalizeIp cidr
  match Text.split '/' normalizedCidr with
  | range :: bitsStr :: _ =>
    match ipv4ToLong normalizedIp, ipv4ToLong range, Scan.parseInt bitsStr with
    | some ipLong, some rangeLong, some bits =>
      if 0 ≤ bits ∧ bits ≤ 32 then
        ipLong &&& cidrMask bits.toNat == rangeLong &&& cidrMask bits.toNat
      else normalizedIp == range
    | _, _, _ => normalizedIp == range
  | _ => normalizedIp == normalizedCidr

def isTrusted (trustedList : List String) (ip : String) : Bool := trustedList.any (isIpInCidr ip)

/-- `process.env.TRUSTED_PROXIES`, or the default. -/
def trustedProxies (custom : Option (List String)) (env : Option String) : List String :=
  match custom with
  | some list => list
  | none =>
    match env with
    | some list =>
      if list = "" then defaultTrustedProxies
      else ((Text.split ',' list).map Scan.trim).filter (· ≠ "")
    | none => defaultTrustedProxies

/-- `a || b` -/
def orElseText (a : Option String) (b : String) : String := (a.filter (· ≠ "")).getD b

theorem orElseText_of_ne {a b : String} (h : a ≠ "") : orElseText (some a) b = a := by
  rw [orElseText, Option.filter_some, decide_eq_true h]
  rfl

def socketIp (req : ClientRequest) : String :=
  normalizeIp (orElseText req.remoteAddress (orElseText req.ip "unknown"))

/-- The header as one text, if there is one. -/
def xffHeader (req : ClientRequest) : Option String :=
  match req.forwardedFor with
  | none => none
  | some (.text s) => if s = "" then none else some s
  | some (.lines l) => some (",".intercalate l)

def forwardedIps (xffHeader : String) : List String :=
  ((Text.split ',' xffHeader).map normalizeIp).filter (· ≠ "")

def getClientIP (trustedList : List String) (req : ClientRequest) : String :=
  let socketIp := socketIp req
  if isTrusted trustedList socketIp = false then socketIp
  else
    match xffHeader req with
    | none => socketIp
    | some header =>
      let ips := forwardedIps header
      match ips.reverse.find? fun candidateIp => !isTrusted trustedList candidateIp with
      | some candidateIp => candidateIp
      | none => ips.headD socketIp

/-! ## The header -/

theorem getClientIP_direct {trustedList : List String} {req : ClientRequest}
    (h : isTrusted trustedList (socketIp req) = false) :
    getClientIP trustedList req = socketIp req := by
  simp only [getClientIP]
  rw [if_pos h]

/-- What stands before a comma, and what behind it. -/
theorem forwardedIps_append (client suffix : String) :
    forwardedIps (client ++ "," ++ suffix) = forwardedIps client ++ forwardedIps suffix := by
  have hlist : (client ++ "," ++ suffix).toList = client.toList ++ ',' :: suffix.toList := by simp
  rw [forwardedIps, Text.split, hlist, List.splitOn_append_cons_self, List.map_append,
    List.map_append, List.filter_append]
  rfl

/-- The last address that is no trusted proxy's is found whatever stands before. -/
theorem getClientIP_last {trustedList : List String} {req : ClientRequest} {header ip : String}
    {before after : List String} (htrusted : isTrusted trustedList (socketIp req) = true)
    (hheader : xffHeader req = some header) (hips : forwardedIps header = before ++ ip :: after)
    (hip : isTrusted trustedList ip = false)
    (hafter : ∀ proxy ∈ after, isTrusted trustedList proxy = true) :
    getClientIP trustedList req = ip := by
  have hfind : (before ++ ip :: after).reverse.find?
      (fun candidateIp => !isTrusted trustedList candidateIp) = some ip := by
    rw [List.reverse_append, List.reverse_cons, List.append_assoc, List.find?_append]
    have hnone : after.reverse.find? (fun candidateIp => !isTrusted trustedList candidateIp) =
        none := by
      rw [List.find?_eq_none]
      intro proxy hproxy
      rw [hafter proxy (List.mem_reverse.mp hproxy)]
      exact Bool.false_ne_true
    rw [hnone, Option.none_or, List.singleton_append, List.find?_cons_of_pos]
    rw [hip]
    rfl
  simp only [getClientIP]
  rw [if_neg (by rw [htrusted]; exact Bool.noConfusion), hheader]
  simp only [hips, hfind]

/-! ## Addresses -/

end Indexer

namespace Hosts.Ipv4

open Indexer

variable (x y : Ipv4)

theorem toNat_joinOctets : (joinOctets x.a x.b x.c x.d).toNat = x.number := by
  have hb := x.b.isLt
  have hc := x.c.isLt
  have hd := x.d.isLt
  have hcd : x.c.val <<< 8 ||| x.d.val = x.c.val <<< 8 + x.d.val :=
    (Nat.shiftLeft_add_eq_or_of_lt (i := 8) (by omega) _).symm
  have hbcd : x.b.val <<< 16 ||| (x.c.val <<< 8 + x.d.val) =
      x.b.val <<< 16 + (x.c.val <<< 8 + x.d.val) :=
    (Nat.shiftLeft_add_eq_or_of_lt (i := 16) (by rw [Nat.shiftLeft_eq]; omega) _).symm
  have habcd : x.a.val <<< 24 ||| (x.b.val <<< 16 + (x.c.val <<< 8 + x.d.val)) =
      x.a.val <<< 24 + (x.b.val <<< 16 + (x.c.val <<< 8 + x.d.val)) :=
    (Nat.shiftLeft_add_eq_or_of_lt (i := 24)
      (by rw [Nat.shiftLeft_eq, Nat.shiftLeft_eq]; omega) _).symm
  have hpart : ∀ n k : Nat, n < 256 → k ≤ 24 →
      (BitVec.ofNat 32 n <<< k).toNat = n <<< k := by
    intro n k hn hk
    have hpow : 2 ^ k ≤ 2 ^ 24 := Nat.pow_le_pow_right (by omega) hk
    have hlt : n * 2 ^ k < 2 ^ 32 :=
      calc n * 2 ^ k ≤ 255 * 2 ^ 24 := Nat.mul_le_mul (by omega) hpow
        _ < 2 ^ 32 := by decide
    rw [BitVec.toNat_shiftLeft, BitVec.toNat_ofNat, Nat.mod_eq_of_lt (show n < 2 ^ 32 by omega),
      Nat.shiftLeft_eq, Nat.mod_eq_of_lt hlt]
  rw [joinOctets, BitVec.toNat_or, BitVec.toNat_or, BitVec.toNat_or,
    hpart x.a.val 24 x.a.isLt (by omega), hpart x.b.val 16 hb (by omega),
    hpart x.c.val 8 hc (by omega), BitVec.toNat_ofNat,
    Nat.mod_eq_of_lt (show x.d.val < 2 ^ 32 by omega), Nat.or_assoc, Nat.or_assoc, hcd, hbcd,
    habcd, Nat.shiftLeft_eq, Nat.shiftLeft_eq, Nat.shiftLeft_eq, number]
  omega

theorem getLsbD_cidrMask {bits : Nat} (hbits : bits ≤ 32) (i : Nat) :
    (cidrMask bits).getLsbD i = (decide (i < 32) && decide (32 - bits ≤ i)) := by
  rw [cidrMask]
  split
  · have hnone : (decide (i < 32) && decide (32 - bits ≤ i)) = false := by
      rw [Bool.and_eq_false_iff, decide_eq_false_iff_not, decide_eq_false_iff_not]
      omega
    rw [hnone]
    exact BitVec.getLsbD_zero
  · rw [BitVec.getLsbD_shiftLeft, BitVec.getLsbD_not]
    by_cases hi : i < 32
    · by_cases hlow : i < 32 - bits
      · simp [hi, hlow]
        omega
      · have hsub : i - (32 - bits) < 32 := by omega
        simp [hi, hlow, hsub]
        omega
    · simp [hi]

/-- Two addresses agree under the mask if their first bits do. -/
theorem masked_eq_iff (u v : BitVec 32) {bits : Nat} (hbits : bits ≤ 32) :
    u &&& cidrMask bits = v &&& cidrMask bits ↔
      u.toNat / 2 ^ (32 - bits) = v.toNat / 2 ^ (32 - bits) := by
  constructor
  · intro h
    refine Nat.eq_of_testBit_eq fun j => ?_
    rw [Nat.testBit_div_two_pow, Nat.testBit_div_two_pow, BitVec.testBit_toNat,
      BitVec.testBit_toNat]
    by_cases hj : j + (32 - bits) < 32
    · have hbit := congrArg (fun w => BitVec.getLsbD w (j + (32 - bits))) h
      simp only [BitVec.getLsbD_and, getLsbD_cidrMask hbits] at hbit
      simpa [hj] using hbit
    · rw [BitVec.getLsbD_of_ge _ _ (by omega), BitVec.getLsbD_of_ge _ _ (by omega)]
  · intro h
    refine BitVec.eq_of_getLsbD_eq fun i hi => ?_
    rw [BitVec.getLsbD_and, BitVec.getLsbD_and, getLsbD_cidrMask hbits]
    by_cases hlow : 32 - bits ≤ i
    · have hbit := congrArg (fun n => n.testBit (i - (32 - bits))) h
      simp only [Nat.testBit_div_two_pow, BitVec.testBit_toNat,
        show i - (32 - bits) + (32 - bits) = i by omega] at hbit
      rw [hbit]
    · simp [hlow]

/-! ### Texts -/

/-- A text that begins with an IPv4 address and has no spaces is left as it is. -/
theorem normalizeIp_text {s rest : String} (hs : s = x.text ++ rest)
    (hrest : ∀ c ∈ rest.toList, Scan.isSpace c = false) : normalizeIp s = s := by
  have hlist : s.toList = (toString x.a.val).toList ++ '.' :: ((toString x.b.val).toList ++ '.' ::
      ((toString x.c.val).toList ++ '.' :: (toString x.d.val).toList) ++ rest.toList) := by
    rw [hs, String.toList_append, text_toList, List.append_assoc, List.cons_append]
  have hne : s ≠ "" := by
    rintro rfl
    simp at hlist
  have hspace : ∀ c ∈ s.toList, Scan.isSpace c = false := by
    intro c hc
    rw [hs, String.toList_append, List.mem_append] at hc
    rcases hc with hc | hc
    · rcases x.mem_text hc with hdigit | rfl
      · exact Scan.not_space_of_digit hdigit
      · decide
    · exact hrest c hc
  have hstart : Text.startsWith s "::ffff:" = false := by
    refine decide_eq_false fun hstarts => ?_
    obtain ⟨tail, htail⟩ := hstarts
    rw [hlist] at htail
    have hfirst : ':' ∈ (toString x.a.val).toList ∨ (toString x.a.val).toList = [] := by
      cases hdigits : (toString x.a.val).toList with
      | nil => exact Or.inr rfl
      | cons c cs =>
        rw [hdigits] at htail
        have hc : ':' = c := (List.cons.inj htail).1
        exact Or.inl (hc ▸ List.mem_cons_self)
    rcases hfirst with hcolon | hnil
    · exact Scan.not_mem_toString rfl hcolon
    · rw [Nat.toString_eq_ofList_toDigits, String.toList_ofList] at hnil
      exact Nat.toDigits_ne_nil hnil
  rw [normalizeIp, if_neg hne]
  simp only [Scan.trim_of_not_space hspace, hstart]
  rw [if_neg Bool.false_ne_true]

theorem normalizeIp_self : normalizeIp x.text = x.text :=
  x.normalizeIp_text (show x.text = x.text ++ "" by rw [String.append_empty])
    fun c hc => by simp at hc

theorem split_comma : Text.split ',' x.text = [x.text] := by
  rw [Text.split, List.splitOn_eq_singleton (x.not_mem_text rfl (by decide))]
  simp only [List.map_cons, List.map_nil, String.ofList_toList]

theorem octet_toString {n : Nat} (h : n < 256) : octet (toString n) = some n := by
  rw [octet, Scan.parseInt_toString]
  show (if (n : Int) < 0 ∨ 255 < (n : Int) then none else some (n : Int).toNat) = some n
  rw [if_neg (by omega), Int.toNat_natCast]

theorem ipv4ToLong_text : ipv4ToLong x.text = some (joinOctets x.a x.b x.c x.d) := by
  rw [ipv4ToLong, split_text]
  simp only [List.map_cons, List.map_nil, octet_toString x.a.isLt, octet_toString x.b.isLt,
    octet_toString x.c.isLt, octet_toString x.d.isLt]

/-- ``${range}/${bits}`` -/
def cidr (range : Ipv4) (bits : Nat) : String := range.text ++ "/" ++ toString bits

theorem split_cidr (bits : Nat) : Text.split '/' (x.cidr bits) = [x.text, toString bits] := by
  have hlist : (x.cidr bits).toList = x.text.toList ++ '/' :: (toString bits).toList := by
    simp [cidr]
  rw [Text.split, hlist,
    List.splitOn_append_cons_self_of_not_mem (x.not_mem_text rfl (by decide)),
    List.splitOn_eq_singleton (Scan.not_mem_toString rfl)]
  simp only [List.map_cons, List.map_nil, String.ofList_toList]

/-- An address is in a block if it has the first bits of the range. -/
theorem isIpInCidr_iff {bits : Nat} (hbits : bits ≤ 32) : isIpInCidr x.text (y.cidr bits) = true ↔
    x.number / 2 ^ (32 - bits) = y.number / 2 ^ (32 - bits) := by
  have hcidr : normalizeIp (y.cidr bits) = y.cidr bits := by
    refine y.normalizeIp_text (show y.cidr bits = y.text ++ ("/" ++ toString bits) by
      rw [cidr, String.append_assoc]) fun c hc => ?_
    rw [String.toList_append, List.mem_append] at hc
    rcases hc with hc | hc
    · obtain rfl : c = '/' := by simpa using hc
      decide
    · exact Scan.not_space_of_digit (Scan.isDigit_of_mem_toString hc)
  rw [isIpInCidr]
  simp only [x.normalizeIp_self, hcidr, split_cidr, ipv4ToLong_text, Scan.parseInt_toString]
  rw [if_pos (by omega), beq_iff_eq, Int.toNat_natCast, masked_eq_iff _ _ hbits, toNat_joinOctets,
    toNat_joinOctets]

end Hosts.Ipv4

namespace Indexer

open Hosts (Ipv4)

/-! ## Who is counted -/

/-- The header after proxies have appended their entries to what the client sent, if anything. -/
def appendedHeader (client : Option String) (suffix : String) : String :=
  match client with
  | none => suffix
  | some client => client ++ "," ++ suffix

/-- The last element that fails a test. -/
theorem exists_last {p : String → Bool} {l : List String} (h : ∃ a ∈ l, p a = false) :
    ∃ before a after, l = before ++ a :: after ∧ p a = false ∧ ∀ b ∈ after, p b = true := by
  induction l using List.reverseRecOn with
  | nil =>
    obtain ⟨a, ha, -⟩ := h
    cases ha
  | append_singleton rest last ih =>
    cases hlast : p last with
    | false => exact ⟨rest, last, [], rfl, hlast, fun b hb => absurd hb List.not_mem_nil⟩
    | true =>
      obtain ⟨a, ha, hpa⟩ := h
      have hrest : a ∈ rest := by
        rcases List.mem_append.mp ha with ha | ha
        · exact ha
        · obtain rfl := List.mem_singleton.mp ha
          rw [hlast] at hpa
          cases hpa
      obtain ⟨before, b, after, rfl, hb, hafter⟩ := ih ⟨a, hrest, hpa⟩
      refine ⟨before, b, after ++ [last], by simp, hb, fun c hc => ?_⟩
      rcases List.mem_append.mp hc with hc | hc
      · exact hafter c hc
      · rw [List.mem_singleton.mp hc, hlast]

/-- Whoever connects directly is counted by the address of the connection.  Behind trusted
proxies the last address in what they appended that is not trusted is counted, whatever the
client sent before.  A proxy is trusted if its address lies in one of the blocks. -/
theorem clientIp_not_chosen (trustedList : List String) :
    (∀ req header, isTrusted trustedList (socketIp req) = false →
      getClientIP trustedList { req with forwardedFor := header } =
        getClientIP trustedList req) ∧
    (∀ suffix, (∃ ip ∈ forwardedIps suffix, isTrusted trustedList ip = false) →
      ∃ before ip after, forwardedIps suffix = before ++ ip :: after ∧
        isTrusted trustedList ip = false ∧
        (∀ proxy ∈ after, isTrusted trustedList proxy = true) ∧
        ∀ req client, isTrusted trustedList (socketIp req) = true →
          xffHeader req = some (appendedHeader client suffix) →
          getClientIP trustedList req = ip) ∧
    ∀ (x range : Ipv4) (bits : Nat), bits ≤ 32 →
      (isIpInCidr x.text (range.cidr bits) = true ↔
        x.number / 2 ^ (32 - bits) = range.number / 2 ^ (32 - bits)) := by
  refine ⟨fun req header h => ?_, fun suffix huntrusted => ?_,
    fun x range bits hbits => x.isIpInCidr_iff range hbits⟩
  · rw [getClientIP_direct h]
    exact getClientIP_direct h
  · obtain ⟨before, ip, after, hips, hip, hafter⟩ := exists_last huntrusted
    refine ⟨before, ip, after, hips, hip, hafter, fun req client htrusted hheader => ?_⟩
    cases client with
    | none => exact getClientIP_last htrusted hheader hips hip hafter
    | some client =>
      have hall : forwardedIps (client ++ "," ++ suffix) =
          (forwardedIps client ++ before) ++ ip :: after := by
        rw [forwardedIps_append, hips, List.append_assoc]
      exact getClientIP_last htrusted hheader hall hip hafter

def proxy : Ipv4 := ⟨10, 0, 0, 5⟩
def visitor : Ipv4 := ⟨198, 51, 100, 1⟩
def proxyBlock : String := (⟨10, 0, 0, 0⟩ : Ipv4).cidr 8

theorem trusts_iff (x : Ipv4) : isTrusted [proxyBlock] x.text = true ↔ x.a = 10 := by
  have hlt := x.a.isLt
  have hb := x.b.isLt
  have hc := x.c.isLt
  have hd := x.d.isLt
  rw [isTrusted, List.any_cons, List.any_nil, Bool.or_false, proxyBlock,
    x.isIpInCidr_iff _ (by omega)]
  show (((x.a.val * 256 + x.b) * 256 + x.c) * 256 + x.d) / 2 ^ 24 = 10 ↔ _
  rw [Fin.ext_iff]
  show _ ↔ x.a.val = 10
  omega

/-- A visitor that claims to be somebody else, behind one proxy. -/
theorem clientIp_not_chosen_visitor : getClientIP [proxyBlock]
    ⟨some proxy.text, none, some (.text (appendedHeader (some "1.2.3.4") visitor.text))⟩ =
      visitor.text := by
  have hforwarded : forwardedIps visitor.text = [visitor.text] := by
    rw [forwardedIps, visitor.split_comma]
    simp [visitor.normalizeIp_self, visitor.text_ne]
  have huntrusted : isTrusted [proxyBlock] visitor.text = false := by
    rw [← Bool.not_eq_true, trusts_iff]
    decide
  obtain ⟨before, ip, after, hips, -, -, hresult⟩ :=
    (clientIp_not_chosen [proxyBlock]).2.1 visitor.text
      ⟨visitor.text, by rw [hforwarded]; exact List.mem_cons_self, huntrusted⟩
  have hip : ip = visitor.text := by
    have hmem : ip ∈ forwardedIps visitor.text := by
      rw [hips]
      exact List.mem_append_right _ List.mem_cons_self
    rw [hforwarded] at hmem
    exact List.mem_singleton.mp hmem
  rw [hip] at hresult
  refine hresult _ (some "1.2.3.4") ?_ ?_
  · have hsocket : socketIp ⟨some proxy.text, none,
        some (.text (appendedHeader (some "1.2.3.4") visitor.text))⟩ = proxy.text := by
      rw [socketIp, orElseText_of_ne proxy.text_ne, proxy.normalizeIp_self]
    rw [hsocket, trusts_iff]
    rfl
  · rw [xffHeader]
    simp [appendedHeader]

end Indexer
end Linkora
