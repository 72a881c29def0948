import Mathlib
import Linkora.Indexer.StellarAuth
import Linkora.Lib.Run

/-!
# Which signed requests the API honours

A request passes `optionalStellarAuth` when it arrives and `requireStellarAuth` later, with
other requests between.  The first middleware records a valid signature, and the second
refuses a signature that is recorded, so a request that should be honoured is refused by its
own record, unless that has expired: in the very millisecond in which the age test still
passes.
-/

namespace Linkora
namespace Indexer

/-! ## The server -/

/-- What a request was when it arrived: whether its signed message was presented for the first
time, and whether its signature was. -/
structure Arrival where
  request : HttpRequest
  arrived : Int
  first : Bool
  unused : Bool
  deriving DecidableEq

inductive VisitPhase where
  | waiting
  /-- The rate limiter or the fence has answered. -/
  | turnedAway
  | answered (time : Int) (result : Except AuthRefusal String)
  deriving DecidableEq

structure Visit where
  arrival : Arrival
  /-- `req.context.stellarAddress` -/
  context : Option String
  phase : VisitPhase
  deriving DecidableEq

def Visit.isWaiting (v : Visit) : Bool :=
  match v.phase with
  | .waiting => true
  | _ => false

/-- The key and the message that a signature is of. -/
structure SignedMessage where
  address : String
  message : String
  deriving DecidableEq

def signedMessage (lib : AuthLibraries) (req : HttpRequest) (sig : StellarSig) : SignedMessage :=
  ⟨sig.address, req.message lib sig⟩

/-- The cache, the clock, the requests in the order of arrival, what was recorded with the time
of expiry, and the messages whose requests reached the handler. -/
structure ApiServer where
  seen : Seen String
  now : Int
  visits : List Visit
  recorded : List (String × Int)
  honoured : List SignedMessage

inductive ApiAction where
  | arrive (req : HttpRequest)
  | turnAway (i : Nat)
  | authorize (i : Nat)
  | wait (ms : Nat)

namespace ApiServer

def arrivals (s : ApiServer) : List Arrival := s.visits.map (·.arrival)

/-- No earlier request had the signed message of this one. -/
def isFirst (lib : AuthLibraries) (s : ApiServer) (req : HttpRequest) : Bool :=
  s.arrivals.all fun a => decide (∀ sig ∈ req.signed lib, ∀ sig' ∈ a.request.signed lib,
    signedMessage lib a.request sig' ≠ signedMessage lib req sig)

/-- No earlier request had the signature of this one. -/
def isUnused (lib : AuthLibraries) (s : ApiServer) (req : HttpRequest) : Bool :=
  s.arrivals.all fun a => decide (∀ sig ∈ req.signed lib, ∀ sig' ∈ a.request.signed lib,
    sig'.signature ≠ sig.signature)

/-- The record that goes with an address in the context. -/
def recordOf (lib : AuthLibraries) (now : Int) (req : HttpRequest) :
    Option String → List (String × Int)
  | none => []
  | some _ =>
    match req.signed lib with
    | none => []
    | some sig => [(sig.signature, now + SIGNATURE_TIMESTAMP_TOLERANCE_MS)]

def next (lib : AuthLibraries) (s : ApiServer) : ApiAction → Option ApiServer
  | .arrive req =>
    let (context, seen) := optionalStellarAuth lib s.seen s.now req
    let arrival : Arrival :=
      ⟨req, s.now, s.isFirst lib req, s.isUnused lib req⟩
    some { s with
      seen
      visits := s.visits ++ [{ arrival, context, phase := .waiting }]
      recorded := s.recorded ++ recordOf lib s.now req context }
  | .turnAway i =>
    match s.visits[i]? with
    | none => none
    | some v =>
      if v.isWaiting = true then
        some { s with visits := s.visits.set i { v with phase := .turnedAway } }
      else none
  | .authorize i =>
    match s.visits[i]? with
    | none => none
    | some v =>
      if v.isWaiting = true then
        match requireStellarAuth lib s.seen s.now v.arrival.request with
        | (.error err, seen) =>
          some { s with
            seen
            visits := s.visits.set i { v with phase := .answered s.now (.error err) } }
        | (.ok address, seen) =>
          some { s with
            seen
            visits := s.visits.set i
              { v with context := some address, phase := .answered s.now (.ok address) }
            recorded := s.recorded ++ recordOf lib s.now v.arrival.request (some address)
            honoured := s.honoured ++
              ((v.arrival.request.signed lib).map (signedMessage lib v.arrival.request)).toList }
      else none
  | .wait ms => some { s with now := s.now + ms }

def start (now : Int) : ApiServer where
  seen := []
  now
  visits := []
  recorded := []
  honoured := []

end ApiServer

/-! ## What is promised -/

/-- A request that was the first of its message and was in time at both middlewares has reached
the handler, with its signer in the context. -/
def Visit.Served (lib : AuthLibraries) (v : Visit) : Prop :=
  ∀ time result, v.phase = .answered time result → v.arrival.first = true →
    ∀ sig, v.arrival.request.signed lib = some sig → sig.inTime v.arrival.arrived →
      sig.inTime time → result = .ok sig.address ∧ v.context = some sig.address

/-- First requests are served, and no message is honoured twice. -/
def ApiServer.HonoursOnce (lib : AuthLibraries) (s : ApiServer) : Prop :=
  (∀ v ∈ s.visits, v.Served lib) ∧ s.honoured.Nodup

/-- When `requireStellarAuth` looks at a valid signature that is in time.  If the request is the
first of its message and was in time when it arrived, then nothing that was recorded less than
the tolerance ago is its signature; as it has recorded that itself, it arrived in the very
millisecond of its timestamp, exactly the tolerance ago.  If its message was honoured before,
then its signature was recorded less than the tolerance ago. -/
def Opportune (lib : AuthLibraries) (s : ApiServer) : ApiAction → Prop
  | .authorize i => ∀ v ∈ s.visits[i]?, v.isWaiting = true →
      ∀ sig ∈ v.arrival.request.signed lib, sig.inTime s.now →
        (v.arrival.first = true → sig.inTime v.arrival.arrived →
          ¬ Seen.Remembers s.recorded s.now sig.signature ∧
          (v.arrival.unused = true → (v.arrival.arrived : Rat) = sig.time ∧
            s.now = v.arrival.arrived + SIGNATURE_TIMESTAMP_TOLERANCE_MS)) ∧
        (signedMessage lib v.arrival.request sig ∈ s.honoured →
          Seen.Remembers s.recorded s.now sig.signature)
  | _ => True

instance (lib : AuthLibraries) (s : ApiServer) (a : ApiAction) : Decidable (Opportune lib s a) := by
  cases a <;> unfold Opportune <;> infer_instance

/-! ## What the cache holds -/

structure Ledgered (lib : AuthLibraries) (s : ApiServer) : Prop where
  tracks : Seen.Tracks s.seen s.recorded s.now
  /-- Only signatures of requests that have arrived are recorded. -/
  origin : ∀ entry ∈ s.recorded, ∃ a ∈ s.arrivals, ∃ sig, a.request.signed lib = some sig ∧
    sig.signature = entry.1
  expiry : ∀ entry ∈ s.recorded, entry.2 ≤ s.now + SIGNATURE_TIMESTAMP_TOLERANCE_MS
  /-- A request in time with an unused signature has recorded it. -/
  own : ∀ a ∈ s.arrivals, a.unused = true → ∀ sig, a.request.signed lib = some sig →
    sig.inTime a.arrived →
      (sig.signature, a.arrived + SIGNATURE_TIMESTAMP_TOLERANCE_MS) ∈ s.recorded

variable {lib : AuthLibraries} {s s' : ApiServer}

theorem arrivals_set {i : Nat} {v w : Visit} (h : s.visits[i]? = some v)
    (hw : w.arrival = v.arrival) : (s.visits.set i w).map (·.arrival) = s.arrivals := by
  obtain ⟨hi, hget⟩ := List.getElem?_eq_some_iff.mp h
  have hi' : i < (s.visits.map (·.arrival)).length := by
    rwa [List.length_map]
  have hsame : (s.visits.map (·.arrival))[i] = w.arrival := by
    rw [List.getElem_map, hget, hw]
  rw [List.map_set, ← hsame, List.set_getElem_self]
  rfl

theorem recordOf_some {now : Int} {req : HttpRequest} {address : String} {sig : StellarSig}
    (h : req.signed lib = some sig) : ApiServer.recordOf lib now req (some address) =
      [(sig.signature, now + SIGNATURE_TIMESTAMP_TOLERANCE_MS)] := by
  rw [ApiServer.recordOf, h]

theorem ne_of_isUnused {req : HttpRequest} (h : s.isUnused lib req = true) {a : Arrival}
    (ha : a ∈ s.arrivals) {sig sig' : StellarSig} (hsig : req.signed lib = some sig)
    (hsig' : a.request.signed lib = some sig') : sig'.signature ≠ sig.signature :=
  of_decide_eq_true (List.all_eq_true.mp h a ha) sig hsig sig' hsig'

/-- A request that is looked at for the second time. -/
theorem next_authorize {i : Nat} (h : s.next lib (.authorize i) = some s') :
    ∃ v, s.visits[i]? = some v ∧ v.isWaiting = true := by
  rw [ApiServer.next] at h
  cases hv : s.visits[i]? with
  | none =>
    rw [hv] at h
    cases h
  | some v =>
    rw [hv] at h
    dsimp only at h
    split at h
    · rename_i hwaiting
      exact ⟨v, rfl, hwaiting⟩
    · cases h

theorem next_turnAway {i : Nat} (h : s.next lib (.turnAway i) = some s') :
    ∃ v, s.visits[i]? = some v ∧
      s' = { s with visits := s.visits.set i { v with phase := .turnedAway } } := by
  rw [ApiServer.next] at h
  cases hv : s.visits[i]? with
  | none =>
    rw [hv] at h
    cases h
  | some v =>
    rw [hv] at h
    dsimp only at h
    split at h
    · exact ⟨v, rfl, (Option.some.inj h).symm⟩
    · cases h

namespace Ledgered

/-- Requests and records are added. -/
theorem extend (h : Ledgered lib s) (as : List Arrival) (es : List (String × Int))
    (hnow : s'.now = s.now) (harrivals : s'.arrivals = s.arrivals ++ as)
    (hrecorded : s'.recorded = s.recorded ++ es)
    (htracks : Seen.Tracks s'.seen (s.recorded ++ es) s.now)
    (hes : ∀ entry ∈ es, entry.2 = s.now + SIGNATURE_TIMESTAMP_TOLERANCE_MS ∧
      ∃ a ∈ s.arrivals ++ as, ∃ sig, a.request.signed lib = some sig ∧ sig.signature = entry.1)
    (hown : ∀ a ∈ as, a.unused = true → ∀ sig, a.request.signed lib = some sig →
      sig.inTime a.arrived →
        (sig.signature, a.arrived + SIGNATURE_TIMESTAMP_TOLERANCE_MS) ∈ s.recorded ++ es) :
    Ledgered lib s' where
  tracks := by
    rw [hrecorded, hnow]
    exact htracks
  origin entry hentry := by
    rw [hrecorded] at hentry
    rw [harrivals]
    rcases List.mem_append.mp hentry with hold | hnew
    · obtain ⟨a, ha, hsig⟩ := h.origin entry hold
      exact ⟨a, List.mem_append_left _ ha, hsig⟩
    · exact (hes entry hnew).2
  expiry entry hentry := by
    rw [hrecorded] at hentry
    rw [hnow]
    rcases List.mem_append.mp hentry with hold | hnew
    · exact h.expiry entry hold
    · exact (hes entry hnew).1.le
  own a ha hunused sig hsig hin := by
    rw [harrivals] at ha
    rw [hrecorded]
    rcases List.mem_append.mp ha with hold | hnew
    · exact List.mem_append_left _ (h.own a hold hunused sig hsig hin)
    · exact hown a hnew hunused sig hsig hin

/-- Nothing is added. -/
theorem keep (h : Ledgered lib s) (hnow : s'.now = s.now) (harrivals : s'.arrivals = s.arrivals)
    (hrecorded : s'.recorded = s.recorded) (htracks : Seen.Tracks s'.seen s.recorded s.now) :
    Ledgered lib s' :=
  h.extend [] [] hnow (by rw [harrivals, List.append_nil])
    (by rw [hrecorded, List.append_nil]) (by rwa [List.append_nil])
    (fun _ h => absurd h List.not_mem_nil) (fun _ h => absurd h List.not_mem_nil)

/-- A signature that is not in the cache may be recorded. -/
theorem tracks_record (h : Ledgered lib s) {signature : String}
    (hhas : (s.seen.sweep s.now).has signature = false) :
    Seen.Tracks ((s.seen.sweep s.now).record signature
        (s.now + SIGNATURE_TIMESTAMP_TOLERANCE_MS))
      (s.recorded ++ [(signature, s.now + SIGNATURE_TIMESTAMP_TOLERANCE_MS)]) s.now := by
  refine h.tracks.sweep.record fun entry hentry hkey hlive => ?_
  have hremembered := h.tracks.has_sweep_iff.mpr ⟨entry, hentry, hkey, hlive⟩
  rw [hhas] at hremembered
  cases hremembered

theorem arrive {req : HttpRequest} (h : Ledgered lib s)
    (hnext : s.next lib (.arrive req) = some s') : Ledgered lib s' := by
  -- The request that has arrived.
  have harrivals : ∀ {x : Visit}, (s.visits ++ [x]).map (·.arrival) = s.arrivals ++ [x.arrival] :=
    List.map_append
  rcases optionalStellarAuth_cases lib s.seen s.now req with
    ⟨hout, hauth⟩ | ⟨sig, hsig, hin, ⟨hhas, hauth⟩ | ⟨hhas, hauth⟩⟩
  · simp only [ApiServer.next, hauth] at hnext
    obtain rfl := Option.some.inj hnext
    refine h.extend _ [] rfl harrivals rfl (by rw [List.append_nil]; exact h.tracks)
      (fun _ h => absurd h List.not_mem_nil) ?_
    intro a ha _ sig hsig hin
    obtain rfl := List.mem_singleton.mp ha
    exact absurd hin (hout sig hsig)
  · simp only [ApiServer.next, hauth] at hnext
    obtain rfl := Option.some.inj hnext
    refine h.extend _ [] rfl harrivals rfl (by rw [List.append_nil]; exact h.tracks.sweep)
      (fun _ h => absurd h List.not_mem_nil) ?_
    intro a ha hunused _ _ _
    obtain rfl := List.mem_singleton.mp ha
    -- The signature has been recorded for an earlier request.
    obtain ⟨entry, hentry, hkey, -⟩ := h.tracks.has_sweep_iff.mp hhas
    obtain ⟨a', ha', sig', hsig', hsame⟩ := h.origin entry hentry
    exact absurd (hsame.trans hkey) (ne_of_isUnused hunused ha' hsig hsig')
  · simp only [ApiServer.next, hauth, recordOf_some hsig] at hnext
    obtain rfl := Option.some.inj hnext
    refine h.extend _ _ rfl harrivals rfl (h.tracks_record hhas) ?_ ?_
    · intro entry hentry
      obtain rfl := List.mem_singleton.mp hentry
      exact ⟨rfl, _, List.mem_append_right _ List.mem_cons_self, sig, hsig, rfl⟩
    · intro a ha _ sig' hsig' _
      obtain rfl := List.mem_singleton.mp ha
      obtain rfl := Option.some.inj (hsig.symm.trans hsig')
      exact List.mem_append_right _ List.mem_cons_self

theorem authorize {i : Nat} (h : Ledgered lib s) (hnext : s.next lib (.authorize i) = some s') :
    Ledgered lib s' := by
  obtain ⟨v, hv, hwaiting⟩ := next_authorize hnext
  rw [ApiServer.next, hv] at hnext
  dsimp only at hnext
  rw [if_pos hwaiting] at hnext
  rcases requireStellarAuth_cases lib s.seen s.now v.arrival.request with
    ⟨-, err, hauth⟩ | ⟨sig, hsig, -, ⟨hhas, hauth⟩ | ⟨hhas, hauth⟩⟩
  · rw [hauth] at hnext
    obtain rfl := Option.some.inj hnext
    exact h.keep rfl (arrivals_set hv rfl) rfl h.tracks
  · rw [hauth] at hnext
    obtain rfl := Option.some.inj hnext
    exact h.keep rfl (arrivals_set hv rfl) rfl h.tracks.sweep
  · rw [hauth] at hnext
    dsimp only at hnext
    rw [recordOf_some hsig] at hnext
    obtain rfl := Option.some.inj hnext
    have hmem : v.arrival ∈ s.arrivals :=
      List.mem_map_of_mem (List.mem_of_getElem? hv)
    refine h.extend [] _ rfl ?_ rfl (h.tracks_record hhas) ?_
      (fun _ h => absurd h List.not_mem_nil)
    · rw [List.append_nil]
      exact arrivals_set hv rfl
    · intro entry hentry
      obtain rfl := List.mem_singleton.mp hentry
      exact ⟨rfl, _, List.mem_append_left _ hmem, sig, hsig, rfl⟩

/-- What every step keeps. -/
theorem next {a : ApiAction} (h : Ledgered lib s) (hnext : s.next lib a = some s') :
    Ledgered lib s' := by
  cases a with
  | arrive req => exact h.arrive hnext
  | authorize i => exact h.authorize hnext
  | turnAway i =>
    obtain ⟨v, hv, rfl⟩ := next_turnAway hnext
    exact h.keep rfl (arrivals_set hv rfl) rfl h.tracks
  | wait ms =>
    obtain rfl := Option.some.inj hnext
    have hle : s.now ≤ s.now + ms := by omega
    refine ⟨h.tracks.later hle, h.origin, fun entry hentry => ?_, h.own⟩
    have hexpiry := h.expiry entry hentry
    show entry.2 ≤ s.now + ms + SIGNATURE_TIMESTAMP_TOLERANCE_MS
    omega

theorem start (lib : AuthLibraries) (now : Int) : Ledgered lib (ApiServer.start now) where
  tracks := .nil now
  origin _ h := absurd h List.not_mem_nil
  expiry _ h := absurd h List.not_mem_nil
  own _ h := absurd h List.not_mem_nil

/-- A signature that is not remembered although its request was in time and recorded it: the
record expires in the last millisecond in which the request is in time. -/
theorem edge {arrival : Arrival} {sig : StellarSig} (h : Ledgered lib s)
    (hmem : arrival ∈ s.arrivals) (hunused : arrival.unused = true)
    (hsig : arrival.request.signed lib = some sig) (harrived : sig.inTime arrival.arrived)
    (hnow : sig.inTime s.now) (hforgotten : ¬ Seen.Remembers s.recorded s.now sig.signature) :
    (arrival.arrived : Rat) = sig.time ∧
      s.now = arrival.arrived + SIGNATURE_TIMESTAMP_TOLERANCE_MS := by
  have hexpired : arrival.arrived + SIGNATURE_TIMESTAMP_TOLERANCE_MS ≤ s.now := by
    by_contra hlive
    exact hforgotten ⟨_, h.own arrival hmem hunused sig hsig harrived, rfl, by omega⟩
  have hcast : (arrival.arrived : Rat) + (SIGNATURE_TIMESTAMP_TOLERANCE_MS : Int) ≤ s.now := by
    exact_mod_cast hexpired
  have hpast := harrived.1
  have hfresh := hnow.2
  have htime : (arrival.arrived : Rat) = sig.time := by linarith
  have hends : (s.now : Rat) = arrival.arrived + (SIGNATURE_TIMESTAMP_TOLERANCE_MS : Int) := by
    linarith
  exact ⟨htime, by exact_mod_cast hends⟩

end Ledgered

/-! ## What one step does -/

/-- A visit that is still open promises nothing. -/
theorem served_of_open {v : Visit} (h : ∀ time result, v.phase ≠ .answered time result) :
    v.Served lib :=
  fun time result hphase => absurd hphase (h time result)

theorem served_set {i : Nat} {v w : Visit} (hv : s.visits[i]? = some v)
    (hall : ∀ x ∈ s.visits, x.Served lib) :
    (∀ x ∈ s.visits.set i w, x.Served lib) ↔ w.Served lib := by
  obtain ⟨hi, -⟩ := List.getElem?_eq_some_iff.mp hv
  constructor
  · intro hset
    exact hset w (List.mem_iff_getElem.mpr ⟨i, by rwa [List.length_set], List.getElem_set_self _⟩)
  · intro hw x hx
    rcases List.mem_or_eq_of_mem_set hx with hold | rfl
    · exact hall x hold
    · exact hw

/-- Actions other than `authorize` answer nobody. -/
theorem honours_of_passive {a : ApiAction} (ha : ∀ i, a ≠ .authorize i)
    (hs : s.HonoursOnce lib) (hnext : s.next lib a = some s') : s'.HonoursOnce lib := by
  cases a with
  | authorize i => exact absurd rfl (ha i)
  | wait ms =>
    obtain rfl := Option.some.inj hnext
    exact hs
  | arrive req =>
    rw [ApiServer.next] at hnext
    obtain rfl := Option.some.inj hnext
    refine ⟨fun v hv => ?_, hs.2⟩
    rcases List.mem_append.mp hv with hold | hnew
    · exact hs.1 v hold
    · obtain rfl := List.mem_singleton.mp hnew
      exact served_of_open fun _ _ h => by cases h
  | turnAway i =>
    obtain ⟨v, hv, rfl⟩ := next_turnAway hnext
    exact ⟨(served_set hv hs.1).mpr (served_of_open fun _ _ h => by cases h), hs.2⟩

/-- The second look at a request keeps the promise just when it comes at an opportune time. -/
theorem honours_authorize_iff {i : Nat} (hledger : Ledgered lib s) (hs : s.HonoursOnce lib)
    (hnext : s.next lib (.authorize i) = some s') :
    s'.HonoursOnce lib ↔ Opportune lib s (.authorize i) := by
  obtain ⟨v, hv, hwaiting⟩ := next_authorize hnext
  have hmem : v.arrival ∈ s.arrivals := List.mem_map_of_mem (List.mem_of_getElem? hv)
  rw [ApiServer.next, hv] at hnext
  dsimp only at hnext
  rw [if_pos hwaiting] at hnext
  have hopportune : Opportune lib s (.authorize i) ↔
      ∀ sig ∈ v.arrival.request.signed lib, sig.inTime s.now →
        (v.arrival.first = true → sig.inTime v.arrival.arrived →
          ¬ Seen.Remembers s.recorded s.now sig.signature ∧
          (v.arrival.unused = true → (v.arrival.arrived : Rat) = sig.time ∧
            s.now = v.arrival.arrived + SIGNATURE_TIMESTAMP_TOLERANCE_MS)) ∧
        (signedMessage lib v.arrival.request sig ∈ s.honoured →
          Seen.Remembers s.recorded s.now sig.signature) := by
    rw [Opportune, hv]
    exact ⟨fun h => h v rfl hwaiting, fun h w hw _ => by rw [← Option.some.inj hw]; exact h⟩
  rw [hopportune]
  rcases requireStellarAuth_cases lib s.seen s.now v.arrival.request with
    ⟨hout, err, hauth⟩ | ⟨sig, hsig, hin, ⟨hhas, hauth⟩ | ⟨hhas, hauth⟩⟩
  · -- The request is not signed, or not in time: nothing is promised.
    rw [hauth] at hnext
    obtain rfl := Option.some.inj hnext
    refine iff_of_true ⟨(served_set hv hs.1).mpr ?_, hs.2⟩ fun sig hsig hin =>
      absurd hin (hout sig hsig)
    intro time result hphase _ sig hsig _ hin
    cases hphase
    exact absurd hin (hout sig hsig)
  · -- The signature is remembered: a first request is refused.
    rw [hauth] at hnext
    obtain rfl := Option.some.inj hnext
    have hremembered := hledger.tracks.has_sweep_iff.mp hhas
    constructor
    · rintro ⟨hserved, -⟩ sig' hsig' _
      obtain rfl := Option.some.inj (hsig.symm.trans hsig')
      refine ⟨fun hfirst harrived => ?_, fun _ => hremembered⟩
      have hw := (served_set hv hs.1).mp hserved _ _ rfl hfirst sig hsig harrived hin
      cases hw.1
    · intro hguard
      refine ⟨(served_set hv hs.1).mpr ?_, hs.2⟩
      intro time result hphase hfirst sig' hsig' harrived _
      obtain rfl := Option.some.inj (hsig.symm.trans hsig')
      exact absurd hremembered ((hguard sig hsig hin).1 hfirst harrived).1
  · -- The signature is not remembered: the request reaches the handler.
    rw [hauth, hsig] at hnext
    obtain rfl := Option.some.inj hnext
    have hforgotten : ¬ Seen.Remembers s.recorded s.now sig.signature := by
      rw [← hledger.tracks.has_sweep_iff, hhas]
      exact Bool.false_ne_true
    constructor
    · rintro ⟨-, hnodup⟩ sig' hsig' _
      obtain rfl := Option.some.inj (hsig.symm.trans hsig')
      refine ⟨fun _ harrived => ⟨hforgotten, fun hunused =>
        hledger.edge hmem hunused hsig harrived hin hforgotten⟩, fun hhonoured => ?_⟩
      obtain ⟨-, -, hapart⟩ := List.nodup_append.mp hnodup
      exact absurd rfl (hapart _ hhonoured _ List.mem_cons_self)
    · intro hguard
      refine ⟨(served_set hv hs.1).mpr ?_, ?_⟩
      · intro time result hphase _ sig' hsig' _ _
        cases hphase
        obtain rfl := Option.some.inj (hsig.symm.trans hsig')
        exact ⟨rfl, rfl⟩
      · refine List.nodup_append.mpr ⟨hs.2, by simp, ?_⟩
        intro m hm m' hm' heq
        obtain rfl := List.mem_singleton.mp hm'
        rw [heq] at hm
        exact hforgotten ((hguard sig hsig hin).2 hm)

theorem honours_next_iff {a : ApiAction} (hledger : Ledgered lib s) (hs : s.HonoursOnce lib)
    (hnext : s.next lib a = some s') : s'.HonoursOnce lib ↔ Opportune lib s a := by
  cases a with
  | authorize i => exact honours_authorize_iff hledger hs hnext
  | arrive => exact iff_of_true (honours_of_passive (fun _ h => by cases h) hs hnext) trivial
  | turnAway => exact iff_of_true (honours_of_passive (fun _ h => by cases h) hs hnext) trivial
  | wait => exact iff_of_true (honours_of_passive (fun _ h => by cases h) hs hnext) trivial

/-! ## Whole runs -/

/-- First requests are served and no message is honoured twice throughout a run just when every
second look comes at an opportune time. -/
theorem honoured_once_iff (lib : AuthLibraries) (now : Int) {actions : List ApiAction}
    {s : ApiServer} (hrun : Run (StepOf (ApiServer.next lib)) (ApiServer.start now) actions s) :
    Throughout (ApiServer.next lib) (ApiServer.HonoursOnce lib) (ApiServer.start now) actions ↔
      Run (Run.Guarded (StepOf (ApiServer.next lib)) (Opportune lib)) (ApiServer.start now)
        actions s := by
  have hstart : (ApiServer.start now).HonoursOnce lib :=
    ⟨fun _ h => absurd h List.not_mem_nil, List.nodup_nil⟩
  constructor
  · refine guarded_of_throughout (J := fun x => Ledgered lib x ∧ x.HonoursOnce lib)
      ⟨.start lib now, hstart⟩ ?_ ?_ hrun
    · rintro x a y ⟨hledger, hx⟩ hguard hnext
      exact ⟨hledger.next hnext, (honours_next_iff hledger hx hnext).mpr hguard⟩
    · rintro x a y ⟨hledger, hx⟩ hnext hy
      exact (honours_next_iff hledger hx hnext).mp hy
  · intro hg
    refine (throughout_of_guarded (I := fun x => Ledgered lib x ∧ x.HonoursOnce lib)
      ⟨.start lib now, hstart⟩ ?_ hg).mono fun _ h => h.2
    rintro x a y ⟨hledger, hx⟩ hguard hnext
    exact ⟨hledger.next hnext, (honours_next_iff hledger hx hnext).mpr hguard⟩

/-! ## One request -/

/-- Two payloads of one signed message of time 1000, which spell its signature differently. -/
def demoLibraries : AuthLibraries where
  parse payload :=
    if payload =
      "eyJhZGRyZXNzIjoiR0FMSUNFIiwidGltZXN0YW1wIjoxMDAwLCJzaWduYXR1cmUiOiJ6UT09In0=" then
      some ⟨some "GALICE", some ⟨"1000", some 1000⟩, some "zQ=="⟩
    else if payload =
      "eyJhZGRyZXNzIjoiR0FMSUNFIiwidGltZXN0YW1wIjoxMDAwLCJzaWduYXR1cmUiOiJ6Uj09In0=" then
      some ⟨some "GALICE", some ⟨"1000", some 1000⟩, some "zR=="⟩
    else none
  sha256 message := [UInt8.ofNat (message.foldl (fun h b => (h * 7 + b.toNat) % 251) 1)]
  verify _ hash signature := decide (signature = hash)

def signedPost : HttpRequest where
  method := "POST"
  originalUrl := "/api/messages"
  rawBody := some (Text.utf8 "\x7b\x7d")
  authorization := some ("StellarSig " ++
    "eyJhZGRyZXNzIjoiR0FMSUNFIiwidGltZXN0YW1wIjoxMDAwLCJzaWduYXR1cmUiOiJ6UT09In0=")

def respelledPost : HttpRequest :=
  { signedPost with
    authorization := some ("StellarSig " ++
      "eyJhZGRyZXNzIjoiR0FMSUNFIiwidGltZXN0YW1wIjoxMDAwLCJzaWduYXR1cmUiOiJ6Uj09In0=") }

/-- The record of the request expires in its last millisecond; when it is sent again it is
refused. -/
def lastMillisecond : List ApiAction :=
  [.arrive signedPost, .wait 30000, .authorize 0, .arrive signedPost, .authorize 1]

theorem honoured_once_iff_late : ∃ s,
    Run (StepOf (ApiServer.next demoLibraries)) (ApiServer.start 1000) lastMillisecond s ∧
    s.honoured.map (·.address) = ["GALICE"] ∧
    Throughout (ApiServer.next demoLibraries) (ApiServer.HonoursOnce demoLibraries)
      (ApiServer.start 1000) lastMillisecond := by
  have hsome : (walk (restrict (ApiServer.next demoLibraries) (Opportune demoLibraries))
      lastMillisecond (ApiServer.start 1000)).map (·.honoured.map (·.address)) =
        some ["GALICE"] := by
    decide +kernel
  obtain ⟨s, hs, hhonoured⟩ := Option.map_eq_some_iff.mp hsome
  have hg := guarded_of_walk hs
  exact ⟨s, hg.of_guarded, hhonoured, (honoured_once_iff _ _ hg.of_guarded).mpr hg⟩

/-- A request that is looked at without delay is refused by its own record, and two spellings of
one signature are both honoured in the last millisecond. -/
theorem signed_post_refused :
    (∀ address hash signature signature', demoLibraries.verify address hash signature = true →
      demoLibraries.verify address hash signature' = true → signature = signature') ∧
    (∃ s v, Run (StepOf (ApiServer.next demoLibraries)) (ApiServer.start 1000)
        [.arrive signedPost, .authorize 0] s ∧ v ∈ s.visits ∧ v.arrival.request = signedPost ∧
      v.arrival.first = true ∧ v.phase = .answered 1000 (.error replayedSignature) ∧
      ¬ v.Served demoLibraries) ∧
    (∃ s, Run (StepOf (ApiServer.next demoLibraries)) (ApiServer.start 1000)
        [.arrive signedPost, .arrive respelledPost, .wait 30000, .authorize 0, .authorize 1] s ∧
      ¬ s.honoured.Nodup) := by
  refine ⟨fun address hash signature signature' h h' =>
    (of_decide_eq_true h).trans (of_decide_eq_true h').symm, ?_, ?_⟩
  · have hsome : (walk (ApiServer.next demoLibraries) [.arrive signedPost, .authorize 0]
        (ApiServer.start 1000)).map (·.visits) = some [⟨⟨signedPost, 1000, true, true⟩,
          some "GALICE", .answered 1000 (.error replayedSignature)⟩] := by
      decide +kernel
    obtain ⟨s, hs, hvisits⟩ := Option.map_eq_some_iff.mp hsome
    refine ⟨s, _, run_of_walk hs, hvisits ▸ List.mem_cons_self, rfl, rfl, rfl, fun hserved => ?_⟩
    have hsigned : signedPost.signed demoLibraries = some ⟨"GALICE", ⟨"1000", some 1000⟩, 1000,
        "zQ=="⟩ := by
      decide +kernel
    have hresult := hserved _ _ rfl rfl _ hsigned (by decide +kernel) (by decide +kernel)
    cases hresult.1
  · have hsome : (walk (ApiServer.next demoLibraries) [.arrive signedPost, .arrive respelledPost,
        .wait 30000, .authorize 0, .authorize 1] (ApiServer.start 1000)).map
          (fun s => decide s.honoured.Nodup) = some false := by
      decide +kernel
    obtain ⟨s, hs, htwice⟩ := Option.map_eq_some_iff.mp hsome
    exact ⟨s, run_of_walk hs, of_decide_eq_false htwice⟩

end Indexer
end Linkora
