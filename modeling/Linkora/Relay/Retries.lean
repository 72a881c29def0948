import Mathlib.Data.List.Perm.Basic
import Linkora.Relay.Replays
import Linkora.Relay.Submission

/-!
# What a retry of a submission achieves

A claim is settled by the response of the request that owns it, and whoever is answered from
its row gets that response.  A retry gets the answer of the first request just when it reaches
that row: the signature guard refuses a signature that it remembers, and a claim whose owner
failed before the insert is never settled, so that its key stores no message while it is
retained.
-/

namespace Linkora
namespace Relay

/-! ## What is promised -/

/-- The process ended, or a query failed. -/
def Visit.failed (v : Visit) : Bool :=
  match v.phase with
  | .lost => true
  | .answered answer => answer.failure
  | _ => false

def Visit.inFlight (v : Visit) : Bool :=
  match v.phase with
  | .lost | .answered _ => false
  | _ => true

/-- The request owns a claim and has not inserted its message. -/
def Visit.inserting (v : Visit) : Bool :=
  match v.phase with
  | .inserting _ => true
  | _ => false

namespace Intake

/-- Under one claim of a key at most one message was stored while the key was retained. -/
def OncePerKey (s : Intake) : Prop :=
  s.handled.Pairwise fun h h' => h.retained ≠ none → h.retained ≠ h'.retained

/-- A request that was in time has been answered what the same bytes had been answered before. -/
def SameAnswers (s : Intake) : Prop :=
  ∀ v ∈ s.visits, ∀ answer, v.phase = .answered answer →
    ∀ e ∈ v.earlier, answer.response = e.response

/-- No request with the key is under way, and for none has a handler stored a message or refused
it for another reason than a failing query. -/
structure Abandoned (s : Intake) (sender key : String) : Prop where
  ended : ∀ v ∈ s.visits, ∀ admitted ∈ v.admitted, admitted.1.sender = sender →
    admitted.2 = key → v.inFlight = false
  unstored : ∀ h ∈ s.handled, h.sender = sender → h.key = key →
    h.failure = true ∧ h.stored = false

/-- A request for the message of `data` under the key, signed as `data'`, that the middlewares
let through, and whose index the table has not seen. -/
structure RetryOf (P : Platform) (cfg : RelayConfig) (s : Intake) (data : AuthData)
    (key : String) (request : PostRequest) (data' : AuthData) : Prop where
  parsed : parseSendMessage cfg.maxMessageBytes request.body = .ok data'
  sameKey : ∀ requestId, checkKey request.key requestId = .ok key
  sameMessage : data'.sender = data.sender ∧ data'.recipient = data.recipient ∧
    data'.nonce = data.nonce ∧ data'.ciphertext = data.ciphertext
  valid : checkMessageAuth P.toStellar cfg.maxTimestampSkew s.now data' = .ok ()
  unseen : (s.seen.sweep s.now).has data'.signature = false
  unused : (data'.sender, data'.recipient, data'.nonce) ∉
    s.rows.map fun r => (r.sender, r.recipient, r.messageIndex)

/-- A submission that a failure kept from being stored is stored by a retry with its key. -/
def Recoverable (P : Platform) (cfg : RelayConfig) (s : Intake) : Prop :=
  ∀ v ∈ s.visits, v.failed = true → ∀ data key, v.admitted = some (data, key) →
    s.Abandoned data.sender key → ∀ request data', s.RetryOf P cfg data key request data' →
    ∀ requestId id createdAt, id ∉ s.rows.map (·.id) →
      ∃ s', walk (next P cfg) [.arrive request requestId none, .claim s.visits.length .ok,
          .insert s.visits.length .ok "" id createdAt] s = some s' ∧
        data'.toRow P.toStellar id createdAt ∈ s'.rows

/-- Retrying is safe and effective. -/
structure Retryable (P : Platform) (cfg : RelayConfig) (s : Intake) : Prop where
  once : s.OncePerKey
  same : s.SameAnswers
  recoverable : s.Recoverable P cfg

/-! ## When retries work -/

/-- The request passes the signature guard, the rate limiter and the check of its header. -/
def Admits (P : Platform) (cfg : RelayConfig) (s : Intake) (request : PostRequest)
    (limiter : Option String) : Prop :=
  match parseSendMessage cfg.maxMessageBytes request.body with
  | .error _ => False
  | .ok data =>
    checkMessageAuth P.toStellar cfg.maxTimestampSkew s.now data = .ok () ∧
      (s.seen.sweep s.now).has data.signature = false ∧ limiter = none ∧
      request.key.any isUuid = true

instance (P : Platform) (cfg : RelayConfig) (s : Intake) (request : PostRequest)
    (limiter : Option String) : Decidable (s.Admits P cfg request limiter) := by
  unfold Admits
  split <;> infer_instance

/-- No request owns a claim without having been answered. -/
def NoneInserting (s : Intake) : Prop := ∀ v ∈ s.visits, v.inserting = false

/-- A retry of an answered request finds a row under its key, and a query that fails has not
added one. -/
def SmoothClaim (s : Intake) (outcome : Outcome) (v : Visit) (data : AuthData) (key : String) :
    Prop :=
  v.phase = .claiming →
    (v.earlier ≠ [] → outcome = .ok ∧ s.keyRow data.sender key ≠ none) ∧
    (outcome = .failed true → s.keyRow data.sender key ≠ none)

/-- A retry of an answered request finds its own fingerprint, and, if there is a response, the
claim that has settled the earlier request. -/
def SmoothRead (P : Platform) (s : Intake) (outcome : Outcome) (v : Visit) (data : AuthData)
    (key : String) : Prop :=
  v.phase = .reading → v.earlier ≠ [] → outcome = .ok ∧
    ∀ row ∈ s.keyRow data.sender key,
      row.requestFingerprint = fingerprintRequestBody P.toStellar data ∧
      (row.response ≠ none → ∀ e ∈ v.earlier, e.settled = some row.claim)

/-- A retry of an answered request does not wait in vain, and what it finds is the claim that has
settled the earlier request.  A query that fails ends the process. -/
def SmoothPoll (s : Intake) (outcome : Outcome) (v : Visit) (data : AuthData) (key : String) :
    Prop :=
  match v.phase, outcome with
  | .polling attempts, .ok => v.earlier ≠ [] →
    match s.getIdempotencyResponse data.sender key with
    | some (_, claim) => ∀ e ∈ v.earlier, e.settled = some claim
    | none => attempts + 1 < CONCURRENT_WAIT_ATTEMPTS
  | .polling _, .failed _ => s.NoneInserting
  | _, _ => True

/-- An insert that fails has stored the message. -/
def SmoothInsert (P : Platform) (s : Intake) (outcome : Outcome) (id : String) (createdAt : Int)
    (v : Visit) (data : AuthData) : Prop :=
  v.inserting = true → outcome ≠ .ok → outcome = .failed true ∧
    (insertMessage s.rows (data.toRow P.toStellar id createdAt)).toOption ≠ none

/-- The condition for the request `i`, if it has been let through. -/
def AtVisit (s : Intake) (i : Nat) (C : Visit → AuthData → String → Prop) : Prop :=
  ∀ v ∈ s.visits[i]?, ∀ admitted ∈ v.admitted, C v admitted.1 admitted.2

/-- A timely retry of a request that was answered is let through, and it reaches the row of the
claim that settled the request; nothing fails between a claim and the insert; and a key is kept
until its claim is settled. -/
def Smooth (P : Platform) (cfg : RelayConfig) (s : Intake) : IntakeAction → Prop
  | .arrive request _ limiter =>
    s.inTime cfg request = true → s.answersTo request ≠ [] → s.Admits P cfg request limiter
  | .claim i outcome => s.AtVisit i (s.SmoothClaim outcome)
  | .read i outcome => s.AtVisit i (s.SmoothRead P outcome)
  | .poll i outcome => s.AtVisit i (s.SmoothPoll outcome)
  | .insert i outcome _ id createdAt =>
    s.AtVisit i fun v data _ => s.SmoothInsert P outcome id createdAt v data
  | .expireKey sender key =>
    (∀ v ∈ s.visits, v.inserting = true → ∀ admitted ∈ v.admitted,
      ¬ (admitted.1.sender = sender ∧ admitted.2 = key)) ∧
    ∀ c ∈ s.completions, ¬ (c.sender = sender ∧ c.key = key)
  | .crash => s.NoneInserting
  | .complete .. | .expire _ | .wait _ => True

section Decidability

variable (P : Platform) (cfg : RelayConfig) (s : Intake)

instance : Decidable s.NoneInserting := inferInstanceAs (Decidable (∀ v ∈ s.visits, _))

instance (outcome : Outcome) (v : Visit) (data : AuthData) (key : String) :
    Decidable (s.SmoothClaim outcome v data key) :=
  inferInstanceAs (Decidable (_ → _ ∧ _))

instance (outcome : Outcome) (v : Visit) (data : AuthData) (key : String) :
    Decidable (s.SmoothRead P outcome v data key) :=
  inferInstanceAs (Decidable (_ → _ → _ ∧ ∀ row ∈ s.keyRow data.sender key, _))

instance (outcome : Outcome) (v : Visit) (data : AuthData) (key : String) :
    Decidable (s.SmoothPoll outcome v data key) := by
  unfold SmoothPoll
  split
  · split <;> infer_instance
  · infer_instance
  · infer_instance

instance (outcome : Outcome) (id : String) (createdAt : Int) (v : Visit) (data : AuthData) :
    Decidable (s.SmoothInsert P outcome id createdAt v data) :=
  inferInstanceAs (Decidable (_ → _ → _ ∧ _))

instance (i : Nat) (C : Visit → AuthData → String → Prop) [∀ v data key, Decidable (C v data key)] :
    Decidable (s.AtVisit i C) :=
  inferInstanceAs (Decidable (∀ v ∈ s.visits[i]?, ∀ admitted ∈ v.admitted, _))

instance (a : IntakeAction) : Decidable (s.Smooth P cfg a) := by
  cases a <;> unfold Smooth <;> infer_instance

end Decidability

/-! ## Claims and their settlement -/

/-- Who owns a claim: the key it is for. -/
structure Owner where
  claim : Nat
  sender : String
  key : String
  deriving DecidableEq

/-- The claim that a request owns without having been answered. -/
def ownerOf (v : Visit) : Option Owner :=
  match v.phase, v.admitted with
  | .inserting claim, some (data, key) => some ⟨claim, data.sender, key⟩
  | _, _ => none

def owners (s : Intake) : List Owner := s.visits.filterMap ownerOf

/-- The claim has been settled with the response. -/
def Settled (s : Intake) (claim : Nat) (response : ApiResponse) : Prop :=
  ∃ h ∈ s.handled, h.claim = claim ∧ h.response = response

/-- The answer of a request is the one of the claim that it names, and what the same bytes were
answered before. -/
structure WellAnswered (s : Intake) (v : Visit) : Prop where
  settled : ∀ answer, v.phase = .answered answer → ∀ n, answer.settled = some n →
    s.Settled n answer.response
  same : ∀ answer, v.phase = .answered answer → ∀ e ∈ v.earlier, answer.response = e.response
  earlier : ∀ e ∈ v.earlier, ∀ n, e.settled = some n → s.Settled n e.response
  firstly : v.inserting = true → v.earlier = []

/-- What smooth steps keep. -/
structure Sound (s : Intake) : Prop where
  keyed : Rows.Keyed (fun row : KeyRow => (row.sender, row.key)) s.keys
  claimed : ∀ row ∈ s.keys, row.claim < s.claims
  handledOnce : (s.handled.map (·.claim)).Nodup
  numbered : ∀ h ∈ s.handled, h.claim < s.claims
  ownedOnce : (s.owners.map (·.claim)).Nodup
  unsettled : ∀ o ∈ s.owners, o.claim ∉ s.handled.map (·.claim)
  pending : ∀ o ∈ s.owners, ∃ row ∈ s.keys, row.sender = o.sender ∧ row.key = o.key ∧
    row.claim = o.claim ∧ row.response = none
  completing : ∀ c ∈ s.completions, s.Settled c.claim c.response ∧
    ∃ row ∈ s.keys, row.sender = c.sender ∧ row.key = c.key ∧ row.claim = c.claim
  recorded : ∀ row ∈ s.keys, ∀ response, row.response = some response →
    s.Settled row.claim response
  /-- A row is there because its owner is at work, has stored the message or had to refuse it. -/
  alive : ∀ row ∈ s.keys, (∃ o ∈ s.owners, o.sender = row.sender ∧ o.key = row.key) ∨
    ∃ h ∈ s.handled, h.sender = row.sender ∧ h.key = row.key ∧
      (h.failure = false ∨ h.stored = true)
  retained : ∀ h ∈ s.handled, ∀ n, h.retained = some n → n = h.claim
  answers : ∀ v ∈ s.visits, s.WellAnswered v

section Facts

variable {s s' : Intake}

theorem Settled.unique (h : s.Sound) {n : Nat} {r r' : ApiResponse} (hr : s.Settled n r)
    (hr' : s.Settled n r') : r = r' := by
  obtain ⟨x, hx, hxn, rfl⟩ := hr
  obtain ⟨y, hy, hyn, rfl⟩ := hr'
  rw [List.inj_on_of_nodup_map h.handledOnce hx hy (hxn.trans hyn.symm)]

theorem Settled.mem {n : Nat} {r : ApiResponse} (h : s.Settled n r) :
    n ∈ s.handled.map (·.claim) := by
  obtain ⟨x, hx, rfl, -⟩ := h
  exact List.mem_map_of_mem hx

theorem keyRow_eq_some {sender key : String} {row : KeyRow} (h : s.keyRow sender key = some row) :
    row ∈ s.keys ∧ row.sender = sender ∧ row.key = key := by
  have hfound := List.find?_some h
  rw [decide_eq_true_eq] at hfound
  exact ⟨List.mem_of_find?_eq_some h, hfound⟩

theorem keyRow_eq_none {sender key : String} :
    s.keyRow sender key = none ↔ ∀ row ∈ s.keys, ¬ (row.sender = sender ∧ row.key = key) := by
  rw [keyRow, List.find?_eq_none]
  refine forall₂_congr fun row _ => ?_
  rw [decide_eq_true_eq]

theorem Sound.row_unique (h : s.Sound) {row row' : KeyRow} (hrow : row ∈ s.keys)
    (hrow' : row' ∈ s.keys) (hsender : row.sender = row'.sender) (hkey : row.key = row'.key) :
    row = row' :=
  h.keyed.eq_of_key hrow hrow' (Prod.ext hsender hkey)

theorem Sound.once (h : s.Sound) : s.OncePerKey := by
  have hclaims := List.pairwise_map.mp h.handledOnce
  refine List.Pairwise.imp_of_mem (fun {x y} hx hy hne hretained => ?_) hclaims
  intro hsame
  obtain ⟨n, hn⟩ := Option.ne_none_iff_exists'.mp hretained
  exact hne ((h.retained x hx n hn).symm.trans (h.retained y hy n (hsame.symm.trans hn)))

theorem Sound.sameAnswers (h : s.Sound) : s.SameAnswers :=
  fun v hv answer hanswer => (h.answers v hv).same answer hanswer

/-- The other owners, when a visit is put in the place of another. -/
theorem owners_perm {i : Nat} {v : Visit} (hv : s.visits[i]? = some v) (w : Visit) :
    ∃ rest, s.owners.Perm ((ownerOf v).toList ++ rest) ∧
      ((s.visits.set i w).filterMap ownerOf).Perm ((ownerOf w).toList ++ rest) := by
  obtain ⟨hi, rfl⟩ := List.getElem?_eq_some_iff.mp hv
  have hcons : ∀ (x : Visit) (xs : List Visit),
      (x :: xs).filterMap ownerOf = (ownerOf x).toList ++ xs.filterMap ownerOf := by
    intro x xs
    rw [List.filterMap_cons]
    cases ownerOf x <;> rfl
  refine ⟨(s.visits.eraseIdx i).filterMap ownerOf, ?_, ?_⟩
  · rw [← hcons]
    exact (List.getElem_cons_eraseIdx_perm hi).symm.filterMap _
  · rw [← hcons]
    exact (List.set_perm_cons_eraseIdx hi w).filterMap _

theorem ownerOf_eq_none {v : Visit} (h : v.inserting = false) : ownerOf v = none := by
  unfold Visit.inserting at h
  unfold ownerOf
  split at h
  · cases h
  · rename_i hphase
    split
    · rename_i hinserting _
      exact absurd hinserting (hphase _)
    · rfl

theorem WellAnswered.mono {v : Visit} (h : s.WellAnswered v)
    (hhandled : ∀ x ∈ s.handled, x ∈ s'.handled) : s'.WellAnswered v where
  settled answer hanswer n hn := by
    obtain ⟨x, hx, hxs⟩ := h.settled answer hanswer n hn
    exact ⟨x, hhandled x hx, hxs⟩
  same := h.same
  earlier e he n hn := by
    obtain ⟨x, hx, hxs⟩ := h.earlier e he n hn
    exact ⟨x, hhandled x hx, hxs⟩
  firstly := h.firstly

/-- A change that leaves the claims alone. -/
theorem Sound.transfer (h : s.Sound) (hkeys : s'.keys = s.keys) (hclaims : s'.claims = s.claims)
    (hcompletions : ∀ c ∈ s'.completions, c ∈ s.completions) (hhandled : s'.handled = s.handled)
    (howners : s'.owners.Perm s.owners) (hvisits : ∀ v ∈ s'.visits, s.WellAnswered v) :
    s'.Sound where
  keyed := by rw [hkeys]; exact h.keyed
  claimed := by rw [hkeys, hclaims]; exact h.claimed
  handledOnce := by rw [hhandled]; exact h.handledOnce
  numbered := by rw [hhandled, hclaims]; exact h.numbered
  ownedOnce := (howners.map _).nodup_iff.mpr h.ownedOnce
  unsettled o ho := by
    rw [hhandled]
    exact h.unsettled o (howners.mem_iff.mp ho)
  pending o ho := by
    rw [hkeys]
    exact h.pending o (howners.mem_iff.mp ho)
  completing c hc := by
    rw [Settled, hhandled, hkeys]
    exact h.completing c (hcompletions c hc)
  recorded := by
    simp only [Settled, hhandled, hkeys]
    exact h.recorded
  alive row hrow := by
    rw [hkeys] at hrow
    rw [hhandled]
    refine (h.alive row hrow).imp_left ?_
    rintro ⟨o, ho, hsame⟩
    exact ⟨o, howners.mem_iff.mpr ho, hsame⟩
  retained := by rw [hhandled]; exact h.retained
  answers v hv := (hvisits v hv).mono fun x hx => by rwa [hhandled]

theorem Sound.setVisit (h : s.Sound) {i : Nat} {v w : Visit} (hv : s.visits[i]? = some v)
    (hnone : v.inserting = false) (hnone' : w.inserting = false) (hw : s.WellAnswered w) :
    Sound { s with visits := s.visits.set i w } := by
  obtain ⟨rest, hbefore, hafter⟩ := owners_perm hv w
  rw [ownerOf_eq_none hnone] at hbefore
  rw [ownerOf_eq_none hnone'] at hafter
  refine h.transfer rfl rfl (fun _ hc => hc) rfl (hafter.trans hbefore.symm) fun x hx => ?_
  rcases List.mem_or_eq_of_mem_set hx with hold | rfl
  · exact h.answers x hold
  · exact hw

theorem Sound.addVisit (h : s.Sound) {w : Visit} (hnone : w.inserting = false)
    (hw : s.WellAnswered w) (seen : Seen String) :
    Sound { s with seen, visits := s.visits ++ [w] } := by
  refine h.transfer rfl rfl (fun _ hc => hc) rfl ?_ fun x hx => ?_
  · rw [owners, List.filterMap_append, List.filterMap_cons, ownerOf_eq_none hnone,
      List.filterMap_nil, List.append_nil]
    exact List.Perm.refl _
  · rcases List.mem_append.mp hx with hold | hnew
    · exact h.answers x hold
    · obtain rfl := List.mem_singleton.mp hnew
      exact hw

/-- Nobody owns a claim, and the process ends. -/
theorem Sound.crash (h : s.Sound) (hnone : s.NoneInserting) : s.crash.Sound := by
  have hempty : s.owners = [] := by
    rw [owners, List.filterMap_eq_nil_iff]
    exact fun v hv => ownerOf_eq_none (hnone v hv)
  have hlost : ∀ w ∈ s.crash.visits, w.inserting = false ∧ s.WellAnswered w := by
    intro w hw
    obtain ⟨v, hv, rfl⟩ := List.mem_map.mp hw
    split
    · exact ⟨hnone v hv, h.answers v hv⟩
    · exact ⟨rfl, nofun, nofun, (h.answers v hv).earlier, nofun⟩
  refine h.transfer rfl rfl (fun _ hc => absurd hc List.not_mem_nil) rfl ?_ fun w hw =>
    (hlost w hw).2
  rw [hempty, owners, List.perm_nil, List.filterMap_eq_nil_iff]
  exact fun w hw => ownerOf_eq_none (hlost w hw).1

/-- A request claims a key that has no row. -/
theorem Sound.claimKey (h : s.Sound) {i : Nat} {v : Visit} {data : AuthData} {key : String}
    (hv : s.visits[i]? = some v) (hadmitted : v.admitted = some (data, key))
    (hnone : v.inserting = false) (hearlier : v.earlier = [])
    (hrow : s.keyRow data.sender key = none) (requestFingerprint : String) :
    Sound { s with
      keys := s.keys ++ [⟨data.sender, key, requestFingerprint, none, s.claims⟩]
      claims := s.claims + 1
      visits := s.visits.set i { v with phase := .inserting s.claims } } := by
  rw [keyRow_eq_none] at hrow
  obtain ⟨rest, hbefore, hafter⟩ := owners_perm hv { v with phase := .inserting s.claims }
  have howner : ownerOf { v with phase := .inserting s.claims } =
      some ⟨s.claims, data.sender, key⟩ := by
    rw [ownerOf, hadmitted]
  rw [ownerOf_eq_none hnone, Option.toList_none, List.nil_append] at hbefore
  rw [howner, Option.toList_some, List.singleton_append] at hafter
  have howners := hafter.trans (hbefore.symm.cons _)
  have hmem := fun o : Owner => howners.mem_iff (a := o)
  have hold : ∀ o ∈ s.owners, o.claim < s.claims := by
    intro o ho
    obtain ⟨row, hrow, -, -, hclaim, -⟩ := h.pending o ho
    exact hclaim ▸ h.claimed row hrow
  refine ⟨?_, ?_, h.handledOnce, fun x hx => Nat.lt_succ_of_lt (h.numbered x hx), ?_, ?_, ?_, ?_,
    ?_, ?_, h.retained, ?_⟩
  · refine h.keyed.append fun hused => ?_
    obtain ⟨row, hmem, hsame⟩ := List.mem_map.mp hused
    exact hrow row hmem (Prod.mk.inj hsame)
  · intro row hmem
    rcases List.mem_append.mp hmem with hmem | hmem
    · exact Nat.lt_succ_of_lt (h.claimed row hmem)
    · obtain rfl := List.mem_singleton.mp hmem
      exact Nat.lt_succ_self _
  · refine (howners.map _).nodup_iff.mpr (List.nodup_cons.mpr ⟨fun hused => ?_, h.ownedOnce⟩)
    obtain ⟨o, ho, hclaim⟩ := List.mem_map.mp hused
    have hlt := hold o ho
    rw [hclaim] at hlt
    exact absurd hlt (lt_irrefl _)
  · intro o ho hsettled
    rcases List.mem_cons.mp ((hmem _).mp ho) with rfl | ho
    · obtain ⟨x, hx, hclaim⟩ := List.mem_map.mp hsettled
      have hlt := h.numbered x hx
      rw [hclaim] at hlt
      exact absurd hlt (lt_irrefl _)
    · exact h.unsettled o ho hsettled
  · intro o ho
    rcases List.mem_cons.mp ((hmem _).mp ho) with rfl | ho
    · exact ⟨_, List.mem_append_right _ List.mem_cons_self, rfl, rfl, rfl, rfl⟩
    · obtain ⟨row, hrow, hsame⟩ := h.pending o ho
      exact ⟨row, List.mem_append_left _ hrow, hsame⟩
  · intro c hc
    obtain ⟨hsettled, row, hrow, hsame⟩ := h.completing c hc
    exact ⟨hsettled, row, List.mem_append_left _ hrow, hsame⟩
  · intro row hmem response hresponse
    rcases List.mem_append.mp hmem with hmem | hmem
    · exact h.recorded row hmem response hresponse
    · obtain rfl := List.mem_singleton.mp hmem
      cases hresponse
  · intro row hrow
    rcases List.mem_append.mp hrow with hrow | hrow
    · refine (h.alive row hrow).imp_left ?_
      rintro ⟨o, ho, hsame⟩
      exact ⟨o, (hmem _).mpr (List.mem_cons_of_mem _ ho), hsame⟩
    · obtain rfl := List.mem_singleton.mp hrow
      exact Or.inl ⟨_, (hmem _).mpr List.mem_cons_self, rfl, rfl⟩
  · intro x hx
    rcases List.mem_or_eq_of_mem_set hx with hx | rfl
    · exact (h.answers x hx).mono fun _ hx => hx
    · refine ⟨nofun, nofun, fun e he => ?_, fun _ => hearlier⟩
      rw [hearlier] at he
      exact absurd he List.not_mem_nil

/-- The owner of a claim answers, having stored its message unless it had to refuse it. -/
theorem Sound.respond (h : s.Sound) {i : Nat} {v : Visit} {data : AuthData} {key : String}
    {claim : Nat} (hv : s.visits[i]? = some v) (hadmitted : v.admitted = some (data, key))
    (hphase : v.phase = .inserting claim) (response : ApiResponse) {failure stored : Bool}
    (hgood : failure = false ∨ stored = true) (rows : List DbMessage) :
    Sound { s.respond i v data key claim response failure stored with rows } := by
  have howner : ownerOf v = some ⟨claim, data.sender, key⟩ := by
    rw [ownerOf, hphase, hadmitted]
  have hinserting : v.inserting = true := by
    rw [Visit.inserting, hphase]
  have hearlier := (h.answers v (List.mem_of_getElem? hv)).firstly hinserting
  obtain ⟨rest, hbefore, hafter⟩ :=
    owners_perm hv { v with phase := .answered ⟨response, some claim, failure⟩ }
  rw [howner, Option.toList_some, List.singleton_append] at hbefore
  rw [ownerOf_eq_none rfl, Option.toList_none, List.nil_append] at hafter
  have howners := hbefore.trans (hafter.symm.cons _)
  have hmem := fun o : Owner => howners.mem_iff (a := o)
  have hself := (hmem _).mpr List.mem_cons_self
  obtain ⟨row₀, hrow₀, hsender₀, hkey₀, hclaim₀, -⟩ := h.pending _ hself
  have hdistinct := (howners.map Owner.claim).nodup_iff.mp h.ownedOnce
  have hretained : ∀ n, (if stored = true then (s.keyRow data.sender key).map (·.claim) else none) =
      some n → n = claim := by
    intro n hn
    split at hn
    · obtain ⟨row, hrow, rfl⟩ := Option.map_eq_some_iff.mp hn
      obtain ⟨hrow, hsender, hkey⟩ := keyRow_eq_some hrow
      rw [h.row_unique hrow hrow₀ (hsender.trans hsender₀.symm) (hkey.trans hkey₀.symm), hclaim₀]
    · cases hn
  have hsettled : ∀ {n r}, s.Settled n r →
      Settled { s.respond i v data key claim response failure stored with rows } n r := by
    rintro n r ⟨x, hx, hxs⟩
    exact ⟨x, List.mem_append_left _ hx, hxs⟩
  have hnew : Settled { s.respond i v data key claim response failure stored with rows } claim
      response := ⟨_, List.mem_append_right _ List.mem_cons_self, rfl, rfl⟩
  refine ⟨h.keyed, h.claimed, ?_, ?_, ?_, ?_, ?_, ?_, ?_, ?_, ?_, ?_⟩
  · show (List.map (fun x : Handled => x.claim) (s.handled ++ [_])).Nodup
    rw [List.map_append, List.map_singleton, ← List.concat_eq_append]
    exact List.Nodup.concat (h.unsettled _ hself) h.handledOnce
  · intro x hx
    rcases List.mem_append.mp hx with hx | hx
    · exact h.numbered x hx
    · obtain rfl := List.mem_singleton.mp hx
      have hlt := h.claimed row₀ hrow₀
      rwa [hclaim₀] at hlt
  · exact (List.nodup_cons.mp hdistinct).2
  · intro o ho hused
    have hold := (hmem _).mpr (List.mem_cons_of_mem _ ho)
    obtain ⟨x, hx, hclaim⟩ := List.mem_map.mp hused
    rcases List.mem_append.mp hx with hx | hx
    · exact h.unsettled o hold (hclaim ▸ List.mem_map_of_mem hx)
    · obtain rfl := List.mem_singleton.mp hx
      have hsame : claim = o.claim := hclaim
      have hused := List.mem_map_of_mem (f := Owner.claim) ho
      rw [← hsame] at hused
      exact (List.nodup_cons.mp hdistinct).1 hused
  · intro o ho
    exact h.pending o ((hmem _).mpr (List.mem_cons_of_mem _ ho))
  · intro c hc
    rcases List.mem_append.mp hc with hc | hc
    · exact ⟨hsettled (h.completing c hc).1, (h.completing c hc).2⟩
    · obtain rfl := List.mem_singleton.mp hc
      exact ⟨hnew, row₀, hrow₀, hsender₀, hkey₀, hclaim₀⟩
  · exact fun row hrow r hr => hsettled (h.recorded row hrow r hr)
  · intro row hrow
    rcases h.alive row hrow with ⟨o, ho, hsender, hkey⟩ | ⟨x, hx, hsame⟩
    · rcases List.mem_cons.mp ((hmem _).mp ho) with rfl | ho
      · exact Or.inr ⟨_, List.mem_append_right _ List.mem_cons_self, hsender, hkey, hgood⟩
      · exact Or.inl ⟨o, ho, hsender, hkey⟩
    · exact Or.inr ⟨x, List.mem_append_left _ hx, hsame⟩
  · intro x hx n hn
    rcases List.mem_append.mp hx with hx | hx
    · exact h.retained x hx n hn
    · obtain rfl := List.mem_singleton.mp hx
      exact hretained n hn
  · intro x hx
    rcases List.mem_or_eq_of_mem_set hx with hx | rfl
    · exact (h.answers x hx).mono fun _ hx => List.mem_append_left _ hx
    · refine ⟨fun answer hanswer n hn => ?_, fun answer hanswer e he => ?_, fun e he => ?_, nofun⟩
      · cases hanswer
        rw [← Option.some.inj hn]
        exact hnew
      · rw [hearlier] at he
        exact absurd he List.not_mem_nil
      · rw [hearlier] at he
        exact absurd he List.not_mem_nil

/-- The response is recorded under the key of its claim. -/
theorem Sound.complete (h : s.Sound) {i : Nat} {applied : Bool}
    (hnext : s.complete i applied = some s') : s'.Sound := by
  unfold Intake.complete at hnext
  cases hc : s.completions[i]? with
  | none =>
    rw [hc] at hnext
    cases hnext
  | some c =>
    rw [hc] at hnext
    have hsub : ∀ x ∈ s.completions.eraseIdx i, x ∈ s.completions := fun x hx =>
      List.mem_of_mem_eraseIdx hx
    dsimp only at hnext
    split at hnext
    · obtain rfl := Option.some.inj hnext
      obtain ⟨hsettled, row₀, hrow₀, hsender₀, hkey₀, hclaim₀⟩ :=
        h.completing c (List.mem_of_getElem? hc)
      -- Rows keep their keys and claims, and the claim of the updated row is settled.
      have hfrom : ∀ row ∈ Rows.updateAt (fun row : KeyRow => (row.sender, row.key)) s.keys
          (c.sender, c.key) (fun row => { row with response := some c.response }),
          ∃ old ∈ s.keys, row.sender = old.sender ∧ row.key = old.key ∧ row.claim = old.claim ∧
            ∀ r, row.response = some r → s.Settled row.claim r := by
        intro row hrow
        obtain ⟨old, hold, rfl⟩ := Rows.mem_updateAt.mp hrow
        split
        · rename_i hkey
          obtain ⟨hsender, hkey⟩ := Prod.mk.inj hkey
          refine ⟨old, hold, rfl, rfl, rfl, fun r hr => ?_⟩
          obtain rfl := h.row_unique hold hrow₀ (hsender.trans hsender₀.symm)
            (hkey.trans hkey₀.symm)
          rw [← Option.some.inj hr]
          show s.Settled old.claim c.response
          rw [hclaim₀]
          exact hsettled
        · exact ⟨old, hold, rfl, rfl, rfl, h.recorded old hold⟩
      have hto : ∀ old ∈ s.keys, old.claim ∉ s.handled.map (·.claim) →
          old ∈ Rows.updateAt (fun row : KeyRow => (row.sender, row.key)) s.keys
            (c.sender, c.key) (fun row => { row with response := some c.response }) := by
        intro old hold hunsettled
        refine Rows.mem_updateAt.mpr ⟨old, hold, ?_⟩
        rw [if_neg]
        intro hkey
        obtain ⟨hsender, hkey⟩ := Prod.mk.inj hkey
        obtain rfl := h.row_unique hold hrow₀ (hsender.trans hsender₀.symm) (hkey.trans hkey₀.symm)
        exact hunsettled (hclaim₀ ▸ hsettled.mem)
      have hkeys : ∀ old ∈ s.keys, ∃ row ∈ Rows.updateAt
          (fun row : KeyRow => (row.sender, row.key)) s.keys (c.sender, c.key)
          (fun row => { row with response := some c.response }),
          row.sender = old.sender ∧ row.key = old.key ∧ row.claim = old.claim := by
        intro old hold
        refine ⟨_, Rows.mem_updateAt.mpr ⟨old, hold, rfl⟩, ?_⟩
        split
        · exact ⟨rfl, rfl, rfl⟩
        · exact ⟨rfl, rfl, rfl⟩
      have hkeyed := h.keyed.updateAt (f := fun row => { row with response := some c.response })
        (fun _ => rfl) (c.sender, c.key)
      refine ⟨hkeyed, ?_, h.handledOnce, h.numbered, h.ownedOnce,
        h.unsettled, ?_, ?_, ?_, ?_, h.retained, fun v hv => (h.answers v hv).mono fun _ hx => hx⟩
      · intro row hrow
        obtain ⟨old, hold, -, -, hclaim, -⟩ := hfrom row hrow
        exact hclaim ▸ h.claimed old hold
      · intro o ho
        obtain ⟨old, hold, hsame⟩ := h.pending o ho
        exact ⟨old, hto old hold (hsame.2.2.1 ▸ h.unsettled o ho), hsame⟩
      · intro x hx
        obtain ⟨hsettled, old, hold, hsender, hkey, hclaim⟩ := h.completing x (hsub x hx)
        obtain ⟨row, hrow, hsender', hkey', hclaim'⟩ := hkeys old hold
        exact ⟨hsettled, row, hrow, hsender'.trans hsender, hkey'.trans hkey,
          hclaim'.trans hclaim⟩
      · intro row hrow r hr
        obtain ⟨old, -, -, -, -, hrecorded⟩ := hfrom row hrow
        exact hrecorded r hr
      · intro row hrow
        obtain ⟨old, hold, hsender, hkey, -, -⟩ := hfrom row hrow
        show (∃ o ∈ s.owners, o.sender = row.sender ∧ o.key = row.key) ∨ ∃ x ∈ s.handled,
          x.sender = row.sender ∧ x.key = row.key ∧ (x.failure = false ∨ x.stored = true)
        rw [hsender, hkey]
        exact h.alive old hold
    · obtain rfl := Option.some.inj hnext
      exact h.transfer rfl rfl hsub rfl (List.Perm.refl _) h.answers

/-- A key is forgotten whose claim is settled, and its response recorded. -/
theorem Sound.forgetKey (h : s.Sound) {sender key : String}
    (howners : ∀ o ∈ s.owners, ¬ (o.sender = sender ∧ o.key = key))
    (hcompletions : ∀ c ∈ s.completions, ¬ (c.sender = sender ∧ c.key = key)) :
    Sound { s with
      keys := s.keys.filter fun row => !decide (row.sender = sender ∧ row.key = key) } := by
  have hmem : ∀ row, row ∈ s.keys.filter (fun row =>
      !decide (row.sender = sender ∧ row.key = key)) ↔
        row ∈ s.keys ∧ ¬ (row.sender = sender ∧ row.key = key) := by
    intro row
    rw [List.mem_filter, Bool.not_eq_true', decide_eq_false_iff_not]
  refine ⟨h.keyed.filter _, fun row hrow => h.claimed row ((hmem row).mp hrow).1, h.handledOnce,
    h.numbered, h.ownedOnce, h.unsettled, ?_, ?_, fun row hrow => h.recorded row
      ((hmem row).mp hrow).1, fun row hrow => h.alive row ((hmem row).mp hrow).1, h.retained,
    fun v hv => (h.answers v hv).mono fun _ hx => hx⟩
  · intro o ho
    obtain ⟨row, hrow, hsender, hkey, hrest⟩ := h.pending o ho
    refine ⟨row, (hmem row).mpr ⟨hrow, ?_⟩, hsender, hkey, hrest⟩
    rw [hsender, hkey]
    exact howners o ho
  · intro c hc
    obtain ⟨hsettled, row, hrow, hsender, hkey, hclaim⟩ := h.completing c hc
    refine ⟨hsettled, row, (hmem row).mpr ⟨hrow, ?_⟩, hsender, hkey, hclaim⟩
    rw [hsender, hkey]
    exact hcompletions c hc

/-! ## Steps -/

theorem onVisit_eq_some {i : Nat} {step : Visit → AuthData → String → Option Intake}
    (h : s.onVisit i step = some s') : ∃ v data key, s.visits[i]? = some v ∧
      v.admitted = some (data, key) ∧ step v data key = some s' := by
  unfold onVisit at h
  split at h
  · cases h
  · rename_i v hv
    split at h
    · cases h
    · rename_i data key hadmitted
      exact ⟨v, data, key, hv, hadmitted, h⟩

theorem AtVisit.apply {i : Nat} {C : Visit → AuthData → String → Prop} (h : s.AtVisit i C)
    {v : Visit} {data : AuthData} {key : String} (hv : s.visits[i]? = some v)
    (hadmitted : v.admitted = some (data, key)) : C v data key :=
  h v hv (data, key) hadmitted

/-- A request waits for its next query. -/
theorem Sound.setPhase (h : s.Sound) {i : Nat} {v : Visit} (hv : s.visits[i]? = some v)
    (hnone : v.inserting = false) {phase : VisitPhase} (hanswered : ∀ a, phase ≠ .answered a)
    (hinserting : ∀ n, phase ≠ .inserting n) : (s.setPhase i v phase).Sound := by
  have hnone' : ({ v with phase } : Visit).inserting = false := by
    unfold Visit.inserting
    split
    · rename_i n hphase
      exact absurd hphase (hinserting n)
    · rfl
  refine h.setVisit hv hnone hnone' ⟨?_, ?_, ?_, ?_⟩
  · intro a ha
    exact absurd ha (hanswered a)
  · intro a ha
    exact absurd ha (hanswered a)
  · exact (h.answers v (List.mem_of_getElem? hv)).earlier
  · intro hinserting'
    rw [hnone'] at hinserting'
    cases hinserting'

/-- A request that owns no claim is answered. -/
theorem Sound.answer (h : s.Sound) {i : Nat} {v : Visit} (hv : s.visits[i]? = some v)
    (hnone : v.inserting = false) {response : ApiResponse} {settled : Option Nat} {failure : Bool}
    (hsettled : ∀ n, settled = some n → s.Settled n response)
    (hsame : ∀ e ∈ v.earlier, response = e.response) :
    (s.answer i v response settled failure).Sound := by
  refine h.setVisit hv hnone rfl ⟨?_, ?_, ?_, nofun⟩
  · intro a ha n hn
    cases ha
    exact hsettled n hn
  · intro a ha e he
    cases ha
    exact hsame e he
  · exact (h.answers v (List.mem_of_getElem? hv)).earlier

/-- An answer that is of no claim, to a request that repeats none. -/
theorem Sound.refuse (h : s.Sound) {i : Nat} {v : Visit} (hv : s.visits[i]? = some v)
    (hnone : v.inserting = false) (hearlier : v.earlier = []) (response : ApiResponse)
    (failure : Bool) : (s.answer i v response none failure).Sound := by
  refine h.answer hv hnone nofun fun e he => ?_
  rw [hearlier] at he
  exact absurd he List.not_mem_nil

/-- An answer from the row of a claim that has settled what the request repeats. -/
theorem Sound.replay (h : s.Sound) {i : Nat} {v : Visit} (hv : s.visits[i]? = some v)
    (hnone : v.inserting = false) {response : ApiResponse} {n : Nat} (hn : s.Settled n response)
    (hearlier : v.earlier ≠ [] → ∀ e ∈ v.earlier, e.settled = some n) :
    (s.answer i v response (some n) false).Sound := by
  refine h.answer hv hnone (fun m hm => ?_) fun e he => ?_
  · rwa [← Option.some.inj hm]
  · have hsettled := hearlier (List.ne_nil_of_mem he) e he
    exact hn.unique h ((h.answers v (List.mem_of_getElem? hv)).earlier e he n hsettled)

theorem inserting_of_phase {v : Visit} {phase : VisitPhase} (hphase : v.phase = phase)
    (h : ∀ n, phase ≠ .inserting n) : v.inserting = false := by
  unfold Visit.inserting
  rw [hphase]
  split
  · rename_i n
    exact absurd rfl (h n)
  · rfl

theorem addKey_of_keyRow {lib : Stellar} {data : AuthData} {key : String}
    (h : s.keyRow data.sender key ≠ none) : s.addKey lib data key = s := by
  unfold addKey
  split
  · rfl
  · rename_i hnone
    exact absurd hnone h

variable {P : Platform} {cfg : RelayConfig}

theorem Sound.claim (h : s.Sound) {i : Nat} {outcome : Outcome}
    (hsmooth : s.AtVisit i (s.SmoothClaim outcome)) (hnext : s.claim P i outcome = some s') :
    s'.Sound := by
  obtain ⟨v, data, key, hv, hadmitted, hstep⟩ := onVisit_eq_some hnext
  split at hstep
  · rename_i hphase
    obtain ⟨hretry, hfailed⟩ := hsmooth.apply hv hadmitted hphase
    have hnone := inserting_of_phase hphase (fun _ h => by cases h)
    have hearlier : ∀ {p : Prop}, (v.earlier ≠ [] → p) → ¬ p → v.earlier = [] := by
      intro p himp hnot
      by_contra hne
      exact hnot (himp hne)
    cases outcome with
    | ok =>
      cases hrow : s.keyRow data.sender key with
      | some row =>
        simp only [hrow] at hstep
        obtain rfl := Option.some.inj hstep
        exact h.setPhase hv hnone (fun _ h => by cases h) (fun _ h => by cases h)
      | none =>
        simp only [hrow] at hstep
        obtain rfl := Option.some.inj hstep
        have hclaimed := h.claimKey hv hadmitted hnone (hearlier hretry (fun h => h.2 hrow)) hrow
          (fingerprintRequestBody P.toStellar data)
        rw [addKey, hrow]
        exact hclaimed
    | failed applied =>
      dsimp only at hstep
      obtain rfl := Option.some.inj hstep
      have hempty := hearlier hretry (fun h => nomatch h.1)
      cases applied with
      | false => exact h.refuse hv hnone hempty _ _
      | true =>
        rw [if_pos rfl, addKey_of_keyRow (hfailed rfl)]
        exact h.refuse hv hnone hempty _ _
  · cases hstep

theorem Sound.read (h : s.Sound) {i : Nat} {outcome : Outcome}
    (hsmooth : s.AtVisit i (s.SmoothRead P outcome)) (hnext : s.read P i outcome = some s') :
    s'.Sound := by
  obtain ⟨v, data, key, hv, hadmitted, hstep⟩ := onVisit_eq_some hnext
  split at hstep
  · rename_i hphase
    have hretry := hsmooth.apply hv hadmitted hphase
    have hnone := inserting_of_phase hphase (fun _ h => by cases h)
    cases outcome with
    | failed applied =>
      dsimp only at hstep
      obtain rfl := Option.some.inj hstep
      refine h.refuse hv hnone ?_ _ _
      by_contra hne
      cases (hretry hne).1
    | ok =>
      cases hrow : s.keyRow data.sender key with
      | none =>
        simp only [hrow] at hstep
        obtain rfl := Option.some.inj hstep
        exact h.setPhase hv hnone (fun _ h => by cases h) (fun _ h => by cases h)
      | some row =>
        simp only [hrow] at hstep
        split at hstep
        · rename_i hfingerprint
          obtain rfl := Option.some.inj hstep
          refine h.refuse hv hnone ?_ _ _
          by_contra hne
          exact hfingerprint ((hretry hne).2 row hrow).1
        · cases hresponse : row.response with
          | none =>
            simp only [hresponse] at hstep
            obtain rfl := Option.some.inj hstep
            exact h.setPhase hv hnone (fun _ h => by cases h) (fun _ h => by cases h)
          | some response =>
            simp only [hresponse] at hstep
            obtain rfl := Option.some.inj hstep
            refine h.replay hv hnone (h.recorded row (keyRow_eq_some hrow).1 response hresponse)
              fun hne => ((hretry hne).2 row hrow).2 ?_
            rw [hresponse]
            exact Option.some_ne_none _
  · cases hstep

theorem Sound.poll (h : s.Sound) {i : Nat} {outcome : Outcome}
    (hsmooth : s.AtVisit i (s.SmoothPoll outcome)) (hnext : s.poll i outcome = some s') :
    s'.Sound := by
  obtain ⟨v, data, key, hv, hadmitted, hstep⟩ := onVisit_eq_some hnext
  have hretry := hsmooth.apply hv hadmitted
  split at hstep
  · rename_i attempts hphase
    have hnone := inserting_of_phase hphase (fun _ h => by cases h)
    unfold SmoothPoll at hretry
    rw [hphase] at hretry
    cases outcome with
    | failed applied =>
      obtain rfl := Option.some.inj hstep
      exact h.crash hretry
    | ok =>
      dsimp only at hretry hstep
      cases hfound : s.getIdempotencyResponse data.sender key with
      | some found =>
        obtain ⟨response, n⟩ := found
        rw [hfound] at hstep hretry
        obtain rfl := Option.some.inj hstep
        obtain ⟨row, hrow, hmap⟩ := Option.bind_eq_some_iff.mp hfound
        obtain ⟨response', hresponse, heq⟩ := Option.map_eq_some_iff.mp hmap
        obtain ⟨rfl, rfl⟩ := Prod.mk.inj heq
        exact h.replay hv hnone (h.recorded row (keyRow_eq_some hrow).1 response' hresponse) hretry
      | none =>
        rw [hfound] at hstep hretry
        dsimp only at hstep hretry
        split at hstep
        · obtain rfl := Option.some.inj hstep
          exact h.setPhase hv hnone (fun _ h => by cases h) (fun _ h => by cases h)
        · rename_i hlast
          obtain rfl := Option.some.inj hstep
          refine h.refuse hv hnone ?_ _ _
          by_contra hne
          exact hlast (hretry hne)
  · cases hstep

theorem Sound.insert (h : s.Sound) {i : Nat} {outcome : Outcome} {message id : String}
    {createdAt : Int}
    (hsmooth : s.AtVisit i fun v data _ => s.SmoothInsert P outcome id createdAt v data)
    (hnext : s.insert P i outcome message id createdAt = some s') : s'.Sound := by
  obtain ⟨v, data, key, hv, hadmitted, hstep⟩ := onVisit_eq_some hnext
  have hfailed := hsmooth.apply hv hadmitted
  split at hstep
  · rename_i claim hphase
    have hinserting : v.inserting = true := by
      rw [Visit.inserting, hphase]
    have hfailed := hfailed hinserting
    dsimp only at hstep
    split at hstep
    · obtain rfl := Option.some.inj hstep
      exact h.respond hv hadmitted hphase _ (Or.inr rfl) _
    · obtain rfl := Option.some.inj hstep
      exact h.respond hv hadmitted hphase _ (Or.inl rfl) s.rows
    · obtain rfl := Option.some.inj hstep
      exact h.respond hv hadmitted hphase _ (Or.inr rfl) _
    · -- The insert failed and nothing was stored.
      rename_i applied result hunstored
      obtain ⟨happlied, hstored⟩ := hfailed nofun
      cases happlied
      cases hinsert : insertMessage s.rows (data.toRow P.toStellar id createdAt) with
      | error err =>
        rw [hinsert] at hstored
        exact absurd rfl hstored
      | ok rows => exact absurd rfl (hunstored rows hinsert)
  · cases hstep

/-- A request that the signature guard and the header check have nothing against. -/
theorem letIn_eq_ok {request : PostRequest} {data : AuthData} {key : String}
    (hparse : parseSendMessage cfg.maxMessageBytes request.body = .ok data)
    (hvalid : checkMessageAuth P.toStellar cfg.maxTimestampSkew s.now data = .ok ())
    (hunseen : (s.seen.sweep s.now).has data.signature = false) {requestId : String}
    (hkey : checkKey request.key requestId = .ok key) :
    letIn P cfg s.now s.seen request requestId none = (.ok (data, key),
      (s.seen.sweep s.now).record data.signature (s.now + cfg.maxTimestampSkew)) := by
  have hauth : verifyMessageAuth P.toStellar cfg.maxTimestampSkew s.now s.seen data = (.ok (),
      (s.seen.sweep s.now).record data.signature (s.now + cfg.maxTimestampSkew)) := by
    unfold verifyMessageAuth
    rcases guardReplay_cases s.seen s.now cfg.maxTimestampSkew data.signature
      "Replayed signature: this signed request has already been used"
      (checkMessageAuth P.toStellar cfg.maxTimestampSkew s.now data) with
      ⟨err, hcheck, -⟩ | ⟨-, hhas, -⟩ | ⟨-, -, hguard⟩
    · rw [hvalid] at hcheck
      cases hcheck
    · rw [hunseen] at hhas
      cases hhas
    · exact hguard
  simp only [letIn, messageAuthMiddleware, hparse, hauth, hkey]

/-- A request whose signature is remembered. -/
theorem letIn_of_replayed {request : PostRequest} {data : AuthData}
    (hparse : parseSendMessage cfg.maxMessageBytes request.body = .ok data)
    (hvalid : checkMessageAuth P.toStellar cfg.maxTimestampSkew s.now data = .ok ())
    (hseen : (s.seen.sweep s.now).has data.signature = true) {requestId : String} :
    letIn P cfg s.now s.seen request requestId none = (.error (unauthorizedError
      "Replayed signature: this signed request has already been used" requestId),
      s.seen.sweep s.now) := by
  have hauth : verifyMessageAuth P.toStellar cfg.maxTimestampSkew s.now s.seen data =
      (.error ⟨"Replayed signature: this signed request has already been used"⟩,
        s.seen.sweep s.now) := by
    unfold verifyMessageAuth
    rcases guardReplay_cases s.seen s.now cfg.maxTimestampSkew data.signature
      "Replayed signature: this signed request has already been used"
      (checkMessageAuth P.toStellar cfg.maxTimestampSkew s.now data) with
      ⟨err, hcheck, -⟩ | ⟨-, -, hguard⟩ | ⟨-, hhas, -⟩
    · rw [hvalid] at hcheck
      cases hcheck
    · exact hguard
    · rw [hseen] at hhas
      cases hhas
  simp only [letIn, messageAuthMiddleware, hparse, hauth]

theorem checkKey_of_isUuid {key : String} (h : isUuid key = true) (requestId : String) :
    checkKey (some key) requestId = .ok (uuidColumn key) := by
  unfold checkKey
  split
  · contradiction
  · rename_i hempty
    rw [Option.some.inj hempty] at h
    exact absurd h (by decide)
  · rename_i hkey
    rw [← Option.some.inj hkey, if_pos h]

theorem letIn_of_admits {request : PostRequest} {limiter : Option String}
    (h : s.Admits P cfg request limiter) (requestId : String) : ∃ admitted seen,
      letIn P cfg s.now s.seen request requestId limiter = (.ok admitted, seen) := by
  unfold Admits at h
  split at h
  · cases h
  · rename_i data hparse
    obtain ⟨hvalid, hunseen, rfl, huuid⟩ := h
    obtain ⟨key, hkey, huuid⟩ := (Option.any_eq_true _ _).mp huuid
    exact ⟨_, _, letIn_eq_ok hparse hvalid hunseen (hkey ▸ checkKey_of_isUuid huuid requestId)⟩

theorem mem_answersTo {request : PostRequest} {e : Answer} (h : e ∈ s.answersTo request) :
    ∃ v ∈ s.visits, v.phase = .answered e := by
  obtain ⟨v, hv, hanswer⟩ := List.mem_filterMap.mp h
  split at hanswer
  · split at hanswer
    · rename_i answer hphase
      exact ⟨v, hv, hphase.trans (congrArg _ (Option.some.inj hanswer))⟩
    · cases hanswer
  · cases hanswer

theorem Sound.arrive (h : s.Sound) {request : PostRequest} {limiter : Option String}
    (hsmooth : s.inTime cfg request = true → s.answersTo request ≠ [] →
      s.Admits P cfg request limiter) (requestId : String) :
    (s.arrive P cfg request requestId limiter).Sound := by
  have hearlier : ∀ e ∈ (if s.inTime cfg request = true then s.answersTo request else []),
      ∀ n, e.settled = some n → s.Settled n e.response := by
    intro e he n hn
    split at he
    · obtain ⟨v, hv, hphase⟩ := mem_answersTo he
      exact (h.answers v hv).settled e hphase n hn
    · exact absurd he List.not_mem_nil
  -- A request that is refused at once repeats none.
  have hempty : ∀ response seen,
      letIn P cfg s.now s.seen request requestId limiter = (.error response, seen) →
        (if s.inTime cfg request = true then s.answersTo request else []) = [] := by
    intro response seen hadmit
    split
    · rename_i htime
      by_contra hne
      obtain ⟨admitted, seen', hadmit'⟩ := letIn_of_admits (hsmooth htime hne) requestId
      rw [hadmit'] at hadmit
      cases hadmit
    · rfl
  unfold Intake.arrive
  dsimp only
  generalize (if s.inTime cfg request = true then s.answersTo request else []) = earlier
    at hearlier hempty ⊢
  split
  · rename_i response seen hadmit
    have hnone := hempty response seen hadmit
    refine h.addVisit (w := ⟨request, requestId, none, earlier, .answered ⟨response, none, false⟩⟩)
      rfl ⟨?_, ?_, hearlier, nofun⟩ seen
    · intro a ha n hn
      cases ha
      cases hn
    · intro a ha e he
      have hmem : e ∈ earlier := he
      rw [hnone] at hmem
      exact absurd hmem List.not_mem_nil
  · rename_i admitted seen hadmit
    exact h.addVisit (w := ⟨request, requestId, some admitted, earlier, .claiming⟩) rfl
      ⟨nofun, nofun, hearlier, nofun⟩ seen

theorem inserting_of_owner {o : Owner} (ho : o ∈ s.owners) :
    ∃ v ∈ s.visits, v.inserting = true ∧ ∃ data, v.admitted = some (data, o.key) ∧
      data.sender = o.sender := by
  obtain ⟨v, hv, howner⟩ := List.mem_filterMap.mp ho
  unfold ownerOf at howner
  split at howner
  · rename_i claim data key hphase hadmitted
    obtain rfl := Option.some.inj howner
    exact ⟨v, hv, by rw [Visit.inserting, hphase], data, hadmitted, rfl⟩
  · cases howner

/-- Smooth steps keep what is promised. -/
theorem Sound.next (h : s.Sound) {a : IntakeAction} (hsmooth : s.Smooth P cfg a)
    (hnext : s.next P cfg a = some s') : s'.Sound := by
  cases a with
  | arrive request requestId limiter =>
    obtain rfl := Option.some.inj hnext
    exact h.arrive hsmooth requestId
  | claim i outcome => exact h.claim hsmooth hnext
  | read i outcome => exact h.read hsmooth hnext
  | poll i outcome => exact h.poll hsmooth hnext
  | insert i outcome message id createdAt => exact h.insert hsmooth hnext
  | complete i applied => exact h.complete hnext
  | expireKey sender key =>
    obtain rfl := Option.some.inj hnext
    obtain ⟨howners, hcompletions⟩ := hsmooth
    refine h.forgetKey (fun o ho hsame => ?_) hcompletions
    obtain ⟨v, hv, hinserting, data, hadmitted, hsender⟩ := inserting_of_owner ho
    exact howners v hv hinserting _ hadmitted ⟨hsender.trans hsame.1, hsame.2⟩
  | expire id =>
    obtain rfl := Option.some.inj hnext
    exact h.transfer rfl rfl (fun _ hc => hc) rfl (List.Perm.refl _) h.answers
  | wait secs =>
    obtain rfl := Option.some.inj hnext
    exact h.transfer rfl rfl (fun _ hc => hc) rfl (List.Perm.refl _) h.answers
  | crash =>
    obtain rfl := Option.some.inj hnext
    exact h.crash hsmooth

theorem Sound.start (now : Int) : (Intake.start now).Sound where
  keyed := .nil
  claimed _ h := absurd h List.not_mem_nil
  handledOnce := List.nodup_nil
  numbered _ h := absurd h List.not_mem_nil
  ownedOnce := List.nodup_nil
  unsettled _ h := absurd h List.not_mem_nil
  pending _ h := absurd h List.not_mem_nil
  completing _ h := absurd h List.not_mem_nil
  recorded _ h := absurd h List.not_mem_nil
  alive _ h := absurd h List.not_mem_nil
  retained _ h := absurd h List.not_mem_nil
  answers _ h := absurd h List.not_mem_nil

/-- An abandoned key has no row, so a retry claims it and is stored. -/
theorem Sound.recoverable (h : s.Sound) : s.Recoverable P cfg := by
  intro v _ _ data key _ habandoned request data' hretry requestId id createdAt hid
  obtain ⟨hsender, -, -, -⟩ := hretry.sameMessage
  have hrow : s.keyRow data'.sender key = none := by
    rw [keyRow_eq_none]
    rintro row hmem ⟨hrowsender, hrowkey⟩
    have hrowsender' := hrowsender.trans hsender
    rcases h.alive row hmem with ⟨o, ho, hosender, hokey⟩ | ⟨x, hx, hxsender, hxkey, hgood⟩
    · obtain ⟨w, hw, hinserting, odata, hadmitted, hodata⟩ := inserting_of_owner ho
      have hended := habandoned.ended w hw _ hadmitted
        (hodata.trans (hosender.trans hrowsender')) (hokey.trans hrowkey)
      unfold Visit.inserting at hinserting
      split at hinserting
      · rename_i n hphase
        rw [Visit.inFlight, hphase] at hended
        cases hended
      · cases hinserting
    · obtain ⟨hfailure, hunstored⟩ :=
        habandoned.unstored x hx (hxsender.trans hrowsender') (hxkey.trans hrowkey)
      rw [hfailure, hunstored] at hgood
      rcases hgood with hgood | hgood <;> cases hgood
  have hadmit := letIn_eq_ok hretry.parsed hretry.valid hretry.unseen (hretry.sameKey requestId)
  generalize (s.seen.sweep s.now).record data'.signature (s.now + cfg.maxTimestampSkew) = seen
    at hadmit
  have hinsert : insertMessage s.rows (data'.toRow P.toStellar id createdAt) =
      .ok (s.rows ++ [data'.toRow P.toStellar id createdAt]) :=
    insertMessage_eq_ok.mpr ⟨hid, hretry.unused, rfl⟩
  have hlast : ∀ w : Visit, (s.visits ++ [w])[s.visits.length]? = some w := fun w =>
    List.getElem?_concat_length
  have hset : ∀ w w' : Visit, (s.visits ++ [w]).set s.visits.length w' = s.visits ++ [w'] := by
    intro w w'
    rw [List.set_append_right _ _ (Nat.le_refl _), Nat.sub_self, List.set_cons_zero]
  -- The request is let through, claims the key and inserts.
  generalize hearlier : (if s.inTime cfg request = true then s.answersTo request else []) = earlier
  have harrive : s.next P cfg (.arrive request requestId none) = some { s with
      seen
      visits := s.visits ++ [⟨request, requestId, some (data', key), earlier, .claiming⟩] } := by
    rw [Intake.next, Intake.arrive, hadmit, hearlier]
  have hclaim : ∃ s₂, Intake.next P cfg { s with
        seen
        visits := s.visits ++ [⟨request, requestId, some (data', key), earlier, .claiming⟩] }
      (.claim s.visits.length .ok) = some s₂ ∧ s₂.rows = s.rows ∧ s₂.visits = s.visits ++
        [⟨request, requestId, some (data', key), earlier, .inserting s.claims⟩] := by
    have hrow' : ∀ x y, keyRow { s with seen := x, visits := y } data'.sender key = none :=
      fun _ _ => hrow
    simp only [Intake.next, Intake.claim, onVisit, hlast, hrow', addKey, Intake.setPhase, if_true]
    exact ⟨_, rfl, rfl, hset _ _⟩
  obtain ⟨s₂, hclaim, hrows, hvisits⟩ := hclaim
  have hstored : ∃ s₃, s₂.next P cfg (.insert s.visits.length .ok "" id createdAt) = some s₃ ∧
      data'.toRow P.toStellar id createdAt ∈ s₃.rows := by
    simp only [Intake.next, Intake.insert, onVisit, hvisits, hlast, hrows, hinsert]
    exact ⟨_, rfl, List.mem_append_right _ List.mem_cons_self⟩
  obtain ⟨s₃, hnext, hmem⟩ := hstored
  refine ⟨s₃, ?_, hmem⟩
  rw [walk, harrive, Option.bind_some, walk, hclaim, Option.bind_some, walk, hnext,
    Option.bind_some, walk]

end Facts

/-- In every run of smooth steps retrying is safe and effective. -/
theorem retries_work (P : Platform) (cfg : RelayConfig) (now : Int) {actions : List IntakeAction}
    {s : Intake}
    (h : Run (Run.Guarded (StepOf (next P cfg)) (Smooth P cfg)) (start now) actions s) :
    s.Retryable P cfg := by
  have hsound : s.Sound :=
    h.invariant (fun x a y hx hl => hx.next hl.2 hl.1) (Sound.start now)
  exact ⟨hsound.once, hsound.sameAnswers, hsound.recoverable⟩

/-! ## One message -/

def demoPlatform : Platform where
  toStellar := demoStellar
  number _ := .nan
  parseInt _ := none
  decodeUtf8 _ := ""
  dateParse _ := none
  toISOString _ := ""
  timestamptz t := .ok t
  uuid id := .ok id
  containsInternalDetail _ := false

def demoConfig : RelayConfig := ⟨30, 64⟩

/-- The greeting, with a key. -/
def greetingPost : PostRequest where
  body := .ok ⟨.ok greeting.sender, .ok greeting.recipient, .ok greeting.ciphertext,
    .ok (.finite 0), .ok (.finite 100), .ok greeting.signature⟩
  key := some "00000000-0000-4000-8000-000000000000"

theorem parse_greetingPost :
    parseSendMessage demoConfig.maxMessageBytes greetingPost.body = .ok greeting := by
  have hascii : (Text.utf8 greeting.signature).all (· < 128) = true := by decide
  have hhex : isHexText 128 greeting.signature = true := by
    rw [isHexText, Text.toList_of_ascii hascii]
    decide +kernel
  exact parseSendMessage_first (by decide +kernel) (by decide +kernel) (by decide +kernel) hhex

theorem checkKey_greetingPost (requestId : String) : checkKey greetingPost.key requestId =
    .ok "00000000-0000-4000-8000-000000000000" := by
  have hcolumn : uuidColumn "00000000-0000-4000-8000-000000000000" =
      "00000000-0000-4000-8000-000000000000" := by decide +kernel
  rw [greetingPost, checkKey_of_isUuid (by decide +kernel), hcolumn]

section Greeted

variable {s : Intake} (htimely : Timely 30 s.now 100)
  (hunseen : (s.seen.sweep s.now).has greeting.signature = false)

/-- The state after the greeting has been let through. -/
def greeted (s : Intake) (requestId : String) : Intake :=
  { s with
    seen := (s.seen.sweep s.now).record greeting.signature (s.now + 30)
    visits := s.visits ++ [⟨greetingPost, requestId,
      some (greeting, "00000000-0000-4000-8000-000000000000"), s.answersTo greetingPost,
      .claiming⟩] }

include htimely

theorem inTime_greetingPost : s.inTime demoConfig greetingPost = true := by
  rw [inTime, parse_greetingPost]
  exact decide_eq_true htimely

include hunseen

theorem next_greetingPost (requestId : String) : s.next demoPlatform demoConfig
    (.arrive greetingPost requestId none) = some (s.greeted requestId) := by
  rw [Intake.next, Intake.arrive, letIn_eq_ok parse_greetingPost (greeting_checked htimely) hunseen
    (checkKey_greetingPost requestId), if_pos (inTime_greetingPost htimely)]
  rfl

omit hunseen in
theorem next_greetingPost_again (hseen : (s.seen.sweep s.now).has greeting.signature = true)
    (requestId : String) : s.next demoPlatform demoConfig (.arrive greetingPost requestId none) =
      some { s with
        seen := s.seen.sweep s.now
        visits := s.visits ++ [⟨greetingPost, requestId, none, s.answersTo greetingPost,
          .answered ⟨unauthorizedError
            "Replayed signature: this signed request has already been used" requestId,
            none, false⟩⟩] } := by
  rw [Intake.next, Intake.arrive, letIn_of_replayed parse_greetingPost (greeting_checked htimely)
    hseen, if_pos (inTime_greetingPost htimely)]

theorem smoothly_greetingPost (requestId : String) :
    restrict (next demoPlatform demoConfig) (Smooth demoPlatform demoConfig) s
      (.arrive greetingPost requestId none) = some (s.greeted requestId) := by
  have hsmooth : s.Smooth demoPlatform demoConfig (.arrive greetingPost requestId none) := by
    intro _ _
    rw [Admits, parse_greetingPost]
    exact ⟨greeting_checked htimely, hunseen, rfl, by decide⟩
  rw [restrict]
  exact (if_pos @hsmooth).trans (next_greetingPost htimely hunseen _)

end Greeted

def posted : List IntakeAction :=
  [.arrive greetingPost "first" none, .claim 0 .ok, .insert 0 .ok "" "m" 100000000]

/-- The relay is restarted after the response was recorded, so that the retry gets it. -/
def postedAgain : List IntakeAction :=
  posted ++ [IntakeAction.complete 0 true, .crash, .wait 10, .arrive greetingPost "second" none,
    .claim 1 .ok, .read 1 .ok]

theorem retries_work_restarted : ∃ s,
    Run (StepOf (next demoPlatform demoConfig)) (start 100) postedAgain s ∧
    s.rows.map (·.id) = ["m"] ∧ s.Retryable demoPlatform demoConfig := by
  let smooth := restrict (next demoPlatform demoConfig) (Smooth demoPlatform demoConfig)
  -- What lies between the two arrivals, and what follows them.
  have hbetween : (walk smooth [.claim 0 .ok, .insert 0 .ok "" "m" 100000000, .complete 0 true,
      .crash, .wait 10] ((start 100).greeted "first")).map (fun s =>
        decide (s.now = 110 ∧ s.seen = [] ∧ (walk smooth [.claim 1 .ok, .read 1 .ok]
          (s.greeted "second")).map (·.rows.map (·.id)) = some ["m"])) = some true := by
    decide +kernel
  obtain ⟨s, hs, hall⟩ := Option.map_eq_some_iff.mp hbetween
  obtain ⟨hnow, hseen, hafter⟩ := of_decide_eq_true hall
  obtain ⟨s', hs', hrows⟩ := Option.map_eq_some_iff.mp hafter
  have hfirst := smoothly_greetingPost (s := start 100) (by decide : Timely 30 100 100) rfl "first"
  have hsecond := smoothly_greetingPost (s := s) (by rw [hnow]; decide) (by rw [hseen]; rfl) "second"
  have hwalk : walk smooth postedAgain (start 100) = some s' := by
    have hparts : postedAgain = .arrive greetingPost "first" none :: (
        [IntakeAction.claim 0 .ok, .insert 0 .ok "" "m" 100000000, .complete 0 true, .crash,
          .wait 10] ++ .arrive greetingPost "second" none :: [.claim 1 .ok, .read 1 .ok]) := rfl
    rw [hparts, walk_cons hfirst, walk_append, hs, Option.bind_some, walk_cons hsecond, hs']
  have hg := guarded_of_walk hwalk
  exact ⟨s', hg.of_guarded, hrows, retries_work _ _ _ hg⟩

/-- A retry within the same second is refused as a replay, and a request that was lost with the
process after its claim cannot be retried. -/
theorem identical_retry_refused :
    (∃ s, Run (StepOf (next demoPlatform demoConfig)) (start 100)
        (posted ++ [IntakeAction.arrive greetingPost "second" none]) s ∧
      s.visits.map (fun v => (v.earlier.map (·.response.status), match v.phase with
        | .answered answer => answer.response.status
        | _ => 0)) = [([], 201), ([201], 401)] ∧ ¬ s.SameAnswers) ∧
    ∃ s, Run (StepOf (next demoPlatform demoConfig)) (start 100)
        [.arrive greetingPost "first" none, .claim 0 .ok, .crash] s ∧
      s.rows = [] ∧ ¬ s.Recoverable demoPlatform demoConfig := by
  have hfirst := next_greetingPost (s := start 100) (by decide : Timely 30 100 100) rfl "first"
  constructor
  · have hposted : (walk (next demoPlatform demoConfig)
        [.claim 0 .ok, .insert 0 .ok "" "m" 100000000] ((start 100).greeted "first")).map
        (fun s => decide (s.now = 100 ∧ s.seen = [(greeting.signature, 130)] ∧
          s.visits.map (fun v => (v.earlier.map (·.response.status), match v.phase with
            | .answered answer => answer.response.status
            | _ => 0)) = [([], 201)] ∧
          (s.answersTo greetingPost).map (·.response.status) = [201])) = some true := by
      decide
    obtain ⟨s, hs, hall⟩ := Option.map_eq_some_iff.mp hposted
    obtain ⟨hnow, hseen, hstatuses, hanswers⟩ := of_decide_eq_true hall
    have hagain := next_greetingPost_again (s := s) (by rw [hnow]; decide)
      (by rw [hnow, hseen]; decide) "second"
    have hposted' : walk (next demoPlatform demoConfig) posted (start 100) = some s := by
      rw [posted, walk_cons hfirst, hs]
    refine ⟨_, (run_of_walk hposted').trans (Run.single hagain), ?_, fun hsame => ?_⟩
    · rw [List.map_append, hstatuses, List.map_singleton, hanswers]
      rfl
    · obtain ⟨e, he, hstatus⟩ :=
        List.mem_map.mp (hanswers ▸ List.mem_cons_self : 201 ∈ _)
      have hresponse := hsame _ (List.mem_append_right _ List.mem_cons_self) _ rfl e he
      rw [← hresponse] at hstatus
      cases hstatus
  · have hlost : (walk (next demoPlatform demoConfig) [.claim 0 .ok, .crash]
        ((start 100).greeted "first")).map (fun s => decide (s.rows = [] ∧
          s.visits = [⟨greetingPost, "first",
            some (greeting, "00000000-0000-4000-8000-000000000000"), [], .lost⟩] ∧
          s.handled = [] ∧ s.seen = [] ∧ s.now = 100 ∧
          (walk (next demoPlatform demoConfig) [.claim 1 .ok, .insert 1 .ok "" "m" 100000000]
            (s.greeted "second")).isNone = true)) = some true := by
      decide +kernel
    obtain ⟨s, hs, hall⟩ := Option.map_eq_some_iff.mp hlost
    obtain ⟨hrows, hvisits, hhandled, hseen, hnow, hstuck⟩ := of_decide_eq_true hall
    refine ⟨s, run_of_walk ((walk_cons hfirst).trans hs), hrows, fun hrecoverable => ?_⟩
    have htimely : Timely 30 s.now 100 := by
      rw [hnow]
      decide
    have hunseen : (s.seen.sweep s.now).has greeting.signature = false := by
      rw [hseen]
      rfl
    have habandoned : s.Abandoned greeting.sender "00000000-0000-4000-8000-000000000000" := by
      constructor
      · intro v hv _ _ _ _
        rw [hvisits, List.mem_singleton] at hv
        rw [hv]
        rfl
      · intro h hh
        rw [hhandled] at hh
        exact absurd hh List.not_mem_nil
    have hretry : s.RetryOf demoPlatform demoConfig greeting
        "00000000-0000-4000-8000-000000000000" greetingPost greeting := by
      refine ⟨parse_greetingPost, checkKey_greetingPost, ⟨rfl, rfl, rfl, rfl⟩,
        greeting_checked htimely, hunseen, ?_⟩
      rw [hrows]
      exact List.not_mem_nil
    obtain ⟨s', hs', -⟩ := hrecoverable _ (hvisits ▸ List.mem_cons_self) rfl greeting _ rfl
      habandoned greetingPost greeting hretry "second" "m" 100000000
      (by rw [hrows]; exact List.not_mem_nil)
    rw [hvisits, List.length_singleton, walk_cons (next_greetingPost htimely hunseen _)] at hs'
    rw [hs'] at hstuck
    cases hstuck

end Intake
end Relay
end Linkora
