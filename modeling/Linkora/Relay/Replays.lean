import Linkora.Lib.Run
import Linkora.Relay.Auth

/-!
# How often a signed statement is honoured

The replay cache is keyed by the signature as the client spells it, and an entry lasts for
the skew from the moment of acceptance.  A statement is accepted at most once in a run just
when each repetition of it is spelled as one that was accepted less than the skew before:
another spelling of the same bytes is not found, and a timestamp that was not behind the
clock outlives its entry.
-/

namespace Linkora
namespace Relay

/-! ## Presentations -/

/-- A call of one of the two verifications. -/
inductive Presentation where
  | message (authData : AuthData)
  | ownership (address : String) (timestamp : Int) (signatureHex : String)
  deriving DecidableEq

/-- What a signature is of: the key and the signed text. -/
structure Statement where
  address : String
  message : String
  deriving DecidableEq

namespace Presentation

def statement (lib : Stellar) : Presentation → Statement
  | .message a => ⟨a.sender, buildDmAuthMessage lib a.recipient a.nonce a.timestamp a.ciphertext⟩
  | .ownership address timestamp _ => ⟨address, ownershipChallenge address timestamp⟩

/-- The signature as it is spelled. -/
def spelling : Presentation → String
  | .message a => a.signature
  | .ownership _ _ signatureHex => signatureHex

/-- The checks before the replay guard. -/
def check (lib : Stellar) (maxTimestampSkew now : Int) : Presentation → Except AuthError Unit
  | .message a => checkMessageAuth lib maxTimestampSkew now a
  | .ownership address timestamp signatureHex =>
    checkAddressOwnership lib maxTimestampSkew now address timestamp signatureHex

def verify (lib : Stellar) (maxTimestampSkew now : Int) (seen : Seen String) :
    Presentation → Except AuthError Unit × Seen String
  | .message a => verifyMessageAuth lib maxTimestampSkew now seen a
  | .ownership address timestamp signatureHex =>
    verifyAddressOwnership lib maxTimestampSkew now seen address timestamp signatureHex

/-- The signature is one of the statement, and its timestamp is near the clock. -/
def valid (lib : Stellar) (maxTimestampSkew now : Int) (p : Presentation) : Bool :=
  match p.check lib maxTimestampSkew now with
  | .ok () => true
  | .error _ => false

/-- How a verification ends. -/
theorem verify_cases (lib : Stellar) (maxTimestampSkew now : Int) (seen : Seen String)
    (p : Presentation) :
    (p.valid lib maxTimestampSkew now = false ∧
      ∃ err, p.verify lib maxTimestampSkew now seen = (.error err, seen)) ∨
    (p.valid lib maxTimestampSkew now = true ∧ (seen.sweep now).has p.spelling = true ∧
      ∃ err, p.verify lib maxTimestampSkew now seen = (.error err, seen.sweep now)) ∨
    (p.valid lib maxTimestampSkew now = true ∧ (seen.sweep now).has p.spelling = false ∧
      p.verify lib maxTimestampSkew now seen =
        (.ok (), (seen.sweep now).record p.spelling (now + maxTimestampSkew))) := by
  have hguard : ∃ text, p.verify lib maxTimestampSkew now seen =
      guardReplay seen now maxTimestampSkew p.spelling text (p.check lib maxTimestampSkew now) := by
    cases p with
    | message a => exact ⟨_, rfl⟩
    | ownership => exact ⟨_, rfl⟩
  obtain ⟨text, hverify⟩ := hguard
  rw [hverify]
  rcases guardReplay_cases seen now maxTimestampSkew p.spelling text
    (p.check lib maxTimestampSkew now) with
    ⟨err, hcheck, h⟩ | ⟨hcheck, hhas, h⟩ | ⟨hcheck, hhas, h⟩
  · exact Or.inl ⟨by rw [valid, hcheck], err, h⟩
  · exact Or.inr (Or.inl ⟨by rw [valid, hcheck], hhas, _, h⟩)
  · exact Or.inr (Or.inr ⟨by rw [valid, hcheck], hhas, h⟩)

end Presentation

/-! ## Runs -/

structure Acceptance where
  statement : Statement
  spelling : String
  acceptedAt : Int
  deriving DecidableEq

structure Verifier where
  seen : Seen String
  now : Int
  accepted : List Acceptance

inductive Event where
  | present (p : Presentation)
  | wait (secs : Nat)
  deriving DecidableEq

def Verifier.next (lib : Stellar) (maxTimestampSkew : Int) (v : Verifier) : Event → Option Verifier
  | .present p =>
    match p.verify lib maxTimestampSkew v.now v.seen with
    | (.ok (), seen) =>
      some { v with seen, accepted := v.accepted ++ [⟨p.statement lib, p.spelling, v.now⟩] }
    | (.error _, seen) => some { v with seen }
  | .wait secs => some { v with now := v.now + secs }

def Verifier.start (now : Int) : Verifier := { seen := [], now, accepted := [] }

/-- No statement has been accepted twice. -/
def Verifier.AtMostOnce (v : Verifier) : Prop := (v.accepted.map (·.statement)).Nodup

/-- A statement that has been accepted is presented again only as it was spelled when a
signature was accepted, less than the skew after that. -/
def RepeatedInTime (lib : Stellar) (maxTimestampSkew : Int) (v : Verifier) : Event → Prop
  | .present p => p.valid lib maxTimestampSkew v.now = true →
      p.statement lib ∈ v.accepted.map (·.statement) →
      ∃ x ∈ v.accepted, x.spelling = p.spelling ∧ v.now < x.acceptedAt + maxTimestampSkew
  | .wait _ => True

instance (lib : Stellar) (maxTimestampSkew : Int) (v : Verifier) (e : Event) :
    Decidable (RepeatedInTime lib maxTimestampSkew v e) := by
  cases e <;> unfold RepeatedInTime <;> infer_instance

/-- What the cache was told: the accepted spellings with their times of expiry. -/
def Verifier.records (maxTimestampSkew : Int) (v : Verifier) : List (String × Int) :=
  v.accepted.map fun x => (x.spelling, x.acceptedAt + maxTimestampSkew)

section Step

variable {lib : Stellar} {maxTimestampSkew : Int} {v v' : Verifier} {e : Event}

theorem remembers_records {spelling : String} :
    Seen.Remembers (v.records maxTimestampSkew) v.now spelling ↔
      ∃ x ∈ v.accepted, x.spelling = spelling ∧ v.now < x.acceptedAt + maxTimestampSkew := by
  constructor
  · rintro ⟨entry, hmem, hkey, hlive⟩
    obtain ⟨x, hx, rfl⟩ := List.mem_map.mp hmem
    exact ⟨x, hx, hkey, hlive⟩
  · rintro ⟨x, hx, hkey, hlive⟩
    exact ⟨_, List.mem_map_of_mem hx, hkey, hlive⟩

/-- A step accepts a valid presentation whose spelling is not remembered, and nothing else. -/
theorem next_accepted (ht : Seen.Tracks v.seen (v.records maxTimestampSkew) v.now)
    (h : v.next lib maxTimestampSkew e = some v') :
    Seen.Tracks v'.seen (v'.records maxTimestampSkew) v'.now ∧
    ((∃ p, e = .present p ∧ p.valid lib maxTimestampSkew v.now = true ∧
        ¬ Seen.Remembers (v.records maxTimestampSkew) v.now p.spelling ∧
        v'.accepted = v.accepted ++ [⟨p.statement lib, p.spelling, v.now⟩]) ∨
      (v'.accepted = v.accepted ∧ ∀ p, e = .present p → p.valid lib maxTimestampSkew v.now = true →
        Seen.Remembers (v.records maxTimestampSkew) v.now p.spelling)) := by
  cases e with
  | wait secs =>
    obtain rfl := Option.some.inj h
    exact ⟨ht.later (by show v.now ≤ v.now + secs; omega), Or.inr ⟨rfl, fun _ h => by cases h⟩⟩
  | present p =>
    have hhas := ht.has_sweep_iff (t := p.spelling)
    simp only [Verifier.next] at h
    rcases p.verify_cases lib maxTimestampSkew v.now v.seen with
      ⟨hinvalid, err, hverify⟩ | ⟨hvalid, hfound, err, hverify⟩ | ⟨hvalid, hfound, hverify⟩
    · rw [hverify] at h
      obtain rfl := Option.some.inj h
      refine ⟨ht, Or.inr ⟨rfl, fun q hq hvalid => ?_⟩⟩
      cases hq
      rw [hinvalid] at hvalid
      cases hvalid
    · rw [hverify] at h
      obtain rfl := Option.some.inj h
      refine ⟨ht.sweep, Or.inr ⟨rfl, fun q hq _ => ?_⟩⟩
      cases hq
      exact hhas.mp hfound
    · rw [hverify] at h
      obtain rfl := Option.some.inj h
      have hforgotten : ¬ Seen.Remembers (v.records maxTimestampSkew) v.now p.spelling := by
        rw [← hhas, hfound]
        exact Bool.false_ne_true
      refine ⟨?_, Or.inl ⟨p, rfl, hvalid, hforgotten, rfl⟩⟩
      have hrecords : Verifier.records maxTimestampSkew
          { v with
            seen := (v.seen.sweep v.now).record p.spelling (v.now + maxTimestampSkew)
            accepted := v.accepted ++ [⟨p.statement lib, p.spelling, v.now⟩] } =
          v.records maxTimestampSkew ++ [(p.spelling, v.now + maxTimestampSkew)] :=
        List.map_append
      rw [hrecords]
      exact ht.sweep.record fun entry hmem hkey hlive =>
        absurd ⟨entry, hmem, hkey, hlive⟩ hforgotten

/-- A step keeps every statement accepted at most once just when it repeats in time. -/
theorem next_atMostOnce (ht : Seen.Tracks v.seen (v.records maxTimestampSkew) v.now)
    (h : v.next lib maxTimestampSkew e = some v') (hv : v.AtMostOnce) :
    v'.AtMostOnce ↔ RepeatedInTime lib maxTimestampSkew v e := by
  obtain ⟨-, ⟨p, rfl, hvalid, hforgotten, haccepted⟩ | ⟨haccepted, hremembered⟩⟩ :=
    next_accepted ht h
  · rw [Verifier.AtMostOnce, haccepted, List.map_append, List.map_singleton,
      ← List.concat_eq_append, List.nodup_concat]
    constructor
    · intro hnew _ hold
      exact absurd hold hnew.1
    · intro hC
      exact ⟨fun hold => hforgotten (remembers_records.mpr (hC hvalid hold)), hv⟩
  · rw [Verifier.AtMostOnce, haccepted]
    refine iff_of_true hv ?_
    cases e with
    | wait => trivial
    | present p => exact fun hvalid _ => remembers_records.mp (hremembered p rfl hvalid)

/-- A valid presentation whose spelling is not remembered is accepted. -/
theorem next_of_fresh {p : Presentation} (hcheck : p.check lib maxTimestampSkew v.now = .ok ())
    (hfresh : (v.seen.sweep v.now).has p.spelling = false) :
    v.next lib maxTimestampSkew (.present p) = some { v with
      seen := (v.seen.sweep v.now).record p.spelling (v.now + maxTimestampSkew)
      accepted := v.accepted ++ [⟨p.statement lib, p.spelling, v.now⟩] } := by
  have hvalid : p.valid lib maxTimestampSkew v.now = true := by rw [Presentation.valid, hcheck]
  simp only [Verifier.next]
  rcases p.verify_cases lib maxTimestampSkew v.now v.seen with
    ⟨hinvalid, -⟩ | ⟨-, hfound, -⟩ | ⟨-, -, hverify⟩
  · rw [hvalid] at hinvalid
    cases hinvalid
  · rw [hfresh] at hfound
    cases hfound
  · rw [hverify]

theorem next_of_remembered {p : Presentation}
    (hfound : (v.seen.sweep v.now).has p.spelling = true)
    (hcheck : p.check lib maxTimestampSkew v.now = .ok ()) :
    v.next lib maxTimestampSkew (.present p) = some { v with seen := v.seen.sweep v.now } := by
  have hvalid : p.valid lib maxTimestampSkew v.now = true := by rw [Presentation.valid, hcheck]
  simp only [Verifier.next]
  rcases p.verify_cases lib maxTimestampSkew v.now v.seen with
    ⟨hinvalid, -⟩ | ⟨-, -, _, hverify⟩ | ⟨-, hfresh, -⟩
  · rw [hvalid] at hinvalid
    cases hinvalid
  · rw [hverify]
  · rw [hfound] at hfresh
    cases hfresh

end Step

/-- Every signed statement is accepted at most once in a run just when it is presented again
only as a signature was spelled that was accepted less than the skew before. -/
theorem accepted_once_iff {lib : Stellar} {maxTimestampSkew now : Int} {events : List Event}
    {v : Verifier}
    (h : Run (StepOf (Verifier.next lib maxTimestampSkew)) (Verifier.start now) events v) :
    Throughout (Verifier.next lib maxTimestampSkew) Verifier.AtMostOnce (Verifier.start now)
        events ↔
      Run (Run.Guarded (StepOf (Verifier.next lib maxTimestampSkew))
        (RepeatedInTime lib maxTimestampSkew)) (Verifier.start now) events v := by
  have hstart : Seen.Tracks (Verifier.start now).seen ((Verifier.start now).records maxTimestampSkew)
    now := Seen.Tracks.nil now
  constructor
  · intro hall
    refine guarded_of_throughout
      (J := fun v => Seen.Tracks v.seen (v.records maxTimestampSkew) v.now ∧ v.AtMostOnce)
      ⟨hstart, List.nodup_nil⟩ ?_ ?_ h hall
    · intro x e y hx hC hxy
      exact ⟨(next_accepted hx.1 hxy).1, (next_atMostOnce hx.1 hxy hx.2).mpr hC⟩
    · intro x e y hx hxy hy
      exact (next_atMostOnce hx.1 hxy hx.2).mp hy
  · intro hg
    refine (throughout_of_guarded
      (I := fun v => Seen.Tracks v.seen (v.records maxTimestampSkew) v.now ∧ v.AtMostOnce)
      ⟨hstart, List.nodup_nil⟩ ?_ hg).mono fun v hv => hv.2
    intro x e y hx hC hxy
    exact ⟨(next_accepted hx.1 hxy).1, (next_atMostOnce hx.1 hxy hx.2).mpr hC⟩

/-! ## Two statements -/

def aliceAddress : String := "GAAAAAAAAAAAAAAAAAAAAAAAAAAAAAAAAAAAAAAAAAAAAAAAAAAAC6PV"
def bobAddress : String := "GAAAAAAAAAAAAAAAAAAAAAAAAAAAAAAAAAAAAAAAAAAAAAAAAAAAEGWF"

/-- A hash that is quick to compute. -/
def digestBytes (message : List UInt8) : List UInt8 :=
  let n := message.foldl (fun h b => (h * 257 + b.toNat) % 2 ^ 256) 1
  (List.range 32).map fun i => UInt8.ofNat (n / 256 ^ i)

/-- The one signature that each address has of each hash. -/
def demoSign (address : String) (hash : List UInt8) : List UInt8 :=
  hash ++ digestBytes (Text.utf8 address)

def demoStellar : Stellar where
  isValidEd25519PublicKey address := decide (address = aliceAddress ∨ address = bobAddress)
  verify address hash signature := decide (signature = demoSign address hash)
  sha256 := digestBytes

/-- `alice` writes to `bob` at second 100. -/
def greeting : AuthData where
  sender := aliceAddress
  recipient := bobAddress
  nonce := 0
  timestamp := 100
  ciphertext := "aGVsbG8="
  signature := "387172fe7e596502eb0443a689a2ee4f364e8cdf0e38f24d81440a9a490d5eea" ++
    "5a939d0e94484a14d21fbc5a2bfb94e72a271659ce7f09dee73e692016d7c5ff"

/-- The same request with a signature in capitals. -/
def shoutedGreeting : AuthData :=
  { greeting with
    signature := "387172FE7E596502EB0443A689A2EE4F364E8CDF0E38F24D81440A9A490D5EEA" ++
      "5A939D0E94484A14D21FBC5A2BFB94E72A271659CE7F09DEE73E692016D7C5FF" }

/-- `alice` proves at second 100 that the address is hers. -/
def ownershipOfAlice : Presentation :=
  .ownership aliceAddress 100 ("253ce79b27fabc4f9753c36650d9ac265f8fe72f7f4f599566b855bcf2d5919a" ++
    "5a939d0e94484a14d21fbc5a2bfb94e72a271659ce7f09dee73e692016d7c5ff")

theorem greeting_signed : verifySignature demoStellar aliceAddress
    (buildDmAuthMessage demoStellar bobAddress 0 100 "aGVsbG8=") greeting.signature = .ok true := by
  have hascii : (Text.utf8 greeting.signature).all (· < 128) = true := by decide
  refine verifySignature_of_verify (Text.fromHex_of_ascii hascii) ?_ ?_
  · decide +kernel
  · decide +kernel

theorem shoutedGreeting_signed : verifySignature demoStellar aliceAddress
    (buildDmAuthMessage demoStellar bobAddress 0 100 "aGVsbG8=") shoutedGreeting.signature =
      .ok true := by
  have hascii : (Text.utf8 shoutedGreeting.signature).all (· < 128) = true := by decide
  refine verifySignature_of_verify (Text.fromHex_of_ascii hascii) ?_ ?_
  · decide +kernel
  · decide +kernel

/-- The request is valid for half a minute before and after it is signed. -/
theorem greeting_checked {now : Int} (h : Timely 30 now 100) :
    checkMessageAuth demoStellar 30 now greeting = .ok () :=
  checkMessageAuth_of_verify (by decide) (by decide) (by decide) h greeting_signed

theorem shoutedGreeting_checked {now : Int} (h : Timely 30 now 100) :
    checkMessageAuth demoStellar 30 now shoutedGreeting = .ok () :=
  checkMessageAuth_of_verify (by decide) (by decide) (by decide) h shoutedGreeting_signed

theorem ownershipOfAlice_checked {now : Int} (h : Timely 30 now 100) :
    ownershipOfAlice.check demoStellar 30 now = .ok () := by
  have hascii : (Text.utf8 ownershipOfAlice.spelling).all (· < 128) = true := by decide
  have hsigned : verifySignature demoStellar aliceAddress (ownershipChallenge aliceAddress 100)
      ownershipOfAlice.spelling = .ok true := by
    refine verifySignature_of_verify (Text.fromHex_of_ascii hascii) ?_ ?_
    · decide +kernel
    · decide +kernel
  exact checkAddressOwnership_of_verify (by decide) h hsigned

/-- The proof has been accepted at second 100. -/
def afterProof (now : Int) : Verifier where
  seen := [(ownershipOfAlice.spelling, 130)]
  now
  accepted := [⟨ownershipOfAlice.statement demoStellar, ownershipOfAlice.spelling, 100⟩]

theorem ownershipOfAlice_accepted : (Verifier.start 100).next demoStellar 30
    (.present ownershipOfAlice) = some (afterProof 100) :=
  next_of_fresh (ownershipOfAlice_checked (by decide)) rfl

/-- The second presentation is refused. -/
def repeatedProof : List Event := [.present ownershipOfAlice, .wait 29, .present ownershipOfAlice]

theorem accepted_once_iff_proof : ∃ v,
    Run (StepOf (Verifier.next demoStellar 30)) (Verifier.start 100) repeatedProof v ∧
    v.accepted.length = 1 ∧
    Throughout (Verifier.next demoStellar 30) Verifier.AtMostOnce (Verifier.start 100)
      repeatedProof := by
  have hfound : ((afterProof 129).seen.sweep 129).has ownershipOfAlice.spelling = true := by decide
  have hrefused : (afterProof 129).next demoStellar 30 (.present ownershipOfAlice) =
      some (afterProof 129) :=
    next_of_remembered hfound (ownershipOfAlice_checked (by decide))
  have hfirst : RepeatedInTime demoStellar 30 (Verifier.start 100) (.present ownershipOfAlice) :=
    fun _ hmem => absurd hmem List.not_mem_nil
  have hagain : RepeatedInTime demoStellar 30 (afterProof 129) (.present ownershipOfAlice) :=
    fun _ _ => ⟨_, List.mem_cons_self, rfl, by decide⟩
  have hwait : (afterProof 100).next demoStellar 30 (.wait 29) = some (afterProof 129) := rfl
  have hwalk : walk (restrict (Verifier.next demoStellar 30) (RepeatedInTime demoStellar 30))
      repeatedProof (Verifier.start 100) = some (afterProof 129) := by
    rw [repeatedProof, walk_cons ((restrict_of_met hfirst).trans ownershipOfAlice_accepted),
      walk_cons ((restrict_of_met trivial).trans hwait),
      walk_cons ((restrict_of_met hagain).trans hrefused), walk]
  have hg := guarded_of_walk hwalk
  exact ⟨_, hg.of_guarded, rfl, (accepted_once_iff hg.of_guarded).mpr hg⟩

/-- Another spelling is accepted at once, and a proof of the current second is accepted again
when its entry expires. -/
theorem accepted_twice :
    (∀ address hash signature signature', demoStellar.verify address hash signature = true →
      demoStellar.verify address hash signature' = true → signature = signature') ∧
    (∃ v, Run (StepOf (Verifier.next demoStellar 30)) (Verifier.start 100)
      [.present (.message greeting), .present (.message shoutedGreeting)] v ∧ ¬ v.AtMostOnce) ∧
    (∃ v, Run (StepOf (Verifier.next demoStellar 30)) (Verifier.start 100)
      [.present ownershipOfAlice, .wait 30, .present ownershipOfAlice] v ∧ ¬ v.AtMostOnce) := by
  have htwice : ∀ {v : Verifier} {s : Statement} {x y : String} {t u : Int},
      v.accepted = [⟨s, x, t⟩, ⟨s, y, u⟩] → ¬ v.AtMostOnce := by
    intro v s x y t u hv hnodup
    rw [Verifier.AtMostOnce, hv] at hnodup
    exact (List.nodup_cons.mp hnodup).1 List.mem_cons_self
  refine ⟨?_, ?_, ?_⟩
  · intro address hash signature signature' h h'
    exact (of_decide_eq_true h).trans (of_decide_eq_true h').symm
  · have hgreeting : Presentation.check demoStellar 30 100 (.message greeting) = .ok () := by
      rw [Presentation.check]
      exact greeting_checked (by decide)
    have hshouted : Presentation.check demoStellar 30 100 (.message shoutedGreeting) = .ok () := by
      rw [Presentation.check]
      exact shoutedGreeting_checked (by decide)
    have hfresh : (Seen.sweep [(greeting.signature, 130)] 100).has shoutedGreeting.signature =
        false := by decide
    let s := Presentation.statement demoStellar (.message greeting)
    let v₁ : Verifier := ⟨[(greeting.signature, 130)], 100, [⟨s, greeting.signature, 100⟩]⟩
    have hfirst : (Verifier.start 100).next demoStellar 30 (.present (.message greeting)) =
        some v₁ := next_of_fresh (v := Verifier.start 100) hgreeting rfl
    have hsecond := next_of_fresh (v := v₁) hshouted hfresh
    exact ⟨_, run_of_walk ((walk_cons hfirst).trans (walk_cons hsecond)), htwice rfl⟩
  · have hforgotten : ((afterProof 130).seen.sweep 130).has ownershipOfAlice.spelling = false := rfl
    have hagain : (afterProof 130).next demoStellar 30 (.present ownershipOfAlice) = some _ :=
      next_of_fresh (ownershipOfAlice_checked (by decide)) hforgotten
    exact ⟨_, run_of_walk ((walk_cons ownershipOfAlice_accepted).trans
      ((walk_cons rfl).trans (walk_cons hagain))), htwice rfl⟩

end Relay
end Linkora
