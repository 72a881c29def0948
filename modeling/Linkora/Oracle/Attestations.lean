import Linkora.Contract.Published
import Linkora.Lib.Sha256
import Linkora.Oracle.Codec

/-!
# What a published attestation says

`verify_analytics_attestation` checks the oracle's signature of the bytes it is given and
takes the creator and the window beside them.  It does not decode the bytes, so the event
repeats what the caller passed; the nullifier is of the bytes alone, so a report is
attested once, whatever it was attested as.
-/

namespace Linkora
namespace Oracle

open Contract (Address Book Bytes Bytes32 Bytes64 Call Condition Env Event Host
  ReachableUnder State Symbol World alice bob bookHost demo exec isZeroAddress linkora
  reachable_demo signedAt)

/-! ## The reports that the oracle has signed -/

section Signed

variable (sha256 : Bytes → Bytes32) (encode : List Item → Option Bytes)
  (sign : Bytes32 → Bytes → Bytes64)

/-- The signer has signed the report, with this digest and this signature. -/
def Signs (signer : Signer) (report : AnalyticsReport) (digest : Bytes32)
    (signature : Bytes64) : Prop :=
  ∃ cbor out, encodeReport encode report = .ok cbor ∧
    signer.signReport sha256 sign cbor = .ok out ∧ out.reportHash = digest ∧
    out.signature = signature

/-- Only what the oracle has signed, in the calls `issued`, verifies under the key. -/
def Unforgeable (verify : Bytes32 → Bytes32 → Bytes64 → Bool)
    (issued : List (Signer × AnalyticsReport)) (pubkey : Bytes32) : Prop :=
  ∀ digest signature, verify pubkey digest signature = true →
    ∃ x ∈ issued, Signs sha256 encode sign x.1 x.2 digest signature

/-- The report is encoded as bytes with this digest. -/
def HashesTo (report : AnalyticsReport) (digest : Bytes32) : Prop :=
  ∃ cbor, encodeReport encode report = .ok cbor ∧ sha256 cbor = digest

/-- The encodings of the reports, of those that have one. -/
def encodings (issued : List (Signer × AnalyticsReport)) : List Bytes :=
  issued.filterMap fun x => (encodeReport encode x.2).toOption

end Signed

/-- The report is about this creator and this window. -/
def AnalyticsReport.Names (report : AnalyticsReport) (creator : Address)
    (windowStart windowEnd : Nat) : Prop :=
  (∃ key : Bytes32, creator = .account key ∧ report.creator = key.toBytes) ∧
    report.windowStart = windowStart ∧ report.windowEnd = windowEnd

/-- What is passed beside the bytes is what the report in them says. -/
def Faithful (encode : List Item → Option Bytes) (cbor : Bytes) (creator : Address)
    (windowStart windowEnd : Nat) : Prop :=
  ∀ report, encodeReport encode report = .ok cbor → report.Names creator windowStart windowEnd

variable {σ : Type} {host : Host σ} {encode : List Item → Option Bytes}
  {sign : Bytes32 → Bytes → Bytes64} {issued : List (Signer × AnalyticsReport)}

theorem Signs.hashesTo {signer : Signer} {report : AnalyticsReport} {digest : Bytes32}
    {signature : Bytes64} (h : Signs host.sha256 encode sign signer report digest signature) :
    HashesTo host.sha256 encode report digest := by
  obtain ⟨cbor, out, hcbor, hout, hdigest, -⟩ := h
  exact ⟨cbor, hcbor, (signReport_ok hout).symm.trans hdigest⟩

theorem mem_encodings {x : Signer × AnalyticsReport} (hx : x ∈ issued) {cbor : Bytes}
    (h : encodeReport encode x.2 = .ok cbor) : cbor ∈ encodings encode issued := by
  refine List.mem_filterMap.mpr ⟨x, hx, ?_⟩
  rw [h]
  rfl

/-! ## The log -/

/-- The event attests the report with this digest. -/
def attests (digest : Bytes32) : Event → Bool
  | .attestationVerified _ reportHash _ _ _ => reportHash == digest
  | _ => false

theorem attests_of_social {e : Event} (he : e.social = true) (digest : Bytes32) :
    attests digest e = false := by
  cases e <;> first | rfl | cases he

theorem attests_of_minor {e : Event} (he : e.minor = true) (digest : Bytes32) :
    attests digest e = false := by
  cases e <;> first | rfl | cases he

/-- How often the report with this digest has been attested. -/
def attested (s : State) (digest : Bytes32) : Nat := s.events.countP (attests digest)

theorem attested_append {s s' : State} {es : List Event} (hes : s'.events = s.events ++ es)
    (h : ∀ digest, ∀ e ∈ es, attests digest e = false) (digest : Bytes32) :
    attested s' digest = attested s digest := by
  have hzero : es.countP (attests digest) = 0 :=
    List.countP_eq_zero.mpr fun e he => Bool.eq_false_iff.mp (h digest e he)
  rw [attested, hes, List.countP_append, hzero, Nat.add_zero, attested]

theorem attested_publish {s s' : State} {e : Event} (hes : s'.events = s.events ++ [e])
    (he : e.social = true ∨ e.minor = true) (digest : Bytes32) :
    attested s' digest = attested s digest := by
  refine attested_append hes (fun digest x hx => ?_) digest
  rw [List.mem_singleton.mp hx]
  rcases he with he | he
  · exact attests_of_social he digest
  · exact attests_of_minor he digest

theorem insertPost_attested {env : Env} {s : State} {author : Address} {content : Bytes}
    {r : Nat × State} (h : Contract.insertPost env s author content = .ok r) (digest : Bytes32) :
    attested r.2 digest = attested s digest := by
  obtain ⟨post, -, -, -, -, -, -, hs⟩ := Contract.insertPost_ok h
  rw [hs]
  exact attested_publish rfl (Or.inl rfl) digest

/-- Only `verify_analytics_attestation` adds attestations. -/
theorem exec_attested {env : Env} {w w' : World σ} {c : Call} (he : exec host env w c = .ok w')
    (hc : c.attests = false) (digest : Bytes32) :
    attested w'.store digest = attested w.store digest := by
  cases hannounce : c.announces with
  | false =>
    obtain ⟨es, hes, hminor⟩ := Contract.exec_minor he hannounce hc
    exact attested_append hes (fun digest e he => attests_of_minor (hminor e he) digest) digest
  | true =>
    cases c with
    | follow =>
      obtain ⟨-, -, -, -, -, -, -, -, -, _, -, hs⟩ :=
        Contract.follow_eq_ok.mp (World.onStore_eq_ok.mp he).1
      rw [← hs]
      exact attested_publish rfl (Or.inl rfl) digest
    | unfollow =>
      obtain ⟨-, -, -, -, -, _, -, hs⟩ :=
        Contract.unfollow_eq_ok.mp (World.onStore_eq_ok.mp he).1
      rw [← hs]
      exact attested_publish rfl (Or.inl rfl) digest
    | createPost =>
      obtain ⟨r, hr, hrs⟩ := Checked.map_eq_ok.mp (World.onStore_eq_ok.mp he).1
      rw [← hrs]
      exact insertPost_attested (Contract.createPost_ok hr).2.2 digest
    | batchCreatePost =>
      obtain ⟨r, hr, hrs⟩ := Checked.map_eq_ok.mp (World.onStore_eq_ok.mp he).1
      rw [← hrs]
      refine Contract.batchCreatePost_counted hr
        (P := fun _ s => attested s digest = attested w.store digest) ?_ rfl
      intro n s content q _ hs hq
      exact (insertPost_attested hq digest).trans hs
    | commitPost =>
      obtain ⟨r, hr, hrs⟩ := Checked.map_eq_ok.mp (World.onStore_eq_ok.mp he).1
      obtain ⟨-, -, q, hq, rfl⟩ := Contract.commitPost_ok hr
      rw [← hrs, ← insertPost_attested hq digest]
      exact attested_publish rfl (Or.inr rfl) digest
    | deletePost =>
      obtain ⟨post, -, -, hs⟩ := Contract.deletePost_ok (World.onStore_eq_ok.mp he).1
      rw [hs]
      exact attested_publish rfl (Or.inl rfl) digest
    | likePost =>
      rcases Contract.likePost_ok (World.onStore_eq_ok.mp he).1 with
        ⟨-, hs⟩ | ⟨post, -, -, -, -, hs⟩
      · rw [hs]
      · rw [hs]
        exact attested_publish rfl (Or.inl rfl) digest
    | tip =>
      obtain ⟨-, -, _, _, _, _, _, _, -, -, -, -, -, rfl⟩ := Contract.tip_ok he
      exact attested_publish rfl (Or.inl rfl) digest
    | reviewReport =>
      obtain ⟨e, hes, ⟨_, rfl⟩ | hminor⟩ := Contract.reviewReport_event he
      · exact attested_publish hes (Or.inl rfl) digest
      · exact attested_publish hes (Or.inr hminor) digest
    | _ => cases hannounce

/-! ## Every reachable state -/

/-- Only keys under which nothing can be forged are registered. -/
def TrustedOracles (host : Host σ) (encode : List Item → Option Bytes)
    (sign : Bytes32 → Bytes → Bytes64) (issued : List (Signer × AnalyticsReport)) : Condition :=
  fun _ _ c => ∀ admin name pubkey, c = .registerOracle admin name pubkey →
    Unforgeable host.sha256 encode sign host.ed25519Verify issued pubkey

/-- The registered keys are trusted, and a report is attested at most once, with its nullifier
set. -/
structure Audited (host : Host σ) (encode : List Item → Option Bytes)
    (sign : Bytes32 → Bytes → Bytes64) (issued : List (Signer × AnalyticsReport)) (s : State) :
    Prop where
  keys : ∀ name pubkey, s.oracle.key.get name = some pubkey →
    Unforgeable host.sha256 encode sign host.ed25519Verify issued pubkey
  once : ∀ digest, attested s digest ≤ 1
  spent : ∀ digest, 0 < attested s digest → s.oracle.attestationNullifier.has digest = true

namespace Audited

/-- What is asked of the state only looks at the keys, the nullifiers and the log. -/
theorem congr {s s' : State} (h : Audited host encode sign issued s)
    (horacle : s'.oracle = s.oracle) (hlog : ∀ digest, attested s' digest = attested s digest) :
    Audited host encode sign issued s' where
  keys name pubkey := by
    rw [horacle]
    exact h.keys name pubkey
  once digest := by
    rw [hlog]
    exact h.once digest
  spent digest := by
    rw [hlog, horacle]
    exact h.spent digest

theorem verify {env : Env} {s s' : State} {name : Symbol} {cbor : Bytes} {signature : Bytes64}
    {creator : Address} {windowStart windowEnd : Nat} (h : Audited host encode sign issued s)
    (hv : Contract.verifyAnalyticsAttestation host env s name cbor signature creator windowStart
      windowEnd = .ok s') : Audited host encode sign issued s' := by
  obtain ⟨-, -, -, hfresh, pubkey, -, -, hs⟩ := Contract.verifyAnalyticsAttestation_checks hv
  have hlog : ∀ digest, attested s' digest =
      attested s digest + if host.sha256 cbor == digest then 1 else 0 := by
    intro digest
    rw [attested, Contract.verifyAnalyticsAttestation_events hv, List.countP_append,
      List.countP_singleton]
    rfl
  have hspent : ∀ digest, s'.oracle.attestationNullifier.has digest =
      if digest = host.sha256 cbor then true
      else s.oracle.attestationNullifier.has digest := by
    intro digest
    rw [hs]
    exact Store.has_set _ _ _ _
  refine ⟨?_, fun digest => ?_, fun digest hpos => ?_⟩
  · rw [hs]
    exact h.keys
  · rw [hlog]
    by_cases hsame : host.sha256 cbor = digest
    · subst hsame
      have hnone : attested s (host.sha256 cbor) = 0 := by
        by_contra hsome
        rw [h.spent _ (Nat.pos_of_ne_zero hsome)] at hfresh
        cases hfresh
      rw [hnone, if_pos (beq_self_eq_true _)]
    · rw [if_neg (by simpa using hsame), Nat.add_zero]
      exact h.once digest
  · rw [hspent]
    split
    · rfl
    · rename_i hother
      rw [hlog, if_neg (by simpa using fun heq => hother heq.symm), Nat.add_zero] at hpos
      exact h.spent digest hpos

theorem registerOracle {env : Env} {s s' : State} {admin : Address} {name : Symbol}
    {pubkey : Bytes32} (h : Audited host encode sign issued s)
    (hkey : Unforgeable host.sha256 encode sign host.ed25519Verify issued pubkey)
    (hr : Contract.registerOracle env s admin name pubkey = .ok s') :
    Audited host encode sign issued s' := by
  simp only [Contract.registerOracle, Checked.bind_eq_ok, Checked.pure_eq_ok] at hr
  obtain ⟨-, -, -, -, -, -, rfl⟩ := hr
  refine ⟨fun x key hx => ?_, h.once, h.spent⟩
  have hx' : (s.oracle.key.set name pubkey).get x = some key := hx
  rw [Store.get_set] at hx'
  split at hx'
  · rw [← Option.some.inj hx']
    exact hkey
  · exact h.keys x key hx'

theorem exec {env : Env} {w w' : World σ} {c : Call} (h : Audited host encode sign issued w.store)
    (hc : TrustedOracles host encode sign issued w.store env c)
    (he : Contract.exec host env w c = .ok w') : Audited host encode sign issued w'.store := by
  cases hattest : c.attests with
  | true =>
    cases c with
    | verifyAnalyticsAttestation => exact h.verify (World.onStore_eq_ok.mp he).1
    | _ => cases hattest
  | false =>
    by_cases horacle : Contract.Part.oracle ∈ c.parts
    · cases c with
      | registerOracle admin name pubkey =>
        exact h.registerOracle (hc admin name pubkey rfl) (World.onStore_eq_ok.mp he).1
      | verifyAnalyticsAttestation => cases hattest
      | _ => simp [Call.parts] at horacle
    · exact h.congr (Contract.exec_frame he horacle) (exec_attested he hattest)

theorem of_reachable {w : World σ}
    (hw : ReachableUnder host (TrustedOracles host encode sign issued) w) :
    Audited host encode sign issued w.store := by
  refine hw.store_invariant ?_ (fun w env c w' h hc he => h.exec hc he)
  intro s env admin treasury feeBps hs
  have hzero : ∀ digest, attested s digest = 0 := by
    intro digest
    obtain ⟨es, hes, hminor⟩ := Contract.initializeContract_minor hs
    exact attested_append hes (fun digest e he => attests_of_minor (hminor e he) digest) digest
  obtain ⟨-, -, _, _, rfl⟩ := Contract.initializeContract_ok hs
  exact ⟨nofun, fun digest => by rw [hzero]; exact Nat.zero_le 1,
    fun digest hpos => by rw [hzero] at hpos; cases hpos⟩

end Audited

/-- Let the registered keys be keys of the oracle.  A call of `verify_analytics_attestation`
that succeeds publishes an event with its own creator and window, and the oracle has signed
a report with the digest in it; the creator and the window are those of the signed report
if what the caller passes is what the report in the bytes says.  No report is attested
twice. -/
theorem attestations_signed {w : World σ}
    (hw : ReachableUnder host (TrustedOracles host encode sign issued) w) :
    (∀ env w' name cbor signature creator windowStart windowEnd,
      exec host env w (.verifyAnalyticsAttestation name cbor signature creator windowStart
        windowEnd) = .ok w' →
      w'.store.events = w.store.events ++ [.attestationVerified name (host.sha256 cbor) creator
        windowStart windowEnd] ∧
      isZeroAddress creator = false ∧ windowStart ≤ env.timestamp ∧ env.timestamp ≤ windowEnd ∧
      ∃ x ∈ issued, HashesTo host.sha256 encode x.2 (host.sha256 cbor) ∧
        (CollisionFree host.sha256 (cbor :: encodings encode issued) →
          Faithful encode cbor creator windowStart windowEnd →
          x.2.Names creator windowStart windowEnd)) ∧
    ∀ digest, attested w.store digest ≤ 1 := by
  have haudited := Audited.of_reachable hw
  refine ⟨?_, haudited.once⟩
  intro env w' name cbor signature creator windowStart windowEnd he
  have hv := (World.onStore_eq_ok.mp he).1
  obtain ⟨hcreator, hstart, hend, -, pubkey, hpubkey, hsig, -⟩ :=
    Contract.verifyAnalyticsAttestation_checks hv
  obtain ⟨x, hx, hsigns⟩ := haudited.keys name pubkey hpubkey _ _ hsig
  refine ⟨Contract.verifyAnalyticsAttestation_events hv, hcreator, hstart, hend, x, hx,
    hsigns.hashesTo, fun hfree hfaithful => ?_⟩
  obtain ⟨bytes, hbytes, hdigest⟩ := hsigns.hashesTo
  have hsame : bytes = cbor := hfree bytes (List.mem_cons_of_mem _ (mem_encodings hx hbytes)) cbor
    List.mem_cons_self hdigest
  rw [hsame] at hbytes
  exact hfaithful x.2 hbytes

/-! ## An oracle that has signed one report -/

/-- The bytes of a number below `2 ^ 64`, after the byte that says so. -/
def cborUnsigned (n : Nat) : Bytes :=
  0x1b :: (List.range 8).map fun i => UInt8.ofNat (n / 256 ^ (7 - i))

/-- Small integers, numbers of eight bytes, and byte strings of up to 255 bytes. -/
def cborItem : Item → Option Bytes
  | .number n => n.integer.bind fun v => if 0 ≤ v ∧ v < 24 then some [UInt8.ofNat v.toNat] else none
  | .bigint n => if 0 ≤ n ∧ n < 2 ^ 64 then some (cborUnsigned n.toNat) else none
  | .bytes b =>
    if 24 ≤ b.length ∧ b.length < 256 then some (0x58 :: UInt8.ofNat b.length :: b) else none

def cborArray (items : List Item) : Option Bytes :=
  if items.length < 24 then
    (items.mapM cborItem).map fun parts => UInt8.ofNat (0x80 + items.length) :: parts.flatten
  else none

/-- What `alice` has earned from 1 to 9. -/
def reportOfAlice : AnalyticsReport where
  version := ⟨"1", some 1⟩
  creator := Contract.Bytes32.toBytes 1
  windowStart := 1
  windowEnd := 9
  totalTips := 40
  postCount := 2
  followerDelta := 0
  uniqueTippers := ⟨"1", some 1⟩

def cborOfAlice : Bytes := (cborArray reportOfAlice.array).getD []

def oracleSign : Bytes32 → Bytes → Bytes64 := fun _ _ => 1

def oracleIssued : List (Signer × AnalyticsReport) := [(⟨[3], false⟩, reportOfAlice)]

/-- Hashes with SHA-256, and accepts the one signature that there is. -/
def oracleHost : Host Book :=
  { bookHost linkora with
    sha256 := Sha256.digest
    ed25519Verify := fun _ digest signature =>
      digest == Sha256.digest cborOfAlice && signature == 1 }

theorem encodeReport_alice : encodeReport cborArray reportOfAlice = .ok cborOfAlice := by
  decide

theorem unforgeable_oracle (pubkey : Bytes32) :
    Unforgeable oracleHost.sha256 cborArray oracleSign oracleHost.ed25519Verify oracleIssued
      pubkey := by
  intro digest signature h
  obtain ⟨hdigest, hsignature⟩ := Bool.and_eq_true_iff.mp h
  exact ⟨_, List.mem_singleton_self _, cborOfAlice, ⟨1, Sha256.digest cborOfAlice⟩,
    encodeReport_alice, rfl, (beq_iff_eq.mp hdigest).symm, (beq_iff_eq.mp hsignature).symm⟩

/-- The oracle is registered, and then `bob` calls. -/
def submitted (creator : Address) (windowStart windowEnd : Nat) : Option (World Book × World Book) :=
  (Contract.start (signedAt 1) alice bob 250 (fun _ _ => 0)).bind fun w₀ =>
    (exec oracleHost (signedAt 2) w₀ (.registerOracle alice "analytics" 3)).toOption.bind fun w =>
      (exec oracleHost (signedAt 3) w
        (.verifyAnalyticsAttestation "analytics" cborOfAlice 1 creator windowStart
          windowEnd)).toOption.map fun w' => (w, w')

theorem submitted_ok {creator : Address} {windowStart windowEnd : Nat}
    (h : (submitted creator windowStart windowEnd).isSome = true) :
    ∃ w w', ReachableUnder oracleHost
        (TrustedOracles oracleHost cborArray oracleSign oracleIssued) w ∧
      exec oracleHost (signedAt 3) w (.verifyAnalyticsAttestation "analytics" cborOfAlice 1 creator
        windowStart windowEnd) = .ok w' := by
  obtain ⟨x, hx⟩ := Option.isSome_iff_exists.mp h
  obtain ⟨w₀, hw₀, hx⟩ := Option.bind_eq_some_iff.mp hx
  obtain ⟨w, hw, hx⟩ := Option.bind_eq_some_iff.mp hx
  obtain ⟨w', hw', rfl⟩ := Option.map_eq_some_iff.mp hx
  obtain ⟨s, hs, rfl⟩ := Option.map_eq_some_iff.mp hw₀
  have hstarted : ReachableUnder oracleHost
      (TrustedOracles oracleHost cborArray oracleSign oracleIssued) (World.mk s (fun _ _ => 0)) :=
    ⟨_, [], ⟨_, _, _, _, Contract.toOption_eq_some.mp hs⟩, .nil⟩
  refine ⟨w, w', hstarted.call ?_ (Contract.toOption_eq_some.mp hw),
    Contract.toOption_eq_some.mp hw'⟩
  intro admin name pubkey _
  exact unforgeable_oracle pubkey

theorem attestations_signed_faithful :
    ∃ w w', ReachableUnder oracleHost
        (TrustedOracles oracleHost cborArray oracleSign oracleIssued) w ∧
      exec oracleHost (signedAt 3) w
        (.verifyAnalyticsAttestation "analytics" cborOfAlice 1 alice 1 9) = .ok w' ∧
      ∃ x ∈ oracleIssued, HashesTo oracleHost.sha256 cborArray x.2
        (oracleHost.sha256 cborOfAlice) := by
  have hrun : (submitted alice 1 9).isSome = true := by decide +kernel
  obtain ⟨w, w', hw, he⟩ := submitted_ok hrun
  obtain ⟨-, -, -, -, x, hx, hhash, -⟩ := (attestations_signed hw).1 _ _ _ _ _ _ _ _ he
  exact ⟨w, w', hw, he, x, hx, hhash⟩

/-- The report of `alice` is attested as one of `bob`, and of another window. -/
theorem attested_as_another :
    ∃ w w', ReachableUnder oracleHost
        (TrustedOracles oracleHost cborArray oracleSign oracleIssued) w ∧
      exec oracleHost (signedAt 3) w
        (.verifyAnalyticsAttestation "analytics" cborOfAlice 1 bob 0 5) = .ok w' ∧
      CollisionFree oracleHost.sha256 (cborOfAlice :: encodings cborArray oracleIssued) ∧
      .attestationVerified "analytics" (oracleHost.sha256 cborOfAlice) bob 0 5 ∈ w'.store.events ∧
      ∀ x ∈ oracleIssued, ¬x.2.Names bob 0 5 := by
  have hrun : (submitted bob 0 5).isSome = true := by decide +kernel
  obtain ⟨w, w', hw, he⟩ := submitted_ok hrun
  have hfree : CollisionFree oracleHost.sha256 (cborOfAlice :: encodings cborArray oracleIssued) := by
    have hone : encodings cborArray oracleIssued = [cborOfAlice] := by
      rw [encodings, oracleIssued, List.filterMap_cons, encodeReport_alice]
      rfl
    intro a ha b hb _
    rw [hone] at ha hb
    have ha' : a = cborOfAlice := by simpa using ha
    have hb' : b = cborOfAlice := by simpa using hb
    rw [ha', hb']
  refine ⟨w, w', hw, he, hfree, ?_, ?_⟩
  · rw [Contract.verifyAnalyticsAttestation_events (World.onStore_eq_ok.mp he).1]
    exact List.mem_append_right _ (List.mem_singleton_self _)
  · intro x hx hnames
    rw [List.mem_singleton.mp hx] at hnames
    have hstart : (1 : Int) = (0 : Nat) := hnames.2.1
    cases hstart

end Oracle
end Linkora
