import Linkora.Contract.Entry

/-!
# The life of a proposal

What any call can do to the proposals and the votes is said once, in
`BallotStep`.  The tally, the order of the statuses and the single execution of a
proposal follow from it.
-/

namespace Linkora
namespace Contract

/-- The addresses whose vote on proposal `id` is stored. -/
def voters (g : Gov) (id : Nat) : Set Address := {v | g.vote.has (id, v) = true}

/-- What a call can do to the proposals and the votes. -/
inductive BallotStep (c : Call) (g g' : Gov) : Prop where
  | quiet (other : ∀ id, c ≠ .govExecute id) (proposal : g'.proposal = g.proposal)
      (vote : g'.vote = g.vote) (count : g'.proposalCount = g.proposalCount)
  | propose (other : ∀ id, c ≠ .govExecute id) (p : GovProposal)
      (next : p.id = g.proposalCount.getD 0 + 1) (active : p.status = .active)
      (tally : p.votesFor + p.votesAgainst = 0) (value : p.newValue ≤ U32_MAX)
      (proposal : g'.proposal = g.proposal.set p.id p) (vote : g'.vote = g.vote)
      (count : g'.proposalCount = some p.id)
  | vote (other : ∀ id, c ≠ .govExecute id) (id : Nat) (voter : Address) (p q : GovProposal)
      (stored : g.proposal.get id = some p) (active : p.status = .active)
      (fresh : g.vote.get (id, voter) = none)
      (tally : q.votesFor + q.votesAgainst = p.votesFor + p.votesAgainst + 1)
      (same : q = { p with votesFor := q.votesFor, votesAgainst := q.votesAgainst })
      (proposal : g'.proposal = g.proposal.set id q)
      (vote : g'.vote = g.vote.set (id, voter) true)
      (count : g'.proposalCount = g.proposalCount)
  | close (id : Nat) (p : GovProposal) (status : GovStatus)
      (stored : g.proposal.get id = some p) (active : p.status = .active)
      (how : (c = .govExecute id ∧ status = .executed) ∨
        ((∀ i, c ≠ .govExecute i) ∧ status = .vetoed))
      (proposal : g'.proposal = g.proposal.set id { p with status })
      (vote : g'.vote = g.vote) (count : g'.proposalCount = g.proposalCount)

theorem exec_ballotStep {σ : Type} {host : Host σ} {env : Env} {w w' : World σ} {c : Call}
    (he : exec host env w c = .ok w') : BallotStep c w.store.gov w'.store.gov := by
  cases c with
  | govInitConfig =>
    obtain ⟨-, hs⟩ := govInitConfig_ok (World.onStore_eq_ok.mp he).1
    rw [hs]
    exact .quiet (by simp) rfl rfl rfl
  | govPropose =>
    obtain ⟨r, hr, hs⟩ := Checked.map_eq_ok.mp (World.onStore_eq_ok.mp he).1
    obtain ⟨hvalue, config, -, p, rfl, rfl⟩ := govPropose_ok hr
    rw [← hs]
    exact .propose (by simp) _ rfl rfl rfl hvalue rfl rfl rfl
  | govVote voter proposalId support =>
    obtain ⟨config, p, q, -, hp, hactive, -, hfresh, hq, hs⟩ :=
      govVote_ok (World.onStore_eq_ok.mp he).1
    obtain ⟨htally, hsame⟩ := countVote_ok hq
    rw [hs]
    exact .vote (by simp) proposalId voter p q hp hactive hfresh htally hsame rfl rfl rfl
  | govDelegate =>
    obtain ⟨delegation, hs⟩ := govDelegate_ok (World.onStore_eq_ok.mp he).1
    rw [hs]
    exact .quiet (by simp) rfl rfl rfl
  | govRevokeDelegation =>
    rw [govRevokeDelegation_ok (World.onStore_eq_ok.mp he).1]
    exact .quiet (by simp) rfl rfl rfl
  | govExecute proposalId =>
    obtain ⟨config, p, t, -, hp, hactive, -, ht, hs⟩ :=
      govExecute_ok (World.onStore_eq_ok.mp he).1
    obtain ⟨params, config, ht, -⟩ := applyProposal_ok ht
    rw [hs, ht]
    exact .close proposalId p .executed hp hactive (Or.inl ⟨rfl, rfl⟩) rfl rfl rfl
  | govVeto signers poolId proposalId =>
    obtain ⟨-, -, -, config, -, p, hp, hactive, -, -, -, pool, -, -, hs⟩ :=
      govVeto_eq_ok.mp (World.onStore_eq_ok.mp he).1
    rw [← hs]
    exact .close proposalId p .vetoed hp hactive (Or.inr ⟨by simp, rfl⟩) rfl rfl rfl
  | _ =>
    have hgov : w'.store.gov = w.store.gov :=
      exec_frame (p := .gov) he (by simp [Call.parts])
    rw [hgov]
    exact .quiet (by simp) rfl rfl rfl

/-! ## The tally -/

/-- The proposals and the votes fit together. -/
structure BallotsSound (g : Gov) : Prop where
  id_le : ∀ id p, g.proposal.get id = some p → id ≤ g.proposalCount.getD 0
  value_le : ∀ id p, g.proposal.get id = some p → p.newValue ≤ U32_MAX
  tally : ∀ id p, g.proposal.get id = some p →
    p.votesFor + p.votesAgainst = (voters g id).ncard
  unvoted : ∀ id, g.proposal.get id = none → voters g id = ∅

theorem finite_voters (g : Gov) (id : Nat) : (voters g id).Finite := g.vote.finite_right id

theorem mem_voters_set {g g' : Gov} {id i : Nat} {v a : Address}
    (h : g'.vote = g.vote.set (id, v) true) :
    a ∈ voters g' i ↔ (i = id ∧ a = v) ∨ a ∈ voters g i := by
  show g'.vote.has (i, a) = true ↔ _ ∨ g.vote.has (i, a) = true
  rw [h, Store.has_set, ← Prod.mk.injEq]
  split
  · rename_i heq
    exact ⟨fun _ => Or.inl heq, fun _ => rfl⟩
  · rename_i hne
    exact ⟨Or.inr, fun h => h.resolve_left hne⟩

theorem BallotStep.voters_subset {c : Call} {g g' : Gov} (h : BallotStep c g g') (id : Nat) :
    voters g id ⊆ voters g' id := by
  cases h with
  | quiet _ _ hvote _ => rw [voters, voters, hvote]
  | propose _ p _ _ _ _ _ hvote _ => rw [voters, voters, hvote]
  | vote _ i voter p q _ _ _ _ _ _ hvote _ =>
    exact fun a ha => (mem_voters_set hvote).mpr (Or.inr ha)
  | close i p status _ _ _ _ hvote _ => rw [voters, voters, hvote]

/-- Writing one proposal keeps the ballots sound if the proposal itself fits. -/
theorem BallotsSound.set {g g' : Gov} {id : Nat} {q : GovProposal} (hs : BallotsSound g)
    (hproposal : g'.proposal = g.proposal.set id q)
    (hcount : g.proposalCount.getD 0 ≤ g'.proposalCount.getD 0)
    (hid : id ≤ g'.proposalCount.getD 0) (hvalue : q.newValue ≤ U32_MAX)
    (htally : q.votesFor + q.votesAgainst = (voters g' id).ncard)
    (hothers : ∀ i, i ≠ id → voters g' i = voters g i) : BallotsSound g' := by
  have hcases : ∀ i p, g'.proposal.get i = some p →
      (i = id ∧ p = q) ∨ (i ≠ id ∧ g.proposal.get i = some p) := by
    intro i p hget
    rw [hproposal, Store.get_set] at hget
    by_cases hi : i = id
    · rw [if_pos hi] at hget
      exact Or.inl ⟨hi, (Option.some.inj hget).symm⟩
    · rw [if_neg hi] at hget
      exact Or.inr ⟨hi, hget⟩
  refine ⟨fun i p hget => ?_, fun i p hget => ?_, fun i p hget => ?_, fun i hget => ?_⟩
  · rcases hcases i p hget with ⟨rfl, -⟩ | ⟨-, hold⟩
    · exact hid
    · exact (hs.id_le i p hold).trans hcount
  · rcases hcases i p hget with ⟨-, rfl⟩ | ⟨-, hold⟩
    · exact hvalue
    · exact hs.value_le i p hold
  · rcases hcases i p hget with ⟨rfl, rfl⟩ | ⟨hi, hold⟩
    · exact htally
    · rw [hothers i hi]
      exact hs.tally i p hold
  · have hi : i ≠ id := by
      rintro rfl
      rw [hproposal, Store.get_set_self] at hget
      cases hget
    rw [hproposal, Store.get_set_of_ne hi] at hget
    rw [hothers i hi]
    exact hs.unvoted i hget

theorem BallotsSound.step {c : Call} {g g' : Gov} (hs : BallotsSound g) (h : BallotStep c g g') :
    BallotsSound g' := by
  cases h with
  | quiet _ hp hv hc =>
    refine ⟨?_, ?_, ?_, ?_⟩
    · rw [hp, hc]; exact hs.id_le
    · rw [hp]; exact hs.value_le
    · intro id p hget
      rw [voters, hv]
      exact hs.tally id p (hp ▸ hget)
    · intro id hget
      rw [voters, hv]
      exact hs.unvoted id (hp ▸ hget)
  | propose _ p hnext _ htally hvalue hp hv hc =>
    have hvoters : ∀ i, voters g' i = voters g i := fun i => by rw [voters, voters, hv]
    have hfree : g.proposal.get p.id = none := by
      cases hget : g.proposal.get p.id with
      | none => rfl
      | some q =>
        have := hs.id_le p.id q hget
        omega
    refine hs.set hp ?_ ?_ hvalue ?_ (fun i _ => hvoters i)
    · rw [hc, Option.getD_some]
      omega
    · rw [hc, Option.getD_some]
    · rw [hvoters, hs.unvoted p.id hfree, Set.ncard_empty, htally]
  | vote _ id voter p q hstored _ hfresh htally hsame hp hv hc =>
    have hnew : voter ∉ voters g id := by
      show ¬g.vote.has (id, voter) = true
      rw [Store.has_eq, hfresh]
      simp
    have hvoters : voters g' id = insert voter (voters g id) := by
      ext a
      rw [mem_voters_set hv, Set.mem_insert_iff]
      simp only [true_and]
    refine hs.set hp (le_of_eq (by rw [hc])) ?_ ?_ ?_ (fun i hi => ?_)
    · rw [hc]
      exact hs.id_le id p hstored
    · rw [hsame]
      exact hs.value_le id p hstored
    · rw [hvoters, Set.ncard_insert_of_notMem hnew (finite_voters g id), htally,
        hs.tally id p hstored]
    · ext a
      rw [mem_voters_set hv]
      exact ⟨fun h => h.resolve_left (fun e => hi e.1), Or.inr⟩
  | close id p status hstored _ _ hp hv hc =>
    have hvoters : ∀ i, voters g' i = voters g i := fun i => by rw [voters, voters, hv]
    refine hs.set hp (le_of_eq (by rw [hc])) ?_ (hs.value_le id p hstored) ?_
      (fun i _ => hvoters i)
    · rw [hc]
      exact hs.id_le id p hstored
    · rw [hvoters]
      exact hs.tally id p hstored

theorem BallotsSound.of_empty {g : Gov} (hproposal : g.proposal = ∅) (hvote : g.vote = ∅) :
    BallotsSound g := by
  have hnone : ∀ id p, g.proposal.get id ≠ some p := by
    intro id p hp
    rw [hproposal] at hp
    cases hp
  refine ⟨fun id p hp => absurd hp (hnone id p), fun id p hp => absurd hp (hnone id p),
    fun id p hp => absurd hp (hnone id p), fun id _ => ?_⟩
  rw [voters, hvote]
  exact Set.eq_empty_iff_forall_notMem.mpr (fun v hv => by cases hv)

theorem BallotsSound.of_reachable {σ : Type} {host : Host σ} {w : World σ}
    (h : Reachable host w) : BallotsSound w.store.gov := by
  refine h.store_invariant (I := fun s => BallotsSound s.gov) ?_ ?_
  · intro s env admin treasury feeBps hs
    obtain ⟨-, -, access, events, rfl⟩ := initializeContract_ok hs
    exact .of_empty rfl rfl
  · intro w env c w' hw he
    exact hw.step (exec_ballotStep he)

/-! ## Statuses -/

/-- `p'` is `p` at some later time. -/
structure GovProposal.Later (p p' : GovProposal) : Prop where
  fixed : p' = { p with
    votesFor := p'.votesFor, votesAgainst := p'.votesAgainst, status := p'.status }
  status : p'.status = p.status ∨
    (p.status = .active ∧ (p'.status = .executed ∨ p'.status = .vetoed))

theorem GovProposal.Later.refl (p : GovProposal) : p.Later p := ⟨rfl, Or.inl rfl⟩

theorem GovProposal.Later.trans {p q r : GovProposal} (h : p.Later q) (h' : q.Later r) :
    p.Later r := by
  refine ⟨?_, ?_⟩
  · have hr := h'.fixed
    rw [h.fixed] at hr
    exact hr
  · rcases h.status with hq | ⟨hp, hq⟩
    · rcases h'.status with hr | ⟨hqa, hr⟩
      · exact Or.inl (hr.trans hq)
      · exact Or.inr ⟨hq ▸ hqa, hr⟩
    · rcases h'.status with hr | ⟨hqa, -⟩
      · exact Or.inr ⟨hp, by rwa [hr]⟩
      · rw [hqa] at hq
        simp at hq

/-- A proposal is never dropped, and a step leaves it or takes it one stage on. -/
theorem BallotStep.later {c : Call} {g g' : Gov} (h : BallotStep c g g') (hs : BallotsSound g)
    {id : Nat} {p : GovProposal} (hp : g.proposal.get id = some p) :
    ∃ p', g'.proposal.get id = some p' ∧ p.Later p' := by
  cases h with
  | quiet _ hprop _ _ => exact ⟨p, hprop ▸ hp, .refl p⟩
  | propose _ q hnext _ _ _ hprop _ _ =>
    have hne : id ≠ q.id := by
      have := hs.id_le id p hp
      omega
    exact ⟨p, by rw [hprop, Store.get_set_of_ne hne]; exact hp, .refl p⟩
  | vote _ i voter q r hstored _ _ _ hsame hprop _ _ =>
    by_cases hi : id = i
    · subst hi
      obtain rfl := Option.some.inj (hp.symm.trans hstored)
      refine ⟨r, by rw [hprop, Store.get_set_self], ?_, Or.inl (by rw [hsame])⟩
      rw [hsame]
    · exact ⟨p, by rw [hprop, Store.get_set_of_ne hi]; exact hp, .refl p⟩
  | close i q status hstored hactive hhow hprop _ _ =>
    by_cases hi : id = i
    · subst hi
      obtain rfl := Option.some.inj (hp.symm.trans hstored)
      refine ⟨{ p with status }, by rw [hprop, Store.get_set_self], rfl, Or.inr ⟨hactive, ?_⟩⟩
      rcases hhow with ⟨-, rfl⟩ | ⟨-, rfl⟩
      · exact Or.inl rfl
      · exact Or.inr rfl
    · exact ⟨p, by rw [hprop, Store.get_set_of_ne hi]; exact hp, .refl p⟩

/-! ## Execution -/

def Call.isExecute (id : Nat) : Call → Bool
  | .govExecute i => i == id
  | _ => false

theorem Call.isExecute_iff {id : Nat} {c : Call} : c.isExecute id = true ↔ c = .govExecute id := by
  cases c <;> simp [Call.isExecute]

/-- A step that executes proposal `id`. -/
def executes {σ : Type} (id : Nat) : Action σ → Bool
  | .call _ c => c.isExecute id
  | .others _ => false

/-- A proposal that a run has executed is marked so, and only once. -/
theorem executes_count {σ : Type} {host : Host σ} {w₀ w : World σ} {acts : List (Action σ)}
    (hstart : Started w₀) (hrun : Run (Step host) w₀ acts w) (id : Nat) :
    acts.countP (executes id) = 0 ∨ (acts.countP (executes id) = 1 ∧
      ∃ p, w.store.gov.proposal.get id = some p ∧ p.status = .executed) := by
  induction hrun with
  | nil => exact Or.inl rfl
  | @snoc acts b c l hrun hl ih =>
    rw [List.countP_append, List.countP_singleton]
    cases hl with
    | others h => simpa [executes] using ih
    | @call w env call he =>
      have hsound : BallotsSound b.store.gov := .of_reachable ⟨w₀, acts, hstart, hrun⟩
      have hstep := exec_ballotStep he
      -- What has been executed before stays executed.
      have hkeep : ∀ p, b.store.gov.proposal.get id = some p → p.status = .executed →
          ∃ p', c.store.gov.proposal.get id = some p' ∧ p'.status = .executed := by
        intro p hp hexec
        obtain ⟨p', hp', hlater⟩ := hstep.later hsound hp
        rcases hlater.status with hsame | ⟨hactive, -⟩
        · exact ⟨p', hp', hsame.trans hexec⟩
        · rw [hactive] at hexec
          cases hexec
      by_cases hc : call = .govExecute id
      · subst hc
        obtain ⟨config, p, t, -, hp, hactive, -, ht, hs⟩ :=
          govExecute_ok (World.onStore_eq_ok.mp he).1
        have hzero : acts.countP (executes id) = 0 := by
          rcases ih with ih | ⟨-, q, hq, hexec⟩
          · exact ih
          · rw [hp] at hq
            obtain rfl := Option.some.inj hq
            rw [hactive] at hexec
            cases hexec
        refine Or.inr ⟨by simp [hzero, executes, Call.isExecute],
          { p with status := .executed }, ?_, rfl⟩
        rw [hs]
        exact Store.get_set_self _ _ _
      · have hno : executes id (.call env call : Action σ) = false :=
          Bool.eq_false_iff.mpr (fun h => hc (Call.isExecute_iff.mp h))
        rw [hno]
        rcases ih with ih | ⟨hone, p, hp, hexec⟩
        · exact Or.inl ih
        · exact Or.inr ⟨hone, hkeep p hp hexec⟩

/-- The cells that hold protocol parameters. -/
inductive Cell where
  | feeBps
  | treasury
  | tipCooldownWindow
  | moderationSlashBps
  | rentRateBps
  | quorum
  | timeLockLedgers
  | voteWindowLedgers
  | quorumDecayRateBps
  | quorumFloor
  | proposalExpiryLedgers
  deriving DecidableEq

inductive CellValue where
  | number (n : Nat)
  | address (a : Address)
  deriving DecidableEq

def State.cell (s : State) : Cell → Option CellValue
  | .feeBps => s.params.feeBps.map .number
  | .treasury => s.params.treasury.map .address
  | .tipCooldownWindow => s.params.tipCooldownWindow.map .number
  | .moderationSlashBps => s.params.moderationSlashBps.map .number
  | .rentRateBps => s.params.rentRateBps.map .number
  | .quorum => s.gov.config.map fun c => .number c.quorum
  | .timeLockLedgers => s.gov.config.map fun c => .number c.timeLockLedgers
  | .voteWindowLedgers => s.gov.config.map fun c => .number c.voteWindowLedgers
  | .quorumDecayRateBps => s.gov.config.map fun c => .number c.quorumDecayRateBps
  | .quorumFloor => s.gov.config.map fun c => .number c.quorumFloor
  | .proposalExpiryLedgers => s.gov.config.map fun c => .number c.proposalExpiryLedgers

def GovParameter.cell : GovParameter → Cell
  | .feeBps => .feeBps
  | .treasury => .treasury
  | .tipCooldownWindow => .tipCooldownWindow
  | .govQuorum => .quorum
  | .govTimeLock => .timeLockLedgers
  | .govVoteWindow => .voteWindowLedgers
  | .moderationSlashBps => .moderationSlashBps

/-- What a proposal proposes. -/
def GovProposal.proposed (p : GovProposal) : Option CellValue :=
  match p.parameter with
  | .treasury => p.newAddress.map .address
  | _ => some (.number p.newValue)

/-- Applying a proposal sets the cell it names and no other. -/
theorem applyProposal_cell {s t : State} {config : GovConfig} {p : GovProposal}
    (hconfig : s.gov.config = some config) (hvalue : p.newValue ≤ U32_MAX)
    (h : applyProposal s config p = .ok t) :
    ∃ v, p.proposed = some v ∧
      ∀ k, t.cell k = if k = p.parameter.cell then some v else s.cell k := by
  have hval : p.newValue % 2 ^ 32 = p.newValue :=
    Nat.mod_eq_of_lt (by unfold U32_MAX at hvalue; omega)
  unfold applyProposal at h
  rw [hval] at h
  unfold GovProposal.proposed
  cases hp : p.parameter with
  | treasury =>
    simp only [hp, Checked.bind_eq_ok, Checked.pure_eq_ok, expect_eq_ok] at h
    obtain ⟨addr, haddr, -, -, rfl⟩ := h
    refine ⟨.address addr, by rw [haddr, Option.map_some], fun k => ?_⟩
    cases k <;> simp [State.cell, GovParameter.cell]
  | govQuorum =>
    simp only [hp, Checked.bind_eq_ok, Checked.pure_eq_ok] at h
    obtain ⟨-, -, -, -, rfl⟩ := h
    refine ⟨.number p.newValue, rfl, fun k => ?_⟩
    cases k <;> simp [State.cell, GovParameter.cell, hconfig]
  | _ =>
    simp only [hp, Checked.bind_eq_ok, Checked.pure_eq_ok] at h
    obtain ⟨-, -, rfl⟩ := h
    refine ⟨.number p.newValue, rfl, fun k => ?_⟩
    cases k <;> simp [State.cell, GovParameter.cell, hconfig]

theorem govExecute_cell {env : Env} {s s' : State} {id : Nat} (hs : BallotsSound s.gov)
    (h : govExecute env s id = .ok s') :
    ∃ p v, s.gov.proposal.get id = some p ∧ p.proposed = some v ∧
      s'.cell p.parameter.cell = some v ∧
      ∀ k, k ≠ p.parameter.cell → s'.cell k = s.cell k := by
  obtain ⟨config, p, t, hconfig, hp, -, -, ht, rfl⟩ := govExecute_ok h
  obtain ⟨v, hv, hcell⟩ := applyProposal_cell hconfig (hs.value_le id p hp) ht
  -- The status and the event that are written last lie in no parameter cell.
  have hsame : ∀ k, State.cell (State.publish { t with gov := { t.gov with
      proposal := t.gov.proposal.set id { p with status := .executed } } }
        (.govProposalExecuted id p.parameter p.newValue)) k = t.cell k := by
    intro k
    cases k <;> rfl
  refine ⟨p, v, hp, hv, ?_, fun k hk => ?_⟩
  · rw [hsame, hcell, if_pos rfl]
  · rw [hsame, hcell, if_neg hk]

/-- A vote that a step adds belongs to an active proposal and is counted. -/
theorem BallotStep.new_voter {c : Call} {g g' : Gov} (h : BallotStep c g g') {id : Nat}
    {v : Address} (hv : v ∈ voters g' id) (hnew : v ∉ voters g id) :
    ∃ p p', g.proposal.get id = some p ∧ p.status = .active ∧ g'.proposal.get id = some p' ∧
      p'.votesFor + p'.votesAgainst = p.votesFor + p.votesAgainst + 1 := by
  cases h with
  | quiet _ _ hvote _ =>
    rw [voters, hvote] at hv
    exact absurd hv hnew
  | propose _ p _ _ _ _ _ hvote _ =>
    rw [voters, hvote] at hv
    exact absurd hv hnew
  | vote _ i voter p q hstored hactive _ htally _ hprop hvote _ =>
    obtain ⟨rfl, -⟩ := ((mem_voters_set hvote).mp hv).resolve_right hnew
    exact ⟨p, q, hstored, hactive, by rw [hprop, Store.get_set_self], htally⟩
  | close i p status _ _ _ _ hvote _ =>
    rw [voters, hvote] at hv
    exact absurd hv hnew

/-- Along a run votes stay and proposals only move on. -/
theorem run_later {σ : Type} {host : Host σ} {w w' : World σ} {acts : List (Action σ)}
    (hw : BallotsSound w.store.gov) (hrun : Run (Step host) w acts w') (id : Nat) :
    voters w.store.gov id ⊆ voters w'.store.gov id ∧
      ∀ p, w.store.gov.proposal.get id = some p →
        ∃ p', w'.store.gov.proposal.get id = some p' ∧ p.Later p' := by
  have hinv := hrun.invariant (I := fun b => BallotsSound b.store.gov ∧
    voters w.store.gov id ⊆ voters b.store.gov id ∧
      ∀ p, w.store.gov.proposal.get id = some p →
        ∃ p', b.store.gov.proposal.get id = some p' ∧ p.Later p') ?_
    ⟨hw, subset_rfl, fun p hp => ⟨p, hp, .refl p⟩⟩
  · exact hinv.2
  · rintro a l b ⟨hsound, hsub, hlater⟩ hl
    cases hl with
    | others h => exact ⟨hsound, hsub, hlater⟩
    | call he =>
      have hstep := exec_ballotStep he
      refine ⟨hsound.step hstep, hsub.trans (hstep.voters_subset id), fun p hp => ?_⟩
      obtain ⟨q, hq, hpq⟩ := hlater p hp
      obtain ⟨r, hr, hqr⟩ := hstep.later hsound hq
      exact ⟨r, hr, hpq.trans hqr⟩

/-- The whole life of proposal `id` in a run: its tally is the number of its
voters; it is executed at most once; whatever happens later, its votes stay, it
keeps its parameter and its value, and its status moves at most once, from active
to executed or vetoed; a vote is only ever added while it is active, and adds one
to the tally; and executing it sets the one cell it names to the value it
proposes. -/
theorem governance_lifecycle {σ : Type} {host : Host σ} {w₀ w : World σ}
    {acts : List (Action σ)} (hstart : Started w₀) (hrun : Run (Step host) w₀ acts w) (id : Nat) :
    (∀ p, w.store.gov.proposal.get id = some p →
      p.votesFor + p.votesAgainst = (voters w.store.gov id).ncard) ∧
    acts.countP (executes id) ≤ 1 ∧
    (∀ acts' w', Run (Step host) w acts' w' →
      voters w.store.gov id ⊆ voters w'.store.gov id ∧
      ∀ p, w.store.gov.proposal.get id = some p →
        ∃ p', w'.store.gov.proposal.get id = some p' ∧ p'.parameter = p.parameter ∧
          p'.newValue = p.newValue ∧ p'.newAddress = p.newAddress ∧
          (p'.status = p.status ∨
            (p.status = .active ∧ (p'.status = .executed ∨ p'.status = .vetoed)))) ∧
    (∀ env c w', exec host env w c = .ok w' →
      ∀ v ∈ voters w'.store.gov id, v ∉ voters w.store.gov id →
        ∃ p p', w.store.gov.proposal.get id = some p ∧ p.status = .active ∧
          w'.store.gov.proposal.get id = some p' ∧
          p'.votesFor + p'.votesAgainst = p.votesFor + p.votesAgainst + 1) ∧
    (∀ env s', govExecute env w.store id = .ok s' →
      ∃ p v, w.store.gov.proposal.get id = some p ∧ p.proposed = some v ∧
        s'.cell p.parameter.cell = some v ∧
        ∀ k, k ≠ p.parameter.cell → s'.cell k = w.store.cell k) := by
  have hreach : Reachable host w := ⟨w₀, acts, hstart, hrun⟩
  have hsound : BallotsSound w.store.gov := .of_reachable hreach
  refine ⟨fun p hp => hsound.tally id p hp, ?_, ?_, ?_, ?_⟩
  · rcases executes_count hstart hrun id with h | ⟨h, -⟩
    · omega
    · omega
  · intro acts' w' hrun'
    obtain ⟨hsub, hlater⟩ := run_later hsound hrun' id
    refine ⟨hsub, fun p hp => ?_⟩
    obtain ⟨p', hp', hl⟩ := hlater p hp
    exact ⟨p', hp', by rw [hl.fixed], by rw [hl.fixed], by rw [hl.fixed], hl.status⟩
  · intro env c w' he v hv hnew
    exact (exec_ballotStep he).new_voter hv hnew
  · intro env s' hexec
    exact govExecute_cell hsound hexec

theorem governance_lifecycle_of_fee_proposal :
    ∃ (w₀ w : World Book) (acts : List (Action Book)), Started w₀ ∧
      Run (Step (bookHost linkora)) w₀ acts w ∧ w.store.params.feeBps = some 300 ∧
      acts.countP (executes 1) ≤ 1 ∧
      ∀ p, w.store.gov.proposal.get 1 = some p →
        p.votesFor + p.votesAgainst = (voters w.store.gov 1).ncard := by
  have hdemo : (demo (fun _ _ _ => True) (fun _ _ => 0)
      [(signedAt 2, .govInitConfig alice 60 10 20 0 30),
        (signedAt 5, .govPropose carol .feeBps 300 none none),
        (signedAt 6, .govVote carol 1 true), (signedAt 35, .govExecute 1)]).map
        (fun w => w.store.params.feeBps) = some (some 300) := by decide
  obtain ⟨w₀, w, hstart, hfee, hrun⟩ := run_demo hdemo
  obtain ⟨htally, honce, -⟩ := governance_lifecycle hstart hrun.of_guarded 1
  exact ⟨w₀, w, _, hstart, hrun.of_guarded, hfee, honce, htally⟩

end Contract
end Linkora
