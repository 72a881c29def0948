import Linkora.Indexer.Projection

/-!
# Projecting governance events again

A vote adds to a counter of its proposal, guarded by the row that it leaves behind.  A second
pass finds these rows, so that it changes no counter; what else it writes is what the first pass
wrote last.
-/

namespace Linkora
namespace Indexer

open Linkora.Replay

namespace Db

/-- The columns of a proposal that events overwrite. -/
structure Standing where
  proposer : String
  parameter : String
  newValue : Int
  status : ProposalStatus
  updatedLedger : Nat

def standing (row : ProposalRow) : Standing :=
  ⟨row.proposer, row.parameter, row.newValue, row.status, row.updatedLedger⟩

/-- The columns of a proposal that are kept once it is there: votes for, votes against and the
ledger it was created in. -/
def tally (row : ProposalRow) : Nat × Nat × Nat :=
  (row.votesFor, row.votesAgainst, row.createdLedger)

theorem proposalRow_ext {row row' : ProposalRow} (hs : standing row = standing row')
    (ht : tally row = tally row') : row = row' := by
  cases row with
  | mk p a v f g st c u =>
    cases row' with
    | mk p' a' v' f' g' st' c' u' =>
      simp only [standing, Standing.mk.injEq] at hs
      simp only [tally, Prod.mk.injEq] at ht
      simp only [ProposalRow.mk.injEq]
      tauto

/-- The standing of a proposal after an event. -/
def standingCell (k : Nat) (c : Option Standing) (e : IngestEvent) : Option Standing :=
  match e.body with
  | .govProposalCreated proposalId proposer parameter newValue =>
    if k = proposalId then some ⟨proposer, parameter, newValue, .active, e.ledgerSequence⟩ else c
  | .govVote proposalId _ _ =>
    if k = proposalId then c.map fun s => { s with updatedLedger := e.ledgerSequence } else c
  | .govProposalExecuted proposalId =>
    if k = proposalId then
      c.map fun s => { s with status := .executed, updatedLedger := e.ledgerSequence }
    else
      c
  | .govProposalVetoed proposalId =>
    if k = proposalId then
      c.map fun s => { s with status := .vetoed, updatedLedger := e.ledgerSequence }
    else
      c
  | _ => c

/-- An event writes the whole standing, or the status and the ledger, or the ledger. -/
theorem standingCell_cases (k : Nat) (e : IngestEvent) :
    (∀ c, standingCell k c e = c) ∨
    (∃ s, ∀ c, standingCell k c e = some s) ∨
    (∃ status ledger, ∀ c, standingCell k c e =
      c.map fun s => { s with status := status, updatedLedger := ledger }) ∨
    ∃ ledger, ∀ c, standingCell k c e = c.map fun s => { s with updatedLedger := ledger } := by
  obtain ⟨ledger, tx, body⟩ := e
  cases body with
  | govProposalCreated proposalId proposer parameter newValue =>
    by_cases h : k = proposalId
    · exact Or.inr (Or.inl ⟨_, fun c => if_pos h⟩)
    · exact Or.inl fun c => if_neg h
  | govVote proposalId voter support =>
    by_cases h : k = proposalId
    · exact Or.inr (Or.inr (Or.inr ⟨ledger, fun c => if_pos h⟩))
    · exact Or.inl fun c => if_neg h
  | govProposalExecuted proposalId =>
    by_cases h : k = proposalId
    · exact Or.inr (Or.inr (Or.inl ⟨.executed, ledger, fun c => if_pos h⟩))
    · exact Or.inl fun c => if_neg h
  | govProposalVetoed proposalId =>
    by_cases h : k = proposalId
    · exact Or.inr (Or.inr (Or.inl ⟨.vetoed, ledger, fun c => if_pos h⟩))
    · exact Or.inl fun c => if_neg h
  | _ => exact Or.inl fun c => rfl

/-- An event overwrites at its repetition whatever another event wrote in between. -/
theorem standingCell_absorb (k : Nat) (c : Option Standing) (a b : IngestEvent) :
    standingCell k (standingCell k (standingCell k c a) b) a =
      standingCell k (standingCell k c b) a := by
  rcases standingCell_cases k a with ha | ⟨s, ha⟩ | ⟨status, ledger, ha⟩ | ⟨ledger, ha⟩
  · simp only [ha]
  · simp only [ha]
  · rcases standingCell_cases k b with hb | ⟨s', hb⟩ | ⟨status', ledger', hb⟩ | ⟨ledger', hb⟩ <;>
      cases c <;> simp only [ha, hb, Option.map_some, Option.map_none]
  · rcases standingCell_cases k b with hb | ⟨s', hb⟩ | ⟨status', ledger', hb⟩ | ⟨ledger', hb⟩ <;>
      cases c <;> simp only [ha, hb, Option.map_some, Option.map_none]

theorem standingCell_idem (k : Nat) (t : List IngestEvent) (c : Option Standing) :
    t.foldl (standingCell k) (t.foldl (standingCell k) c) = t.foldl (standingCell k) c := by
  apply foldl_idem_of_absorb (Q := fun _ => True)
  · intro c a _
    rcases standingCell_cases k a with ha | ⟨s, ha⟩ | ⟨status, ledger, ha⟩ | ⟨ledger, ha⟩ <;>
      cases c <;> simp only [ha, Option.map_some, Option.map_none]
  · exact fun c a b _ _ => standingCell_absorb k c a b
  · exact fun _ _ => trivial

theorem standing_writeGovernance (g : GovernanceTables) (k : Nat) (e : IngestEvent) :
    ((writeGovernance g e).proposals.lookup k).map standing =
      standingCell k ((g.proposals.lookup k).map standing) e := by
  obtain ⟨ledger, tx, body⟩ := e
  have hupdate : ∀ (proposalId : Nat) (f : ProposalRow → ProposalRow) (f' : Standing → Standing),
      (∀ row, standing (f row) = f' (standing row)) →
      ((Table.update g.proposals proposalId f).lookup k).map standing =
        if k = proposalId then ((g.proposals.lookup k).map standing).map f'
        else (g.proposals.lookup k).map standing := by
    intro proposalId f f' hf
    rw [Table.lookup_update]
    by_cases h : k = proposalId
    · rw [if_pos h, if_pos h, h]
      cases g.proposals.lookup proposalId with
      | none => rfl
      | some row => exact congrArg some (hf row)
    · rw [if_neg h, if_neg h]
  cases body with
  | govProposalCreated proposalId proposer parameter newValue =>
    show ((Finmap.insert proposalId _ g.proposals).lookup k).map standing =
      if k = proposalId then some _ else (g.proposals.lookup k).map standing
    rw [Table.lookup_insert]
    by_cases h : k = proposalId
    · rw [if_pos h, if_pos h]
      cases g.proposals.lookup proposalId with
      | none => rfl
      | some row => rfl
    · rw [if_neg h, if_neg h]
  | govVote proposalId voter support => exact hupdate proposalId _ _ fun _ => rfl
  | govProposalExecuted proposalId => exact hupdate proposalId _ _ fun _ => rfl
  | govProposalVetoed proposalId => exact hupdate proposalId _ _ fun _ => rfl
  | _ => rfl

theorem standing_foldl (g : GovernanceTables) (k : Nat) (t : List IngestEvent) :
    ((t.foldl writeGovernance g).proposals.lookup k).map standing =
      t.foldl (standingCell k) ((g.proposals.lookup k).map standing) :=
  (List.foldl_hom (fun g : GovernanceTables => (g.proposals.lookup k).map standing)
    fun g e => (standing_writeGovernance g k e).symm).symm

/-- The rows that an event leaves behind. -/
def Recorded (g : GovernanceTables) (e : IngestEvent) : Prop :=
  match e.body with
  | .govProposalCreated proposalId _ _ _ => proposalId ∈ g.proposals
  | .govVote proposalId voter _ => (proposalId, voter) ∈ g.votes
  | _ => True

theorem mem_proposals_writeGovernance {g : GovernanceTables} {k : Nat} (h : k ∈ g.proposals)
    (e : IngestEvent) : k ∈ (writeGovernance g e).proposals := by
  obtain ⟨ledger, tx, body⟩ := e
  cases body with
  | govProposalCreated proposalId proposer parameter newValue =>
    exact Finmap.mem_insert.mpr (Or.inr h)
  | govVote proposalId voter support => exact Table.mem_update.mpr h
  | govProposalExecuted proposalId => exact Table.mem_update.mpr h
  | govProposalVetoed proposalId => exact Table.mem_update.mpr h
  | _ => exact h

theorem mem_votes_writeGovernance {g : GovernanceTables} {k : Nat × String} (h : k ∈ g.votes)
    (e : IngestEvent) : k ∈ (writeGovernance g e).votes := by
  obtain ⟨ledger, tx, body⟩ := e
  cases body with
  | govVote proposalId voter support => exact Table.mem_insertNew.mpr (Or.inr h)
  | _ => exact h

theorem recorded_writeGovernance {g : GovernanceTables} {e : IngestEvent} (h : Recorded g e)
    (e' : IngestEvent) : Recorded (writeGovernance g e') e := by
  obtain ⟨ledger, tx, body⟩ := e
  cases body with
  | govProposalCreated proposalId proposer parameter newValue =>
    exact mem_proposals_writeGovernance h e'
  | govVote proposalId voter support => exact mem_votes_writeGovernance h e'
  | _ => trivial

theorem recorded_self (g : GovernanceTables) (e : IngestEvent) :
    Recorded (writeGovernance g e) e := by
  obtain ⟨ledger, tx, body⟩ := e
  cases body with
  | govProposalCreated proposalId proposer parameter newValue =>
    exact Finmap.mem_insert.mpr (Or.inl rfl)
  | govVote proposalId voter support => exact Table.mem_insertNew.mpr (Or.inl rfl)
  | _ => trivial

/-- Once recorded, an event changes no vote and no tally. -/
theorem tally_of_recorded {g : GovernanceTables} {e : IngestEvent} (h : Recorded g e) :
    (writeGovernance g e).votes = g.votes ∧
      ∀ k, ((writeGovernance g e).proposals.lookup k).map tally =
        (g.proposals.lookup k).map tally := by
  obtain ⟨ledger, tx, body⟩ := e
  have hupdate : ∀ (proposalId : Nat) (f : ProposalRow → ProposalRow),
      (∀ row, tally (f row) = tally row) → ∀ k,
        ((Table.update g.proposals proposalId f).lookup k).map tally =
          (g.proposals.lookup k).map tally := by
    intro proposalId f hf k
    rw [Table.lookup_update]
    by_cases hk : k = proposalId
    · rw [if_pos hk, hk]
      cases g.proposals.lookup proposalId with
      | none => rfl
      | some row => exact congrArg some (hf row)
    · rw [if_neg hk]
  cases body with
  | govProposalCreated proposalId proposer parameter newValue =>
    refine ⟨rfl, fun k => ?_⟩
    obtain ⟨row, hrow⟩ := Finmap.mem_iff.mp (show proposalId ∈ g.proposals from h)
    show ((Finmap.insert proposalId _ g.proposals).lookup k).map tally = _
    rw [Table.lookup_insert]
    by_cases hk : k = proposalId
    · rw [if_pos hk, hk, hrow]
      rfl
    · rw [if_neg hk]
  | govVote proposalId voter support =>
    have hvote : (proposalId, voter) ∈ g.votes := h
    refine ⟨if_pos hvote, hupdate proposalId _ fun row => ?_⟩
    simp only [tally, if_pos hvote, ite_self, Nat.add_zero]
  | govProposalExecuted proposalId => exact ⟨rfl, hupdate proposalId _ fun _ => rfl⟩
  | govProposalVetoed proposalId => exact ⟨rfl, hupdate proposalId _ fun _ => rfl⟩
  | _ => exact ⟨rfl, fun k => rfl⟩

theorem governance_idem (t : List IngestEvent) (g : GovernanceTables) :
    t.foldl writeGovernance (t.foldl writeGovernance g) = t.foldl writeGovernance g := by
  have hrecorded : ∀ e ∈ t, Recorded (t.foldl writeGovernance g) e := fun e he =>
    foldl_of_mem (P := (Recorded · e)) (fun g e' h => recorded_writeGovernance h e') he
      (fun g => recorded_self g e) g
  have hstanding : ∀ k,
      ((t.foldl writeGovernance (t.foldl writeGovernance g)).proposals.lookup k).map standing =
        ((t.foldl writeGovernance g).proposals.lookup k).map standing := by
    intro k
    simp only [standing_foldl, standingCell_idem]
  -- The second pass keeps the records that the first pass made.
  obtain ⟨hvotes, htally, -⟩ := foldl_invariant (f := writeGovernance) (t := t)
    (P := fun g' => g'.votes = (t.foldl writeGovernance g).votes ∧
      (∀ k, (g'.proposals.lookup k).map tally =
        ((t.foldl writeGovernance g).proposals.lookup k).map tally) ∧
      ∀ e ∈ t, Recorded g' e)
    (by
      intro g' e he h
      have hkeep := tally_of_recorded (h.2.2 e he)
      exact ⟨hkeep.1.trans h.1, fun k => (hkeep.2 k).trans (h.2.1 k),
        fun e' he' => recorded_writeGovernance (h.2.2 e' he') e⟩)
    ⟨rfl, fun k => rfl, hrecorded⟩
  generalize hsecond : t.foldl writeGovernance (t.foldl writeGovernance g) = second at *
  generalize hfirst : t.foldl writeGovernance g = first at *
  cases second with
  | mk proposals votes =>
    cases first with
    | mk proposals' votes' =>
      have hproposals : proposals = proposals' := by
        apply Finmap.ext_lookup
        intro k
        have hs := hstanding k
        have ht := htally k
        simp only at hs ht
        cases hrow : proposals.lookup k with
        | none =>
          rw [hrow] at hs
          exact (Option.map_eq_none_iff.mp hs.symm).symm
        | some row =>
          rw [hrow] at hs ht
          obtain ⟨row', hrow', hs'⟩ := Option.map_eq_some_iff.mp hs.symm
          rw [hrow'] at ht ⊢
          rw [proposalRow_ext hs'.symm (Option.some.inj ht)]
      rw [hproposals, show votes = votes' from hvotes]

end Db

end Indexer
end Linkora
