import Linkora.Sdk.QueueRestart

/-!
# Steps are sent in order, and not again

A step is passed to `sendTransaction` only after the steps enqueued before it are confirmed, and
not after it is confirmed itself, as long as no call of `run` begins with a step that is confirmed
on the chain, and no step is given up that others are waiting for.
-/

namespace Linkora
namespace Sdk

/-! ## What the effects of a move tell -/

/-- A step is sent when those before it are confirmed and it is not confirmed on the chain. -/
def Ordered (log : List Effect) : Prop :=
  ∀ pre id post, log = pre ++ Effect.send id :: post →
    (∀ j < id, Confirmed pre j) ∧ ¬ConfirmedOnChain pre id

theorem tells_of_append {log effects : List Effect} {id : Nat} {p : TxStatusEvent → Bool}
    (h : tells (log ++ effects) id p = true) : tells log id p = true ∨
      ∃ event, Effect.emit event ∈ effects ∧ event.id = id ∧ p event = true := by
  rw [tells_append, Bool.or_eq_true] at h
  refine h.imp_right fun hnew => ?_
  obtain ⟨f, hf, htold⟩ := List.any_eq_true.mp hnew
  cases f with
  | emit event =>
    rw [Bool.and_eq_true, beq_iff_eq] at htold
    exact ⟨event, hf, htold⟩
  | _ => cases htold

/-- Nothing in the effects reports a confirmation on the chain. -/
def OffChain (effects : List Effect) : Prop :=
  ∀ event, Effect.emit event ∈ effects → event.status = .confirmed → event.dryRun = true

theorem OffChain.of_append {log effects : List Effect} (h : OffChain effects) {id : Nat}
    (hchain : ConfirmedOnChain (log ++ effects) id) : ConfirmedOnChain log id := by
  rcases tells_of_append hchain with hold | ⟨event, hmem, _, hnew⟩
  · exact hold
  · rw [Bool.and_eq_true, beq_iff_eq, Bool.not_eq_true'] at hnew
    rw [h event hmem hnew.1] at hnew
    cases hnew.2

theorem OffChain.of_plain {effects : List Effect} (h : ∀ f ∈ effects, f.plain = true) :
    OffChain effects := by
  intro event hmem hstatus
  have hplain := h _ hmem
  rw [Effect.plain, hstatus] at hplain
  cases hplain

theorem OffChain.append {effects rest : List Effect} (h : OffChain effects)
    (hrest : OffChain rest) : OffChain (effects ++ rest) := by
  intro event hmem
  rcases List.mem_append.mp hmem with hmem | hmem
  · exact h event hmem
  · exact hrest event hmem

theorem OffChain.take {effects : List Effect} (h : OffChain effects) (k : Nat) :
    OffChain (effects.take k) := fun event hmem => h event (List.mem_of_mem_take hmem)

theorem Ordered.nil : Ordered [] := by
  intro pre id post hlog
  cases pre <;> cases hlog

theorem Ordered.of_append {log log' : List Effect} (h : Ordered (log ++ log')) : Ordered log := by
  intro pre id post hlog
  refine h pre id (post ++ log') ?_
  rw [hlog, List.append_assoc]
  rfl

/-- What is sent next is due. -/
theorem Ordered.append {log effects : List Effect} (h : Ordered log)
    (heffects : ∀ id, Effect.send id ∈ effects →
      (∀ j < id, Confirmed log j) ∧ ¬ConfirmedOnChain log id ∧ OffChain effects) :
    Ordered (log ++ effects) := by
  intro pre id post hlog
  rcases List.append_eq_append_iff.mp hlog with ⟨mid, rfl, hmid⟩ | ⟨mid, rfl, hpost⟩
  · have hsend : Effect.send id ∈ effects := by
      rw [hmid]
      exact List.mem_append_right mid List.mem_cons_self
    obtain ⟨hearlier, hnot, hoff⟩ := heffects id hsend
    refine ⟨fun j hj => (hearlier j hj).mono mid, ?_⟩
    have hoff' : OffChain mid := by
      intro event hmem
      refine hoff event ?_
      rw [hmid]
      exact List.mem_append_left _ hmem
    exact fun hchain => hnot (hoff'.of_append hchain)
  · cases mid with
    | nil =>
      rw [List.nil_append] at hpost
      have hsend : Effect.send id ∈ effects := by
        rw [← hpost]
        exact List.mem_cons_self
      obtain ⟨hearlier, hnot, _⟩ := heffects id hsend
      simp only [List.append_nil] at hearlier hnot
      exact ⟨hearlier, hnot⟩
    | cons f rest =>
      obtain ⟨rfl, _⟩ := List.cons.inj hpost
      exact h pre id rest rfl

theorem Ordered.silent {log effects : List Effect} (h : Ordered log)
    (hnone : ∀ id, Effect.send id ∉ effects) : Ordered (log ++ effects) :=
  h.append fun id hsend => absurd hsend (hnone id)

theorem send_not_plain {effects : List Effect} (h : ∀ f ∈ effects, f.plain = true) (id : Nat) :
    Effect.send id ∉ effects := by
  intro hmem
  cases h _ hmem

/-! ## What is waiting -/

/-- Every step before this one is confirmed, or held. -/
def Preceded (log : List Effect) (rows : Rows) (id : Nat) : Prop :=
  ∀ j < id, Confirmed log j ∨ Held rows j

theorem Preceded.mono {log : List Effect} {rows rows' : Rows} {id : Nat}
    (h : Preceded log rows id) (log' : List Effect)
    (hrows : ∀ j, Held rows j → Held rows' j ∨ Confirmed (log ++ log') j) :
    Preceded (log ++ log') rows' id := by
  intro j hj
  rcases h j hj with hconfirmed | hheld
  · exact Or.inl (hconfirmed.mono log')
  · exact (hrows j hheld).symm

/-- What may be executed is not confirmed on the chain, and no step before it is missing. -/
def Waiting (log : List Effect) (rows : Rows) : Prop :=
  ∀ row, some row ∈ rows → row.unfinished = true →
    ¬ConfirmedOnChain log row.id ∧ Preceded log rows row.id

theorem Waiting.nil (log : List Effect) : Waiting log [] := fun _ h => by cases h

theorem Waiting.mono {log : List Effect} {rows : Rows} (h : Waiting log rows)
    {effects : List Effect} (hoff : OffChain effects) : Waiting (log ++ effects) rows := by
  intro row hrow hunfinished
  obtain ⟨hnot, hpreceded⟩ := h row hrow hunfinished
  exact ⟨fun hchain => hnot (hoff.of_append hchain),
    hpreceded.mono effects fun j hheld => Or.inl hheld⟩

theorem sorted_lt {ids : List Nat} (h : ids.Pairwise (· < ·)) {i j a b : Nat}
    (hi : ids[i]? = some a) (hj : ids[j]? = some b) (hlt : i < j) : a < b := by
  obtain ⟨hi', rfl⟩ := List.getElem?_eq_some_iff.mp hi
  obtain ⟨hj', rfl⟩ := List.getElem?_eq_some_iff.mp hj
  exact List.pairwise_iff_getElem.mp h i j hi' hj' hlt

theorem sorted_inj {ids : List Nat} (h : ids.Pairwise (· < ·)) {i j a : Nat}
    (hi : ids[i]? = some a) (hj : ids[j]? = some a) : i = j := by
  rcases Nat.lt_trichotomy i j with hlt | heq | hlt
  · exact absurd (sorted_lt h hi hj hlt) (Nat.lt_irrefl a)
  · exact heq
  · exact absurd (sorted_lt h hj hi hlt) (Nat.lt_irrefl a)

/-- The rows that a turn may have written are those of its step. -/
theorem perform_rows {cfg : QueueConfig} {e : Execution} {rows : Rows} (notes : List Note)
    {row : PersistedQueueStep} (hlt : e.index < rows.length)
    (h : some row ∈ (perform cfg e rows notes).1) : some row ∈ rows ∨ row.id = e.step.id := by
  induction notes generalizing rows with
  | nil => exact Or.inl h
  | cons note rest ih =>
    cases note with
    | emit | send => exact ih hlt h
    | mark status hash =>
      have hlength : e.index < (markPersisted rows e status hash).length := by
        rw [markPersisted, writeRow, if_pos hlt, List.length_set]
        exact hlt
      rcases ih hlength h with hmem | hid
      · rw [markPersisted, writeRow, if_pos hlt] at hmem
        rcases List.mem_or_eq_of_mem_set hmem with hmem | heq
        · exact Or.inl hmem
        · rw [Option.some.inj heq]
          exact Or.inr rfl
      · exact Or.inr hid

/-! ## The order is kept -/

/-- `resume` is going from row to row. -/
def Call.refilling : Call → Bool
  | .reconciling _ _ _ _ | .polling _ _ _ _ _ => true
  | _ => false

/-- What is due of the steps in memory. -/
structure Lined (log : List Effect) (steps : List QueueStep) (stepStates : Rows) : Prop where
  preceded : ∀ step ∈ steps, Preceded log stepStates step.id
  waiting : Waiting log stepStates

/-- What holds between two moves. -/
structure Sequenced (cfg : QueueConfig) (q : TransactionQueue) (log : List Effect)
    (disk : Option Rows) : Prop where
  kept : Kept cfg q log disk
  ordered : Ordered log
  known : ∀ id, ConfirmedOnChain log id → id < q.nextId
  memory : q.call.refilling = false → Lined log q.steps q.stepStates
  state : Waiting log q.rows
  active : ∀ (x : Nat) e, q.executions[x]? = some e → e.run = q.calls →
    e.work.active = true → ¬ConfirmedOnChain log e.step.id
  later : ∀ i resuming opts, q.call = .stepping i resuming opts → ∀ j, i < j → ∀ step,
    q.steps[j]? = some step → ¬ConfirmedOnChain log step.id

theorem Lined.mono {log : List Effect} {steps : List QueueStep} {stepStates : Rows}
    (h : Lined log steps stepStates) {effects : List Effect} (hoff : OffChain effects) :
    Lined (log ++ effects) steps stepStates :=
  ⟨fun step hstep => (h.preceded step hstep).mono effects fun _ hheld => Or.inl hheld,
    h.waiting.mono hoff⟩

section Loop

variable {cfg : QueueConfig} {q : TransactionQueue} {log : List Effect} {disk : Option Rows}
  {i : Nat}

/-- What the loop over the steps begins with. -/
structure InLine (cfg : QueueConfig) (q : TransactionQueue) (log : List Effect)
    (disk : Option Rows) (i : Nat) : Prop where
  poised : Poised cfg q log disk i
  ordered : Ordered log
  known : ∀ id, ConfirmedOnChain log id → id < q.nextId
  memory : Lined log q.steps q.stepStates
  fresh : ∀ j, i ≤ j → ∀ step, q.steps[j]? = some step → ¬ConfirmedOnChain log step.id

theorem loop_off_chain (cfg : QueueConfig) (q : TransactionQueue) (i : Nat) (resuming : Bool)
    (opts : RunOptions) : OffChain (q.loop cfg i resuming opts).2 ∧
      ∀ id, Effect.send id ∉ (q.loop cfg i resuming opts).2 := by
  cases hstep : q.steps[i]? with
  | some step =>
    rw [loop_some hstep]
    exact ⟨OffChain.of_plain (begin_plain opts), send_not_plain (begin_plain opts)⟩
  | none =>
    rw [loop_none hstep]
    refine ⟨?_, ?_⟩
    · intro event hmem
      rcases List.mem_append.mp hmem with hmem | hmem <;> split at hmem <;> simp at hmem
    · intro id hmem
      rcases List.mem_append.mp hmem with hmem | hmem <;> split at hmem <;> simp at hmem

theorem InLine.loop (h : InLine cfg q log disk i) (resuming : Bool) (opts : RunOptions) :
    Sequenced cfg (q.loop cfg i resuming opts).1 (log ++ (q.loop cfg i resuming opts).2)
      ((q.loop cfg i resuming opts).2.foldl Effect.store disk) := by
  obtain ⟨hoff, hsilent⟩ := loop_off_chain cfg q i resuming opts
  have hkept := h.poised.loop resuming opts
  have hordered := h.ordered.silent hsilent
  have hmemory := h.memory.mono hoff
  cases hstep : q.steps[i]? with
  | some step =>
    rw [loop_some hstep] at hkept hordered hmemory hoff ⊢
    refine ⟨hkept, hordered, fun id hchain => h.known id (hoff.of_append hchain),
      fun _ => hmemory, hmemory.waiting, ?_, ?_⟩
    · intro x e hx hrun hactive hchain
      rcases getElem?_snoc hx with hx | ⟨_, rfl⟩
      · rw [(h.poised.ended x e hx hrun).1] at hactive
        cases hactive
      · rw [(runStep_spec cfg q i step opts).1.step] at hchain
        exact h.fresh i (Nat.le_refl i) step hstep (hoff.of_append hchain)
    · intro j resuming' opts' hcall k hk step' hstep' hchain
      obtain ⟨rfl, _⟩ := Call.stepping.inj hcall
      exact h.fresh k (Nat.le_of_lt hk) step' hstep' (hoff.of_append hchain)
  | none =>
    rw [loop_none hstep] at hkept hordered hoff ⊢
    refine ⟨hkept, hordered, fun id hchain => h.known id (hoff.of_append hchain),
      fun _ => ⟨List.forall_mem_nil _, Waiting.nil _⟩, Waiting.nil _, ?_, fun _ _ _ h => by cases h⟩
    intro x e hx hrun hactive
    rw [(h.poised.ended x e hx hrun).1] at hactive
    cases hactive

end Loop

/-! ## What `resume` gives up -/

section Leave

variable {log effects : List Effect} {n : Nat} {ids : List Nat} {pre post : Rows}
  {row r : PersistedQueueStep}

theorem Told.before (h : Told log n ids (pre ++ some row :: post)) (hr : some r ∈ pre) :
    r.id < row.id := by
  obtain ⟨before, after, rfl, hpre, _⟩ := Told.rows_split h.whole
  have hid : some r.id ∈ rowIds pre := List.mem_map.mpr ⟨some r, hr, rfl⟩
  rw [hpre] at hid
  obtain ⟨id, hmem, heq⟩ := List.mem_map.mp hid
  rw [← Option.some.inj heq]
  exact (List.pairwise_append.mp h.sorted).2.2 id hmem row.id List.mem_cons_self

theorem Told.after (h : Told log n ids (pre ++ some row :: post)) (hr : some r ∈ post) :
    row.id < r.id := by
  obtain ⟨before, after, rfl, _, hpost⟩ := Told.rows_split h.whole
  have hid : some r.id ∈ rowIds post := List.mem_map.mpr ⟨some r, hr, rfl⟩
  rw [hpost] at hid
  obtain ⟨id, hmem, heq⟩ := List.mem_map.mp hid
  rw [← Option.some.inj heq]
  exact (List.pairwise_cons.mp (List.pairwise_append.mp h.sorted).2.1).1 id hmem

/-- A step is given up that is confirmed, or that nothing after it waits for. -/
theorem Waiting.leave (h : Waiting log (pre ++ some row :: post))
    (htold : Told log n ids (pre ++ some row :: post))
    (hchain : ∀ j, ConfirmedOnChain (log ++ effects) j → ConfirmedOnChain log j ∨ j = row.id)
    (hgone : Confirmed (log ++ effects) row.id ∨
      ∀ r', some r' ∈ post → r'.unfinished = false) :
    Waiting (log ++ effects) (pre ++ post) := by
  intro r hr hunfinished
  have hr' : some r ∈ pre ++ some row :: post := by
    rcases List.mem_append.mp hr with hmem | hmem
    · exact List.mem_append_left _ hmem
    · exact List.mem_append_right _ (List.mem_cons_of_mem _ hmem)
  have hne : r.id ≠ row.id := by
    rcases List.mem_append.mp hr with hmem | hmem
    · exact Nat.ne_of_lt (htold.before hmem)
    · exact Nat.ne_of_gt (htold.after hmem)
  obtain ⟨hnot, hpreceded⟩ := h r hr' hunfinished
  refine ⟨?_, ?_⟩
  · intro hnew
    rcases hchain r.id hnew with hold | heq
    · exact hnot hold
    · exact hne heq
  · intro j hj
    rcases hpreceded j hj with hconfirmed | hheld
    · exact Or.inl (hconfirmed.mono effects)
    · rcases hheld.of_cons with rfl | hheld
      · rcases hgone with hconfirmed | hnone
        · exact Or.inl hconfirmed
        · -- The step that waits is after the one that is given up.
          rcases List.mem_append.mp hr with hmem | hmem
          · exact absurd (Nat.lt_trans hj (htold.before hmem)) (Nat.lt_irrefl _)
          · rw [hnone r hmem] at hunfinished
            cases hunfinished
      · exact Or.inr hheld

/-- A row is made pending again. -/
theorem Waiting.again (h : Waiting log (pre ++ some row :: post)) (hrow : row.unfinished = true) :
    Waiting log (pre ++ TransactionQueue.pendingRow row.step :: post) := by
  have hids : rowIds (pre ++ TransactionQueue.pendingRow row.step :: post) =
      rowIds (pre ++ some row :: post) := by
    rw [rowIds, rowIds, List.map_append, List.map_append]
    rfl
  have hsame : ∀ r', some r' ∈ pre ++ some row :: post → r'.unfinished = true →
      ¬ConfirmedOnChain log r'.id ∧
        Preceded log (pre ++ TransactionQueue.pendingRow row.step :: post) r'.id := by
    intro r' hr' hunfinished
    obtain ⟨hnot, hpreceded⟩ := h r' hr' hunfinished
    refine ⟨hnot, fun j hj => (hpreceded j hj).imp_right fun hheld => ?_⟩
    rw [Held, hids]
    exact hheld
  intro r' hr' hunfinished
  rcases List.mem_append.mp hr' with hmem | hmem
  · exact hsame r' (List.mem_append_left _ hmem) hunfinished
  · rcases List.mem_cons.mp hmem with heq | hmem
    · rw [Option.some.inj heq]
      exact hsame row (List.mem_append_right _ List.mem_cons_self) hrow
    · exact hsame r' (List.mem_append_right _ (List.mem_cons_of_mem _ hmem)) hunfinished

end Leave

/-- A later row is to be queued again. -/
def Call.awaited : Call → Bool
  | .reconciling rows i _ _ | .polling rows i _ _ _ =>
    (rows.drop (i + 1)).any fun r => r.any PersistedQueueStep.unfinished
  | _ => false

/-- `resume` gives up a step that was submitted. -/
def Call.givesUp (cfg : QueueConfig) : Call → Action → Bool
  | .reconciling rows i _ _, .proceed => decide (cfg.maxPollAttempts = 0) &&
    rows[i]?.join.any fun row => decide (row.status = .submitted) && row.hash.isSome
  | .polling _ _ attempt _ _, .polled a => decide (a = .found false) ||
    (decide (a = .notFound) && decide (cfg.maxPollAttempts ≤ attempt + 1))
  | _, _ => false

theorem not_unfinished_of_awaited {rows : Rows} {i : Nat}
    (h : ((rows.drop (i + 1)).any fun r => r.any PersistedQueueStep.unfinished) = false)
    (r : PersistedQueueStep) (hr : some r ∈ rows.drop (i + 1)) : r.unfinished = false := by
  have hnot := List.any_eq_false.mp h (some r) hr
  exact Bool.eq_false_iff.mpr hnot

theorem Prepares.waiting {cfg : QueueConfig} {a : Action} {call call' : Call}
    {effects log : List Effect} {n : Nat} {ids : List Nat} {stepStates : Rows}
    (h : Prepares cfg a call effects call') (htold : Told log n ids (call.rows stepStates))
    (hmemory : call.refilling = false → Waiting log stepStates)
    (hwaiting : Waiting log (call.rows stepStates))
    (hcond : call.givesUp cfg a = true → call.awaited = false) :
    Waiting (log ++ effects) (call'.rows stepStates) := by
  cases h with
  | clears => exact hwaiting.mono (by simp [OffChain])
  | finds => exact (hmemory rfl).mono (by simp [OffChain])
  | begins | waits => exact hwaiting.mono (fun _ h => by cases h)
  | throws hrow =>
    rw [Call.rows, drop_of_getElem? hrow] at htold
    exact absurd (List.mem_append_right _ List.mem_cons_self) htold.none_not_mem
  | asks => exact hwaiting.mono (by simp [OffChain, PersistedQueueStep.event])
  | givesUp hrow hstatus hhash hmax =>
    have hnone := hcond (by simp [Call.givesUp, hmax, hrow, hstatus, hhash])
    rw [Call.rows, drop_of_getElem? hrow] at htold hwaiting
    refine hwaiting.leave htold ?_ (Or.inr (not_unfinished_of_awaited hnone))
    exact fun j hchain => Or.inl (OffChain.of_append (OffChain.of_plain
      (by simp [Effect.plain, PersistedQueueStep.event])) hchain)
  | recovers hrow hstatus hhash =>
    rw [Call.rows, drop_of_getElem? hrow] at htold hwaiting
    have hchain := htold.confirmed _ (List.mem_append_right _ List.mem_cons_self) hstatus
      (by rw [hhash]; rfl)
    rw [List.append_nil]
    refine (List.append_nil log) ▸ hwaiting.leave htold ?_ (Or.inl (hchain.confirmed.mono []))
    intro j hchain'
    rw [List.append_nil] at hchain'
    exact Or.inl hchain'
  | @requeues _ _ _ _ row hrow hunfinished =>
    rw [Call.rows, drop_of_getElem? hrow] at hwaiting
    rw [Call.rows, queue_again]
    exact (hwaiting.again hunfinished).mono
      (OffChain.of_plain (by simp [Effect.plain, PersistedQueueStep.event]))
  | succeeds hrow =>
    rw [Call.rows, drop_of_getElem? hrow] at htold hwaiting
    refine hwaiting.leave htold ?_ (Or.inl (tells_emit rfl rfl))
    intro j hchain
    rcases tells_of_append hchain with hold | ⟨event, hmem, hid, _⟩
    · exact Or.inl hold
    · cases List.mem_singleton.mp hmem
      exact Or.inr hid.symm
  | fails hrow hfails =>
    have hnone := hcond (by
      rcases hfails with rfl | ⟨rfl, hmax⟩
      · rfl
      · simp [Call.givesUp, hmax])
    rw [Call.rows, drop_of_getElem? hrow] at htold hwaiting
    refine hwaiting.leave htold ?_ (Or.inr (not_unfinished_of_awaited hnone))
    exact fun j hchain => Or.inl (OffChain.of_append (OffChain.of_plain
      (by simp [Effect.plain, PersistedQueueStep.event])) hchain)

/-! ## What a turn tells -/

section Turn

variable {cfg : QueueConfig} {e : Execution} {rows : Rows}

theorem event_of_perform {notes : List Note} {event : TxStatusEvent}
    (h : Effect.emit event ∈ (perform cfg e rows notes).2) : ∃ status hash dryRun,
      Note.emit status hash dryRun ∈ notes ∧ event = e.event status hash dryRun := by
  induction notes generalizing rows with
  | nil => cases h
  | cons note rest ih =>
    have hrest : ∀ {rows}, Effect.emit event ∈ (perform cfg e rows rest).2 →
        ∃ status hash dryRun, Note.emit status hash dryRun ∈ note :: rest ∧
          event = e.event status hash dryRun := by
      intro rows hmem
      obtain ⟨status, hash, dryRun, hnote, hevent⟩ := ih hmem
      exact ⟨status, hash, dryRun, List.mem_cons_of_mem note hnote, hevent⟩
    cases note with
    | emit status hash dryRun =>
      rcases List.mem_cons.mp h with heq | hmem
      · exact ⟨status, hash, dryRun, List.mem_cons_self, Effect.emit.inj heq⟩
      · exact hrest hmem
    | send =>
      rcases List.mem_cons.mp h with heq | hmem
      · cases heq
      · exact hrest hmem
    | mark status hash =>
      rcases List.mem_append.mp h with hmem | hmem
      · exact absurd rfl (persist_forall (P := (· ≠ .emit event)) nofun cfg _ _ hmem)
      · exact hrest hmem

theorem send_of_perform {notes : List Note} {id : Nat}
    (h : Effect.send id ∈ (perform cfg e rows notes).2) : .send ∈ notes ∧ id = e.step.id := by
  induction notes generalizing rows with
  | nil => cases h
  | cons note rest ih =>
    have hrest : ∀ {rows}, Effect.send id ∈ (perform cfg e rows rest).2 →
        .send ∈ note :: rest ∧ id = e.step.id := by
      intro rows hmem
      obtain ⟨hnote, hid⟩ := ih hmem
      exact ⟨List.mem_cons_of_mem note hnote, hid⟩
    cases note with
    | emit status hash dryRun =>
      rcases List.mem_cons.mp h with heq | hmem
      · cases heq
      · exact hrest hmem
    | send =>
      rcases List.mem_cons.mp h with heq | hmem
      · exact ⟨List.mem_cons_self, Effect.send.inj heq⟩
      · exact hrest hmem
    | mark status hash =>
      rcases List.mem_append.mp h with hmem | hmem
      · exact absurd rfl (persist_forall (P := (· ≠ .send id)) nofun cfg _ _ hmem)
      · exact hrest hmem

/-- A turn reports a confirmation on the chain only of a transaction that is polled, and then it
writes it down and is complete. -/
theorem Execution.Takes.offChain {turn : Turn} (h : e.Takes turn) :
    (∀ cfg rows, OffChain (perform cfg e rows turn.notes).2) ∨ ∃ hash attempt,
      e.work = .polling hash attempt ∧ turn =
        ⟨[.emit .confirmed (some hash) false, .mark .confirmed (some hash)], .complete⟩ := by
  have hoff : (∀ status hash dryRun, Note.emit status hash dryRun ∈ turn.notes →
      status = .confirmed → dryRun = true) →
        ∀ cfg rows, OffChain (perform cfg e rows turn.notes).2 := by
    intro hnotes cfg rows event hmem hstatus
    obtain ⟨status, hash, dryRun, hnote, rfl⟩ := event_of_perform hmem
    exact hnotes status hash dryRun hnote hstatus
  cases h with
  | confirmed hwork => exact Or.inr ⟨_, _, hwork, rfl⟩
  | _ =>
    refine Or.inl (hoff ?_)
    grind [Turn.silent, Turn.failed]

/-- A turn that sends reports no confirmation. -/
theorem Execution.Takes.sends_only {turn : Turn} (h : e.Takes turn) (hsend : .send ∈ turn.notes) :
    ∀ cfg rows, OffChain (perform cfg e rows turn.notes).2 := by
  rcases h.offChain with hoff | ⟨hash, _, _, rfl⟩
  · exact hoff
  · simp at hsend

end Turn

/-! ## What `resume` tells -/

section Prepares

variable {cfg : QueueConfig} {a : Action} {call call' : Call} {effects log : List Effect} {n : Nat}
  {ids : List Nat} {stepStates : Rows}

theorem Prepares.asked (h : Prepares cfg a call effects call') :
    a = .proceed ∨ ∃ answer, a = .polled answer := by
  cases h with
  | waits | succeeds | fails => exact Or.inr ⟨_, rfl⟩
  | _ => exact Or.inl rfl

theorem Prepares.silent (h : Prepares cfg a call effects call') (id : Nat) :
    Effect.send id ∉ effects := by
  cases h <;> simp

theorem Prepares.confirms (h : Prepares cfg a call effects call') {event : TxStatusEvent}
    (hmem : Effect.emit event ∈ effects) (hstatus : event.status = .confirmed) :
    effects = [.emit event] ∧ call.cleared = true := by
  cases h with
  | succeeds =>
    cases List.mem_singleton.mp hmem
    exact ⟨rfl, rfl⟩
  | givesUp =>
    rcases List.mem_cons.mp hmem with heq | hmem
    · cases heq
      cases hstatus
    · cases List.mem_singleton.mp hmem
      cases hstatus
  | clears | finds => cases List.mem_singleton.mp hmem
  | asks | requeues | fails =>
    cases List.mem_singleton.mp hmem
    cases hstatus
  | begins | throws | recovers | waits => cases hmem

/-- What `resume` reports is about steps that were enqueued. -/
theorem Prepares.reports_known (h : Prepares cfg a call effects call')
    (htold : Told log n ids (call.rows stepStates)) {event : TxStatusEvent}
    (hmem : Effect.emit event ∈ effects) : event.id < n := by
  have hrow : ∀ {rows : Rows} {i : Nat} {unfinished : List QueueStep} {row : PersistedQueueStep},
      Told log n ids (unfinished.map TransactionQueue.pendingRow ++ rows.drop i) →
        rows[i]? = some (some row) → row.id < n := by
    intro rows i unfinished row htold' hrow
    rw [drop_of_getElem? hrow] at htold'
    obtain ⟨before, after, rfl, _, _⟩ := Told.rows_split htold'.whole
    exact htold'.bound row.id (List.mem_append_right _ List.mem_cons_self)
  cases h with
  | clears | finds => cases List.mem_singleton.mp hmem
  | begins | throws | recovers | waits => cases hmem
  | asks hget | requeues hget | succeeds hget | fails hget =>
    cases List.mem_singleton.mp hmem
    exact hrow htold hget
  | givesUp hget =>
    rcases List.mem_cons.mp hmem with heq | hmem
    · cases heq
      exact hrow htold hget
    · cases List.mem_singleton.mp hmem
      exact hrow htold hget

/-- Before `resume` goes from row to row it reports nothing. -/
theorem Prepares.not_refilling (h : Prepares cfg a call effects call')
    (htold : Told log n ids (call.rows stepStates)) (hcall : call'.refilling = false) :
    call.refilling = false ∧ OffChain effects := by
  cases h with
  | clears | finds => exact ⟨rfl, by simp [OffChain]⟩
  | throws hrow =>
    rw [Call.rows, drop_of_getElem? hrow] at htold
    exact absurd (List.mem_append_right _ List.mem_cons_self) htold.none_not_mem
  | _ => cases hcall

end Prepares

/-! ## Every move keeps the order -/

/-- The condition on what the queue is called for, answered or goes on with: `run` begins with no
step that is confirmed on the chain, `resume` gives up no step that others are waiting for, and a
step is enqueued when each one before it is confirmed or held. -/
def TransactionQueue.InOrder (cfg : QueueConfig) (log : List Effect) (q : TransactionQueue) :
    Action → Prop
  | .enqueue _ _ _ => ∀ j < q.nextId, Confirmed log j ∨ Held q.stepStates j
  | .run _ => ∀ step ∈ q.steps, ¬ConfirmedOnChain log step.id
  | a => q.call.givesUp cfg a = true → q.call.awaited = false

instance (rows : Rows) (id : Nat) : Decidable (Held rows id) :=
  inferInstanceAs (Decidable (_ ∈ _))

instance (cfg : QueueConfig) (log : List Effect) (q : TransactionQueue) (a : Action) :
    Decidable (q.InOrder cfg log a) := by
  cases a <;> unfold TransactionQueue.InOrder <;> infer_instance

theorem Prepares.cond_of {cfg : QueueConfig} {a : Action} {q : TransactionQueue} {call' : Call}
    {effects log : List Effect} (h : Prepares cfg a q.call effects call')
    (hcond : q.InOrder cfg log a) : q.call.givesUp cfg a = true → q.call.awaited = false := by
  cases a with
  | proceed | polled => exact hcond
  | _ => exact absurd h.asked nofun

namespace Sequenced

variable {cfg : QueueConfig} {q q' : TransactionQueue} {log effects : List Effect}
  {disk : Option Rows} {a : Action} {x : Nat} {e : Execution}

theorem lined (h : Sequenced cfg q log disk) (hcall : q.call.preparing = false) :
    Lined log q.steps q.stepStates := by
  refine h.memory ?_
  cases hq : q.call <;> rw [hq] at hcall <;> first | rfl | cases hcall

/-- The work of the call is about a step that the steps before it lead up to. -/
theorem earlier_confirmed (h : Sequenced cfg q log disk) (hx : q.executions[x]? = some e)
    (hrun : e.run = q.calls) (hactive : e.work.active = true) :
    ∀ j < e.step.id, Confirmed log j := by
  have hplaced := (h.kept.current x e hx hrun).placed hactive
  have hmem : e.step ∈ q.steps := List.mem_of_getElem? hplaced.step
  have hids : ∀ (k : Nat) step, q.steps[k]? = some step →
      (q.steps.map fun step => step.id)[k]? = some step.id := by
    intro k step hk
    rw [List.getElem?_map, hk]
    rfl
  intro j hj
  rcases (h.lined (h.kept.not_preparing hx hrun)).preceded e.step hmem j hj with hdone | hheld
  · exact hdone
  · rw [Held, h.kept.memory.whole] at hheld
    obtain ⟨id, hid, heq⟩ := List.mem_map.mp hheld
    rw [Option.some.inj heq] at hid
    obtain ⟨k, hk⟩ := List.mem_iff_getElem?.mp hid
    obtain ⟨step, hstep, rfl⟩ := Option.map_eq_some_iff.mp ((List.getElem?_map ..).symm.trans hk)
    refine hplaced.earlier k ?_ step hstep
    rcases Nat.lt_trichotomy k e.index with hlt | heq | hlt
    · exact hlt
    · rw [heq, hplaced.step] at hstep
      rw [← Option.some.inj hstep] at hj
      exact absurd hj (Nat.lt_irrefl _)
    · have hgt := sorted_lt h.kept.memory.sorted (hids _ _ hplaced.step) hk hlt
      omega

/-- The rows after a turn that reports no confirmation on the chain. -/
theorem lined_off_chain (h : Sequenced cfg q log disk) (hx : q.executions[x]? = some e)
    (hrun : e.run = q.calls) (hactive : e.work.active = true) {turn : Turn}
    (htakes : e.Takes turn) {rest : List Effect} (hoff : OffChain rest) :
    Lined (log ++ rest) q.steps (perform cfg e q.stepStates turn.notes).1 := by
  have hlined := h.lined (h.kept.not_preparing hx hrun)
  have hplaced := (h.kept.current x e hx hrun).placed hactive
  have hmem : e.step ∈ q.steps := List.mem_of_getElem? hplaced.step
  obtain ⟨htold, _, _⟩ := h.kept.turn_told hx hrun hactive htakes cfg disk
  have hlt : e.index < q.stepStates.length := by
    rw [h.kept.memory.length_eq, List.length_map]
    exact (List.getElem?_eq_some_iff.mp hplaced.step).1
  have hheld : ∀ j, Held q.stepStates j → Held (perform cfg e q.stepStates turn.notes).1 j := by
    intro j hold
    rw [Held, h.kept.memory.whole] at hold
    rw [Held, htold.whole]
    exact hold
  have hpreceded : ∀ step ∈ q.steps,
      Preceded (log ++ rest) (perform cfg e q.stepStates turn.notes).1 step.id := by
    intro step hstep
    exact (hlined.preceded step hstep).mono rest fun j hold => Or.inl (hheld j hold)
  refine ⟨hpreceded, ?_⟩
  intro row hrow hunfinished
  rcases perform_rows turn.notes hlt hrow with hold | hid
  · obtain ⟨hnot, hprec⟩ := hlined.waiting row hold hunfinished
    exact ⟨fun hchain => hnot (hoff.of_append hchain),
      hprec.mono rest fun j hold => Or.inl (hheld j hold)⟩
  · rw [hid]
    exact ⟨fun hchain => h.active x e hx hrun hactive (hoff.of_append hchain),
      hpreceded e.step hmem⟩

theorem enqueues (h : Sequenced cfg q log disk) (xdr : String) (rollback : Bool)
    (stepTimeoutMs : Option Nat) (hcall : q.call.preparing = false)
    (hcond : ∀ j < q.nextId, Confirmed log j ∨ Held q.stepStates j) :
    Sequenced cfg (q.enqueue cfg xdr rollback stepTimeoutMs).1
      (log ++ (q.enqueue cfg xdr rollback stepTimeoutMs).2)
      ((q.enqueue cfg xdr rollback stepTimeoutMs).2.foldl Effect.store disk) := by
  have hlined := h.lined hcall
  have hsilent : ∀ id, Effect.send id ∉ (q.enqueue cfg xdr rollback stepTimeoutMs).2 :=
    fun id hmem => absurd rfl (persist_forall (P := (· ≠ .send id)) nofun cfg _ _ hmem)
  have hoff : OffChain (q.enqueue cfg xdr rollback stepTimeoutMs).2 := fun event hmem =>
    absurd rfl (persist_forall (P := (· ≠ .emit event)) nofun cfg _ _ hmem)
  have hnew : ¬ConfirmedOnChain (log ++ (q.enqueue cfg xdr rollback stepTimeoutMs).2) q.nextId :=
    fun hchain => Nat.lt_irrefl _ (h.known _ (hoff.of_append hchain))
  have hgrow : ∀ id, Preceded log q.stepStates id →
      Preceded (log ++ (q.enqueue cfg xdr rollback stepTimeoutMs).2)
        (q.enqueue cfg xdr rollback stepTimeoutMs).1.stepStates id := fun id hpreceded =>
    hpreceded.mono _ fun j hheld => Or.inl (hheld.append_left _)
  have hlined' : Lined (log ++ (q.enqueue cfg xdr rollback stepTimeoutMs).2)
      (q.enqueue cfg xdr rollback stepTimeoutMs).1.steps
      (q.enqueue cfg xdr rollback stepTimeoutMs).1.stepStates := by
    refine ⟨?_, ?_⟩
    · intro step hstep
      rcases List.mem_append.mp hstep with hold | hlast
      · exact hgrow step.id (hlined.preceded step hold)
      · rw [List.mem_singleton.mp hlast]
        exact hgrow q.nextId hcond
    · intro row hrow hunfinished
      rcases List.mem_append.mp hrow with hold | hlast
      · obtain ⟨hnot, hpreceded⟩ := hlined.waiting row hold hunfinished
        exact ⟨fun hchain => hnot (hoff.of_append hchain), hgrow row.id hpreceded⟩
      · rw [Option.some.inj (List.mem_singleton.mp hlast)]
        exact ⟨hnew, hgrow q.nextId hcond⟩
  have hworking : (q.enqueue cfg xdr rollback stepTimeoutMs).1.call.preparing = false := hcall
  refine ⟨h.kept.enqueues xdr rollback stepTimeoutMs hcall, h.ordered.silent hsilent, ?_,
    fun _ => hlined', ?_, ?_, ?_⟩
  · intro id hchain
    exact Nat.lt_succ_of_lt (h.known id (hoff.of_append hchain))
  · rw [Kept.rows_of_working hworking]
    exact hlined'.waiting
  · intro x e hx hrun hactive hchain
    exact h.active x e hx hrun hactive (hoff.of_append hchain)
  · intro i resuming opts hstepping j hj step hstep hchain
    rcases getElem?_snoc hstep with hold | ⟨_, rfl⟩
    · exact h.later i resuming opts hstepping j hj step hold (hoff.of_append hchain)
    · exact hnew hchain

theorem prepares (h : Sequenced cfg q log disk) {call : Call} (hashes : List TxHash)
    (hprepares : Prepares cfg a q.call effects call)
    (hcond : q.call.givesUp cfg a = true → q.call.awaited = false) :
    Sequenced cfg { q with call, submittedHashes := hashes } (log ++ effects)
      (effects.foldl Effect.store disk) := by
  obtain ⟨ids, hstate⟩ := h.kept.state
  have hwaiting := hprepares.waiting hstate (fun hcall => (h.memory hcall).waiting) h.state hcond
  refine ⟨h.kept.prepares hashes hprepares, h.ordered.silent hprepares.silent, ?_, ?_, hwaiting,
    ?_, ?_⟩
  · intro id hchain
    rcases tells_of_append hchain with hold | ⟨event, hmem, rfl, hnew⟩
    · exact h.known id hold
    · exact hprepares.reports_known hstate hmem
  · intro hrefilling
    obtain ⟨hcall, hplain⟩ := hprepares.not_refilling hstate hrefilling
    exact (h.memory hcall).mono hplain
  · intro x e hx hrun
    have hlt := h.kept.unused hprepares.preparing x e hx
    have hrun' : e.run = q.calls := hrun
    omega
  · intro i resuming opts hstepping
    exact absurd hstepping (hprepares.not_stepping i resuming opts)

theorem loads (h : Sequenced cfg q log disk) (opts : RunOptions) (hcall : q.call = .idle) :
    Sequenced cfg { q with call := .loading disk opts, calls := q.calls + 1 } log disk := by
  have hlined := h.lined (by rw [hcall]; rfl)
  refine ⟨h.kept.loads opts hcall, h.ordered, h.known, fun _ => hlined, ?_, ?_, fun _ _ _ h => by cases h⟩
  · show Waiting log (disk.getD [])
    rcases h.kept.mirrors with hnone | ⟨_, hsome⟩
    · rw [hnone]
      exact Waiting.nil log
    · rw [hsome]
      exact h.state
  · intro x e hx hrun
    exact absurd hrun (Nat.ne_of_lt (Nat.lt_succ_of_le (h.kept.runs x e hx)))

theorem told (h : Sequenced cfg q log disk) {log' : List Effect} (hoff : OffChain log')
    (hsilent : ∀ id, Effect.send id ∉ log') : Sequenced cfg q (log ++ log') disk :=
  ⟨h.kept.told log', h.ordered.silent hsilent, fun id hchain => h.known id (hoff.of_append hchain),
    fun hcall => (h.memory hcall).mono hoff, h.state.mono hoff,
    fun x e hx hrun hactive hchain => h.active x e hx hrun hactive (hoff.of_append hchain),
    fun i resuming opts hcall j hj step hstep hchain =>
      h.later i resuming opts hcall j hj step hstep (hoff.of_append hchain)⟩

theorem returns (h : Sequenced cfg q log disk) {rows : Rows} {i : Nat} {opts : RunOptions}
    (hcall : q.call = .reconciling rows i [] opts) :
    Sequenced cfg { q.refill [] with call := .idle } (log ++ [Effect.resumed]) disk := by
  have hoff : OffChain [Effect.resumed] := by simp [OffChain]
  refine ⟨h.kept.returns hcall, h.ordered.silent (by simp),
    fun id hchain => h.known id (hoff.of_append hchain), fun _ => ⟨List.forall_mem_nil _, Waiting.nil _⟩,
    Waiting.nil _, ?_, fun _ _ _ h => by cases h⟩
  intro x e hx hrun
  exact absurd hrun (Nat.ne_of_lt (h.kept.unused (by rw [hcall]; rfl) x e hx))

/-- The steps that `resume` has queued again are in line. -/
theorem in_line_refill (h : Sequenced cfg q log disk) {rows : Rows} {i : Nat}
    {unfinished : List QueueStep} {opts : RunOptions}
    (hcall : q.call = .reconciling rows i unfinished opts) (hrow : rows[i]? = none) :
    InLine cfg (q.refill unfinished) log disk 0 := by
  have hwaiting := h.state
  rw [TransactionQueue.rows, hcall, Call.rows,
    List.drop_eq_nil_of_le (List.getElem?_eq_none_iff.mp hrow), List.append_nil] at hwaiting
  have hstep : ∀ step ∈ unfinished, ¬ConfirmedOnChain log step.id ∧
      Preceded log (unfinished.map TransactionQueue.pendingRow) step.id := by
    intro step hmem
    exact hwaiting ⟨step.id, step.xdr, .pending, none, step.stepTimeoutMs⟩
      (List.mem_map.mpr ⟨step, hmem, rfl⟩) rfl
  exact ⟨h.kept.poised_refill hcall hrow, h.ordered, h.known,
    ⟨fun step hmem => (hstep step hmem).2, hwaiting⟩,
    fun j _ step hj => (hstep step (List.mem_of_getElem? hj)).1⟩

theorem in_line_run (h : Sequenced cfg q log disk) (hcall : q.call = .idle)
    (hcond : ∀ step ∈ q.steps, ¬ConfirmedOnChain log step.id) :
    InLine cfg { q with submittedHashes := [], calls := q.calls + 1 } log disk 0 :=
  ⟨h.kept.poised_run hcall, h.ordered, h.known, h.lined (by rw [hcall]; rfl),
    fun _ _ step hj => hcond step (List.mem_of_getElem? hj)⟩

theorem in_line_next (h : Sequenced cfg q log disk) {i : Nat} {resuming : Bool}
    {opts : RunOptions} (hcall : q.call = .stepping i resuming opts)
    (hrace : q.executions.getLast?.bind Execution.race = some true) :
    InLine cfg q log disk (i + 1) :=
  ⟨h.kept.poised_next hcall hrace, h.ordered, h.known, h.lined (by rw [hcall]; rfl),
    fun j hj step hstep => h.later i resuming opts hcall j hj step hstep⟩

theorem stops (h : Sequenced cfg q log disk) {i : Nat} {resuming : Bool} {opts : RunOptions}
    (hcall : q.call = .stepping i resuming opts) :
    Sequenced cfg { q with call := .idle } log disk := by
  have hlined := h.lined (by rw [hcall]; rfl)
  exact ⟨h.kept.stops hcall, h.ordered, h.known, fun _ => hlined, hlined.waiting, h.active, fun _ _ _ h => by cases h⟩

theorem fades (h : Sequenced cfg q log disk) {e' : Execution} (b : CircuitBreaker)
    (hx : q.executions[x]? = some e) (hsame : e.Same e')
    (hwork : e'.work = e.work ∨ e'.work.active = false)
    (hrace : e'.race = some true → e.race = some true)
    (heffects : ∀ f ∈ effects, f.plain = true) :
    Sequenced cfg { q with circuitBreaker := b, executions := q.executions.set x e' }
      (log ++ effects) (effects.foldl Effect.store disk) := by
  have hkept := h.kept.fades b hx hsame hwork hrace heffects
  have htold := h.told (OffChain.of_plain heffects) (send_not_plain heffects)
  refine ⟨hkept, htold.ordered, htold.known, htold.memory, htold.state, ?_, htold.later⟩
  intro y e'' hy hrun hactive
  rcases getElem?_set_cases hy with ⟨_, rfl⟩ | ⟨_, hy⟩
  · rcases hwork with heq | hinactive
    · rw [hsame.step]
      exact htold.active x e hx (hsame.run ▸ hrun) (heq ▸ hactive)
    · rw [hinactive] at hactive
      cases hactive
  · exact htold.active y e'' hy hrun hactive

/-- The turn reports a confirmation on the chain. -/
theorem lined_confirmed (h : Sequenced cfg q log disk) (hx : q.executions[x]? = some e)
    (hrun : e.run = q.calls) (hactive : e.work.active = true) {hash : TxHash}
    {rest : List Effect} (hchain : ∀ id, ConfirmedOnChain (log ++ rest) id →
      ConfirmedOnChain log id ∨ id = e.step.id) :
    Lined (log ++ rest) q.steps (markPersisted q.stepStates e .confirmed (some hash)) := by
  have hlined := h.lined (h.kept.not_preparing hx hrun)
  have hplaced := (h.kept.current x e hx hrun).placed hactive
  have hid : (q.steps.map fun step => step.id)[e.index]? = some e.step.id := by
    rw [List.getElem?_map, hplaced.step]
    rfl
  have hlt : e.index < q.stepStates.length := by
    rw [h.kept.memory.length_eq]
    exact (List.getElem?_eq_some_iff.mp hid).1
  have hrows : markPersisted q.stepStates e .confirmed (some hash) = q.stepStates.set e.index
      (some (markedRow q.stepStates e .confirmed (some hash))) := by
    rw [markPersisted, writeRow, if_pos hlt]
  have hheld : ∀ j, Held q.stepStates j →
      Held (markPersisted q.stepStates e .confirmed (some hash)) j := by
    intro j hold
    have hget : (rowIds q.stepStates)[e.index]? = some (some e.step.id) := by
      rw [h.kept.memory.whole, List.getElem?_map, hid]
      rfl
    obtain ⟨hlt', heq⟩ := List.getElem?_eq_some_iff.mp hget
    rw [hrows, Held, rowIds, List.map_set]
    show some j ∈ (rowIds q.stepStates).set e.index (some e.step.id)
    rw [← heq, List.set_getElem_self]
    exact hold
  refine ⟨fun step hstep => (hlined.preceded step hstep).mono rest
    fun j hold => Or.inl (hheld j hold), ?_⟩
  intro row hrow hunfinished
  obtain ⟨k, hk⟩ := List.mem_iff_getElem?.mp hrow
  rw [hrows] at hk
  rcases getElem?_set_cases hk with ⟨_, heq⟩ | ⟨hne, hold⟩
  · rw [Option.some.inj heq] at hunfinished
    cases hunfinished
  · obtain ⟨hnot, hpreceded⟩ := hlined.waiting row (List.mem_of_getElem? hold) hunfinished
    obtain ⟨_, hsome, hkid⟩ := h.kept.memory.row_of hold
    obtain rfl := Option.some.inj hsome
    refine ⟨?_, hpreceded.mono rest fun j hold => Or.inl (hheld j hold)⟩
    intro hnew
    rcases hchain row.id hnew with hconfirmed | heq
    · exact hnot hconfirmed
    · rw [heq] at hkid
      exact hne (sorted_inj h.kept.memory.sorted hkid hid)

/-- What a turn reports on the chain is about its step, which is complete then. -/
theorem turn_reports (h : Sequenced cfg q log disk) (hx : q.executions[x]? = some e)
    (hrun : e.run = q.calls) (hactive : e.work.active = true) {turn : Turn}
    (htakes : e.Takes turn) (b : CircuitBreaker) :
    Lined (log ++ (q.takeTurn cfg x e turn b).2) q.steps
        (perform cfg e q.stepStates turn.notes).1 ∧
      (∀ id, ConfirmedOnChain (log ++ (q.takeTurn cfg x e turn b).2) id →
        ConfirmedOnChain log id ∨ id = e.step.id) ∧
      ((e.goOn q.steps (q.completed e.run) turn.next).1.work.active = true →
        OffChain (q.takeTurn cfg x e turn b).2) := by
  have hplain : OffChain (e.goOn q.steps (q.completed e.run) turn.next).2 :=
    OffChain.of_plain (Execution.goOn_plain turn.next)
  rcases htakes.offChain with hoff | ⟨hash, attempt, hwork, rfl⟩
  · have hall : OffChain (q.takeTurn cfg x e turn b).2 := (hoff cfg q.stepStates).append hplain
    exact ⟨h.lined_off_chain hx hrun hactive htakes hall,
      fun id hchain => Or.inl (hall.of_append hchain), fun _ => hall⟩
  · have hchain : ∀ id, ConfirmedOnChain (log ++ (q.takeTurn cfg x e
        ⟨[.emit .confirmed (some hash) false, .mark .confirmed (some hash)], .complete⟩ b).2) id →
          ConfirmedOnChain log id ∨ id = e.step.id := by
      intro id hnew
      rcases tells_of_append hnew with hold | ⟨event, hmem, rfl, hstatus⟩
      · exact Or.inl hold
      · rcases List.mem_append.mp (TransactionQueue.takeTurn_effects ▸ hmem) with hmem | hmem
        · obtain ⟨_, _, _, _, rfl⟩ := event_of_perform hmem
          exact Or.inr rfl
        · cases hmem
    refine ⟨h.lined_confirmed hx hrun hactive hchain, hchain, ?_⟩
    intro hgoes
    have hdone : (e.goOn q.steps (q.completed e.run) .complete).1.work.active = false :=
      Execution.goOn_inactive nofun
    exact absurd (hdone.symm.trans hgoes) nofun

theorem turn_sends (h : Sequenced cfg q log disk) (hx : q.executions[x]? = some e)
    (hrun : e.run = q.calls) (hactive : e.work.active = true) {turn : Turn}
    (htakes : e.Takes turn) (b : CircuitBreaker) :
    Ordered (log ++ (q.takeTurn cfg x e turn b).2) := by
  refine h.ordered.append ?_
  intro id hsend
  rcases List.mem_append.mp (TransactionQueue.takeTurn_effects ▸ hsend) with hmem | hmem
  · obtain ⟨hnote, rfl⟩ := send_of_perform hmem
    exact ⟨h.earlier_confirmed hx hrun hactive, h.active x e hx hrun hactive,
      (htakes.sends_only hnote cfg q.stepStates).append
        (OffChain.of_plain (Execution.goOn_plain turn.next))⟩
  · exact absurd hmem (send_not_plain (Execution.goOn_plain turn.next) id)

theorem turns (h : Sequenced cfg q log disk) {turn : Turn} (b : CircuitBreaker)
    (hx : q.executions[x]? = some e) (hrun : e.run = q.calls) (hactive : e.work.active = true)
    (htakes : e.Takes turn) :
    Sequenced cfg (q.takeTurn cfg x e turn b).1 (log ++ (q.takeTurn cfg x e turn b).2)
      ((q.takeTurn cfg x e turn b).2.foldl Effect.store disk) := by
  have hlast := h.kept.last_of_active hx hrun hactive
  have hplaced := (h.kept.current x e hx hrun).placed hactive
  have hworking : (q.takeTurn cfg x e turn b).1.call.preparing = false := by
    rw [TransactionQueue.takeTurn_call]
    exact h.kept.not_preparing hx hrun
  obtain ⟨hlined, hchain, hgoes⟩ := h.turn_reports hx hrun hactive htakes b
  have hids : ∀ (k : Nat) step, q.steps[k]? = some step →
      (q.steps.map fun step => step.id)[k]? = some step.id := by
    intro k step hk
    rw [List.getElem?_map, hk]
    rfl
  refine ⟨h.kept.turns b hx hrun hactive htakes, h.turn_sends hx hrun hactive htakes b,
    ?_, ?_, ?_, ?_, ?_⟩
  · intro id hnew
    rw [TransactionQueue.takeTurn_nextId]
    rcases hchain id hnew with hold | rfl
    · exact h.known id hold
    · exact h.kept.memory.bound _ (List.mem_of_getElem? (hids _ _ hplaced.step))
  · intro _
    rw [TransactionQueue.takeTurn_steps]
    exact hlined
  · rw [Kept.rows_of_working hworking]
    exact hlined.waiting
  · intro y e' hy hrun' hactive' hnew
    rw [TransactionQueue.takeTurn_executions] at hy
    rw [TransactionQueue.takeTurn_calls] at hrun'
    rcases getElem?_set_cases hy with ⟨_, rfl⟩ | ⟨hne, hy⟩
    · rw [(Execution.goOn_same turn.next).step] at hnew
      exact h.active x e hx hrun hactive ((hgoes hactive').of_append hnew)
    · have hlt := (List.getElem?_eq_some_iff.mp hy).1
      rw [h.kept.past y e' hy (by omega) hrun'] at hactive'
      cases hactive'
  · intro i resuming opts hstepping j hj step hstep hnew
    rw [TransactionQueue.takeTurn_call] at hstepping
    rw [TransactionQueue.takeTurn_steps] at hstep
    obtain ⟨e', hlast', _, rfl, _⟩ := h.kept.stepping i resuming opts hstepping
    rw [List.getLast?_eq_getElem?, ← hlast, Nat.add_sub_cancel, hx] at hlast'
    obtain rfl := Option.some.inj hlast'
    rcases hchain step.id hnew with hold | heq
    · exact h.later e.index resuming opts hstepping j hj step hstep hold
    · have hid := hids j step hstep
      rw [heq] at hid
      exact absurd (sorted_inj h.kept.memory.sorted (hids _ _ hplaced.step) hid)
        (Nat.ne_of_lt hj)

/-- Every move that meets the condition keeps the order. -/
theorem move (h : Sequenced cfg q log disk) (hcond : q.InOrder cfg log a)
    (hmoves : Moves cfg disk q a q' effects) :
    Sequenced cfg q' (log ++ effects) (effects.foldl Effect.store disk) := by
  cases hmoves with
  | enqueues xdr rollback stepTimeoutMs hcall =>
    exact h.enqueues xdr rollback stepTimeoutMs hcall hcond
  | runs opts hcall => exact (h.in_line_run hcall hcond).loop false opts
  | loads opts hcall _ =>
    rw [List.append_nil]
    exact h.loads opts hcall
  | resumesNothing _ _ => exact h.told (by simp [OffChain]) (by simp)
  | prepares hashes hprepares => exact h.prepares hashes hprepares (hprepares.cond_of hcond)
  | returns hcall _ => exact h.returns hcall
  | refills hcall hrow => exact (h.in_line_refill hcall hrow).loop true _
  | goesOn hcall hrace => exact (h.in_line_next hcall hrace).loop _ _
  | stops hcall =>
    rw [List.append_nil]
    exact h.stops hcall
  | turns b hx hrun hactive htakes => exact h.turns b hx hrun hactive htakes
  | fades b hx hsame hwork hrace heffects => exact h.fades b hx hsame hwork hrace heffects

end Sequenced

/-! ## What a crash leaves in order -/

/-- A confirmation is reported by a turn, or by `resume` after it has cleared what was stored. -/
theorem Moves.confirmed_by {cfg : QueueConfig} {q q' : TransactionQueue} {effects : List Effect}
    {disk : Option Rows} {a : Action} (h : Moves cfg disk q a q' effects) {event : TxStatusEvent}
    (hmem : Effect.emit event ∈ effects) (hstatus : event.status = .confirmed) :
    (∃ x e turn b, q.executions[x]? = some e ∧ e.run = q.calls ∧ e.work.active = true ∧
      e.Takes turn ∧ q' = (q.takeTurn cfg x e turn b).1 ∧
      effects = (q.takeTurn cfg x e turn b).2) ∨
        effects = [.emit event] ∧ q.call.cleared = true := by
  have hnot : ∀ {effects : List Effect}, Effect.emit event ∈ effects →
      ¬∀ f ∈ effects, f.plain = true := by
    intro effects hmem hplain
    have hfalse := hplain _ hmem
    rw [Effect.plain, hstatus] at hfalse
    cases hfalse
  have hloop : ∀ (q : TransactionQueue) (i : Nat) (resuming : Bool) (opts : RunOptions),
      Effect.emit event ∉ (q.loop cfg i resuming opts).2 := by
    intro q i resuming opts hmem
    cases hstep : q.steps[i]? with
    | some step =>
      rw [loop_some hstep] at hmem
      exact hnot hmem (begin_plain opts)
    | none =>
      rw [loop_none hstep] at hmem
      rcases List.mem_append.mp hmem with hmem | hmem <;> split at hmem <;> simp at hmem
  cases h with
  | enqueues => exact absurd rfl (persist_forall (P := (· ≠ .emit event)) nofun cfg _ _ hmem)
  | runs => exact absurd hmem (hloop _ _ _ _)
  | refills => exact absurd hmem (hloop _ _ _ _)
  | goesOn => exact absurd hmem (hloop _ _ _ _)
  | loads | stops => cases hmem
  | resumesNothing | returns => cases List.mem_singleton.mp hmem
  | prepares hashes hprepares => exact Or.inr (hprepares.confirms hmem hstatus)
  | turns b hx hrun hactive htakes => exact Or.inl ⟨_, _, _, b, hx, hrun, hactive, htakes, rfl, rfl⟩
  | fades _ _ _ _ _ heffects => exact absurd heffects (hnot hmem)

namespace Sequenced

variable {cfg : QueueConfig} {q q' : TransactionQueue} {log effects : List Effect}
  {disk : Option Rows} {a : Action}

/-- What was stored before a move is in order as far as the effects of the move go. -/
theorem waiting_before (h : Sequenced cfg q log disk) (hmoves : Moves cfg disk q a q' effects)
    (hcleared : q.call.cleared = false) (k : Nat) : Waiting (log ++ effects.take k) q.rows := by
  by_cases hoff : OffChain effects
  · exact h.state.mono (hoff.take k)
  · -- The move is a turn that confirms its step.
    obtain ⟨event, hmem, hstatus, hdry⟩ : ∃ event, Effect.emit event ∈ effects ∧
        event.status = .confirmed ∧ ¬event.dryRun = true := by
      by_contra hnone
      exact hoff fun event hmem hstatus => by_contra fun hdry =>
        hnone ⟨event, hmem, hstatus, hdry⟩
    rcases hmoves.confirmed_by hmem hstatus with
      ⟨x, e, turn, b, hx, hrun, hactive, htakes, rfl, rfl⟩ | ⟨_, htrue⟩
    · have hcurrent := h.kept.current x e hx hrun
      have hplaced := hcurrent.placed hactive
      have hrows := Kept.rows_of_working (h.kept.not_preparing hx hrun)
      obtain ⟨_, hreports, _⟩ := h.turn_reports hx hrun hactive htakes b
      intro row hrow hunfinished
      obtain ⟨hnot, hpreceded⟩ := h.state row hrow hunfinished
      refine ⟨?_, hpreceded.mono _ fun j hheld => Or.inl hheld⟩
      intro hchain
      have hall : ConfirmedOnChain (log ++ (q.takeTurn cfg x e turn b).2) row.id := by
        rw [← List.take_append_drop k (q.takeTurn cfg x e turn b).2, ← List.append_assoc]
        exact hchain.mono _
      rcases hreports row.id hall with hold | hid
      · exact hnot hold
      · rcases htakes.offChain with hoff' | ⟨hash, attempt, hwork, _⟩
        · exact hoff ((hoff' cfg q.stepStates).append
            (OffChain.of_plain (Execution.goOn_plain turn.next)))
        · obtain ⟨row', hrow', hstatus', hhash⟩ := hcurrent.polling _ _ hwork
          obtain ⟨hash', hhash'⟩ := Option.isSome_iff_exists.mp hhash
          rw [hrows] at hrow
          obtain ⟨i, hi⟩ := List.mem_iff_getElem?.mp hrow
          obtain ⟨_, hsome, hiid⟩ := h.kept.memory.row_of hi
          obtain rfl := Option.some.inj hsome
          have hid' : (q.steps.map fun step => step.id)[e.index]? = some row.id := by
            rw [List.getElem?_map, hplaced.step, hid]
            rfl
          rw [sorted_inj h.kept.memory.sorted hiid hid', hrow'] at hi
          obtain rfl := Option.some.inj (Option.some.inj hi)
          rw [PersistedQueueStep.unfinished_of_submitted hstatus' hhash'] at hunfinished
          cases hunfinished
    · rw [hcleared] at htrue
      cases htrue

/-- What is stored by a move is in order as far as the effects of the move go. -/
theorem waiting_after (h : Sequenced cfg q log disk) (hmoves : Moves cfg disk q a q' effects)
    (hstate : Waiting (log ++ effects) q'.rows) (k : Nat) :
    Waiting (log ++ effects.take (k + 1)) q'.rows := by
  have hsplit : log ++ effects =
      log ++ effects.take (k + 1) ++ effects.drop (k + 1) := by
    rw [List.append_assoc, List.take_append_drop]
  intro row hrow hunfinished
  obtain ⟨hnot, hpreceded⟩ := hstate row hrow hunfinished
  refine ⟨?_, ?_⟩
  · intro hchain
    apply hnot
    rw [hsplit]
    exact hchain.mono _
  · intro j hj
    rcases hpreceded j hj with hconfirmed | hheld
    · rcases tells_of_append hconfirmed with hold | ⟨event, hmem, rfl, hstatus⟩
      · exact Or.inl (Confirmed.mono hold _)
      · rcases hmoves.confirmed_by hmem (beq_iff_eq.mp hstatus) with
          ⟨x, e, turn, b, hx, hrun, hactive, htakes, rfl, rfl⟩ | ⟨heffects, _⟩
        · -- The step of the turn is held.
          refine Or.inr ?_
          have hworking : (q.takeTurn cfg x e turn b).1.call.preparing = false := by
            rw [TransactionQueue.takeTurn_call]
            exact h.kept.not_preparing hx hrun
          obtain ⟨htold, _, _⟩ := h.kept.turn_told hx hrun hactive htakes cfg disk
          have hplaced := (h.kept.current x e hx hrun).placed hactive
          rw [Kept.rows_of_working hworking, TransactionQueue.takeTurn_stepStates, Held,
            htold.whole]
          rcases List.mem_append.mp (TransactionQueue.takeTurn_effects ▸ hmem) with hmem | hmem
          · obtain ⟨_, _, _, _, rfl⟩ := event_of_perform hmem
            exact List.mem_map.mpr ⟨e.step.id, List.mem_map.mpr
              ⟨e.step, List.mem_of_getElem? hplaced.step, rfl⟩, rfl⟩
          · have hplain := Execution.goOn_plain _ _ hmem
            rw [Effect.plain, beq_iff_eq.mp hstatus] at hplain
            cases hplain
        · refine Or.inl ?_
          rw [heffects] at hconfirmed ⊢
          rw [List.take_of_length_le (Nat.le_add_left 1 k)]
          exact hconfirmed
    · exact Or.inr hheld

end Sequenced

/-! ## All runs -/

namespace QueueWorld

variable {cfg : QueueConfig} {w w' : QueueWorld}

/-- The condition on a step of a run. -/
def Uncrossed (cfg : QueueConfig) (w : QueueWorld) : Label → Prop
  | .act a | .crashIn a _ _ =>
    w.queue.uncrossed a = true ∧ w.queue.InOrder cfg w.log a
  | .crash _ => True

instance (w : QueueWorld) (l : Label) : Decidable (w.Uncrossed cfg l) :=
  match l with
  | .act _ | .crashIn .. => inferInstanceAs (Decidable (_ ∧ _))
  | .crash _ => isTrue trivial

def Sequenced (cfg : QueueConfig) (w : QueueWorld) : Prop :=
  Sdk.Sequenced cfg w.queue w.log w.disk

theorem Sequenced.restart {w : QueueWorld} {rows : Rows} (hordered : Ordered w.log)
    (hknown : ∀ id, ConfirmedOnChain w.log id → id < w.queue.nextId)
    (hstored : Stored cfg w.log w.queue.nextId rows w.disk)
    (hwaiting : w.disk ≠ none → Waiting w.log rows) (opts : RunOptions) :
    (w.restart cfg opts).Sequenced cfg := by
  have hcrash : OffChain [Effect.crash w.queue.nextId] := by simp [OffChain]
  have hsilent : ∀ id, Effect.send id ∉ [Effect.crash w.queue.nextId] := by simp
  cases hstores : cfg.persistence with
  | true =>
    rw [restart_of_stores hstores]
    have hloaded : Sdk.Sequenced cfg { TransactionQueue.new w.queue.nextId w.queue.calls with
        call := .loading w.disk opts, calls := w.queue.calls + 1 } w.log w.disk := by
      refine ⟨Kept.restarted hstored hstores w.queue.calls opts, hordered, hknown,
        fun _ => ⟨List.forall_mem_nil _, Waiting.nil _⟩, ?_, fun x e hx => absurd hx (executions_nil x e), fun _ _ _ h => by cases h⟩
      show Waiting w.log (w.disk.getD [])
      rcases hstored with hdisk | ⟨_, hdisk, _⟩
      · rw [hdisk]
        exact Waiting.nil _
      · rw [hdisk] at hwaiting ⊢
        exact hwaiting (Option.some_ne_none _)
    exact hloaded.told hcrash hsilent
  | false =>
    have hdisk : w.disk = none := by
      rcases hstored with hdisk | ⟨hstores', _⟩
      · exact hdisk
      · rw [hstores] at hstores'
        cases hstores'
    have hrestart : w.restart cfg opts = ⟨TransactionQueue.new w.queue.nextId w.queue.calls, none,
        w.log ++ [Effect.crash w.queue.nextId, .resumed]⟩ := by
      rw [QueueWorld.restart, TransactionQueue.resume, if_neg (by rw [hstores]; exact Bool.false_ne_true)]
      show (⟨_, w.disk, _⟩ : QueueWorld) = _
      rw [hdisk]
    rw [hrestart]
    have hnew : Sdk.Sequenced cfg (.new w.queue.nextId w.queue.calls) w.log none :=
      ⟨Kept.new cfg w.log _ _, hordered, hknown, fun _ => ⟨List.forall_mem_nil _, Waiting.nil _⟩, Waiting.nil _,
        fun x e hx => absurd hx (executions_nil x e), fun _ _ _ h => by cases h⟩
    exact hnew.told (by simp [OffChain]) (by simp)

theorem Sequenced.crash (h : w.Sequenced cfg) (opts : RunOptions) :
    (w.restart cfg opts).Sequenced cfg :=
  Sequenced.restart h.ordered h.known (h.kept.mirrors.stored h.kept.state) (fun _ => h.state) opts

theorem Sequenced.crashIn (h : w.Sequenced cfg) {a : Action} {q' : TransactionQueue}
    {effects : List Effect} (hcond : w.queue.InOrder cfg w.log a)
    (hmoves : Moves cfg w.disk w.queue a q' effects) (k : Nat) (opts : RunOptions) :
    ((w.after q' (effects.take (k + 1))).restart cfg opts).Sequenced cfg := by
  have hafter := Sdk.Sequenced.move h hcond hmoves
  have hsplit : w.log ++ effects =
      w.log ++ effects.take (k + 1) ++ effects.drop (k + 1) := by
    rw [List.append_assoc, List.take_append_drop]
  have hordered : Ordered (w.log ++ effects.take (k + 1)) := by
    have hall := hafter.ordered
    rw [hsplit] at hall
    exact hall.of_append
  have hknown : ∀ id, ConfirmedOnChain (w.log ++ effects.take (k + 1)) id → id < q'.nextId := by
    intro id hchain
    apply hafter.known id
    rw [hsplit]
    exact hchain.mono _
  rcases h.kept.prefix_stored hmoves k with ⟨_, hsame, hstored⟩ | hstored
  · refine Sequenced.restart hordered hknown hstored ?_ opts
    intro hdisk
    refine Sdk.Sequenced.waiting_before h hmoves ?_ (k + 1)
    exact Bool.eq_false_iff.mpr fun hcleared => hdisk (hsame.trans (h.kept.cleared hcleared))
  · exact Sequenced.restart hordered hknown hstored
      (fun _ => Sdk.Sequenced.waiting_after h hmoves hafter.state k) opts

theorem Sequenced.step (h : w.Sequenced cfg) {l : Label} (hcond : w.Uncrossed cfg l)
    (hnext : w.next cfg l = some w') : w'.Sequenced cfg := by
  cases l with
  | act a =>
    obtain ⟨⟨q', effects⟩, hact, rfl⟩ := Option.map_eq_some_iff.mp hnext
    exact Sdk.Sequenced.move h hcond.2 (TransactionQueue.act_moves hcond.1 hact)
  | crash opts =>
    obtain rfl := Option.some.inj hnext
    exact h.crash opts
  | crashIn a k opts =>
    obtain ⟨⟨q', effects⟩, hact, rfl⟩ := Option.map_eq_some_iff.mp hnext
    exact h.crashIn hcond.2 (TransactionQueue.act_moves hcond.1 hact) k opts

theorem Sequenced.initial : QueueWorld.initial.Sequenced cfg := by
  exact ⟨Kept.new cfg [] 0 0, Ordered.nil, nofun, fun _ => ⟨List.forall_mem_nil _, Waiting.nil _⟩, Waiting.nil _,
    fun x e hx => absurd hx (executions_nil x e), fun _ _ _ h => by cases h⟩

end QueueWorld

end Sdk
end Linkora
