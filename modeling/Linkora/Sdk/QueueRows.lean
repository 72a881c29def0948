import Linkora.Sdk.QueueMoves

/-!
# Steps in the log and in the rows

What the log says of a step, and rows that list steps in the order in which they were enqueued
and say of a step no more than what the log has.  The rows of a turn stay like that.
-/

namespace Linkora
namespace Sdk

/-! ## What the log says of a step -/

/-- The log has such an event of the step. -/
def tells (log : List Effect) (id : Nat) (p : TxStatusEvent → Bool) : Bool :=
  log.any fun
    | .emit event => event.id == id && p event
    | _ => false

/-- The step is reported as confirmed, on the chain or by a dry run. -/
def Confirmed (log : List Effect) (id : Nat) : Prop :=
  tells log id (fun event => event.status == .confirmed) = true

def ConfirmedOnChain (log : List Effect) (id : Nat) : Prop :=
  tells log id (fun event => event.status == .confirmed && !event.dryRun) = true

def Unconfirmed (log : List Effect) (id : Nat) : Prop :=
  tells log id (fun event => event.status == .unconfirmed) = true

/-- The step was passed to `sendTransaction`. -/
def Sent (log : List Effect) (id : Nat) : Prop := Effect.send id ∈ log

instance (log : List Effect) (id : Nat) : Decidable (Confirmed log id) :=
  inferInstanceAs (Decidable (_ = true))

instance (log : List Effect) (id : Nat) : Decidable (ConfirmedOnChain log id) :=
  inferInstanceAs (Decidable (_ = true))

instance (log : List Effect) (id : Nat) : Decidable (Unconfirmed log id) :=
  inferInstanceAs (Decidable (_ = true))

instance (log : List Effect) (id : Nat) : Decidable (Sent log id) :=
  inferInstanceAs (Decidable (_ ∈ _))

section Tells

variable {log : List Effect} {id : Nat} {p : TxStatusEvent → Bool}

theorem tells_append (log' : List Effect) :
    tells (log ++ log') id p = (tells log id p || tells log' id p) := List.any_append

theorem tells_mono (h : tells log id p = true) (log' : List Effect) :
    tells (log ++ log') id p = true := by
  rw [tells_append, h]
  rfl

theorem tells_emit {event : TxStatusEvent} (hid : event.id = id) (hp : p event = true) :
    tells (log ++ [.emit event]) id p = true := by
  rw [tells_append]
  simp [tells, hid, hp]

theorem Confirmed.mono (h : Confirmed log id) (log' : List Effect) :
    Confirmed (log ++ log') id := tells_mono h log'

theorem ConfirmedOnChain.mono (h : ConfirmedOnChain log id) (log' : List Effect) :
    ConfirmedOnChain (log ++ log') id := tells_mono h log'

theorem Unconfirmed.mono (h : Unconfirmed log id) (log' : List Effect) :
    Unconfirmed (log ++ log') id := tells_mono h log'

theorem Sent.mono (h : Sent log id) (log' : List Effect) : Sent (log ++ log') id :=
  List.mem_append_left log' h

theorem ConfirmedOnChain.confirmed (h : ConfirmedOnChain log id) : Confirmed log id := by
  obtain ⟨f, hf, htold⟩ := List.any_eq_true.mp h
  refine List.any_eq_true.mpr ⟨f, hf, ?_⟩
  cases f with
  | emit event =>
    simp only [Bool.and_eq_true] at htold ⊢
    exact ⟨htold.1, htold.2.1⟩
  | _ => cases htold

end Tells

/-! ## Rows -/

def rowIds (rows : Rows) : List (Option Nat) := rows.map (Option.map fun row => row.id)

/-- The rows are those of the steps, in the order of their numbers, and what they say of a
step is told in the log. -/
structure Told (log : List Effect) (n : Nat) (ids : List Nat) (rows : Rows) : Prop where
  whole : rowIds rows = ids.map some
  sorted : ids.Pairwise (· < ·)
  bound : ∀ id ∈ ids, id < n
  confirmed : ∀ row, some row ∈ rows → row.status = .confirmed → row.hash.isSome = true →
    ConfirmedOnChain log row.id
  submitted : ∀ row, some row ∈ rows → row.status = .submitted → row.hash.isSome = true →
    Sent log row.id

namespace Told

variable {log : List Effect} {n : Nat} {ids : List Nat} {rows : Rows}

theorem mono (h : Told log n ids rows) (log' : List Effect) : Told (log ++ log') n ids rows :=
  ⟨h.whole, h.sorted, h.bound,
    fun row hrow hstatus hhash => (h.confirmed row hrow hstatus hhash).mono log',
    fun row hrow hstatus hhash => (h.submitted row hrow hstatus hhash).mono log'⟩

theorem nil (log : List Effect) (n : Nat) : Told log n [] [] :=
  ⟨rfl, List.Pairwise.nil, List.forall_mem_nil _, nofun, fun _ h => by cases h⟩

theorem row_of (h : Told log n ids rows) {i : Nat} {r : Option PersistedQueueStep}
    (hi : rows[i]? = some r) : ∃ row, r = some row ∧ ids[i]? = some row.id := by
  have hget : (rowIds rows)[i]? = some (r.map fun row => row.id) := by
    rw [rowIds, List.getElem?_map, hi]
    rfl
  rw [h.whole, List.getElem?_map] at hget
  cases r with
  | none =>
    cases hids : ids[i]? <;> rw [hids] at hget <;> cases hget
  | some row =>
    cases hids : ids[i]? with
    | none =>
      rw [hids] at hget
      cases hget
    | some id =>
      rw [hids] at hget
      exact ⟨row, rfl, congrArg some (Option.some.inj (Option.some.inj hget))⟩

/-- Rows that are told have no hole. -/
theorem none_not_mem (h : Told log n ids rows) : none ∉ rows := by
  intro hmem
  obtain ⟨i, hi⟩ := List.mem_iff_getElem?.mp hmem
  obtain ⟨row, hnone, _⟩ := h.row_of hi
  cases hnone

theorem length_eq (h : Told log n ids rows) : rows.length = ids.length := by
  have hlen := congrArg List.length h.whole
  rwa [rowIds, List.length_map, List.length_map] at hlen

theorem snoc (h : Told log n ids rows) (xdr : String) (rollback : Bool)
    (stepTimeoutMs : Option Nat) : Told log (n + 1) (ids ++ [n])
      (rows ++ [TransactionQueue.pendingRow ⟨n, xdr, rollback, stepTimeoutMs⟩]) := by
  refine ⟨?_, ?_, ?_, ?_, ?_⟩
  · rw [rowIds, List.map_append, List.map_append, ← h.whole]
    rfl
  · refine List.pairwise_append.mpr ⟨h.sorted, List.pairwise_singleton _ _, ?_⟩
    intro id hid m hm
    rw [List.mem_singleton.mp hm]
    exact h.bound id hid
  · intro id hid
    rcases List.mem_append.mp hid with hid | hid
    · exact Nat.lt_succ_of_lt (h.bound id hid)
    · rw [List.mem_singleton.mp hid]
      exact Nat.lt_succ_self n
  · intro row hrow hstatus
    rcases List.mem_append.mp hrow with hrow | hrow
    · exact h.confirmed row hrow hstatus
    · rw [Option.some.inj (List.mem_singleton.mp hrow)] at hstatus
      cases hstatus
  · intro row hrow hstatus
    rcases List.mem_append.mp hrow with hrow | hrow
    · exact h.submitted row hrow hstatus
    · rw [Option.some.inj (List.mem_singleton.mp hrow)] at hstatus
      cases hstatus

/-- A row is written again. -/
theorem set (h : Told log n ids rows) {i : Nat} {row : PersistedQueueStep}
    (hid : ids[i]? = some row.id)
    (hconfirmed : row.status = .confirmed → ConfirmedOnChain log row.id)
    (hsubmitted : row.status = .submitted → Sent log row.id) :
    Told log n ids (rows.set i (some row)) := by
  refine ⟨?_, h.sorted, h.bound, ?_, ?_⟩
  · rw [rowIds, List.map_set]
    have hget : (rowIds rows)[i]? = some (some row.id) := by
      rw [h.whole, List.getElem?_map, hid]
      rfl
    obtain ⟨hlt, heq⟩ := List.getElem?_eq_some_iff.mp hget
    show (rowIds rows).set i (some row.id) = _
    rw [← heq, List.set_getElem_self, h.whole]
  · intro row' hrow hstatus hhash
    rcases List.mem_or_eq_of_mem_set hrow with hrow | heq
    · exact h.confirmed row' hrow hstatus hhash
    · rw [Option.some.inj heq] at hstatus ⊢
      exact hconfirmed hstatus
  · intro row' hrow hstatus hhash
    rcases List.mem_or_eq_of_mem_set hrow with hrow | heq
    · exact h.submitted row' hrow hstatus hhash
    · rw [Option.some.inj heq] at hstatus ⊢
      exact hsubmitted hstatus

theorem rows_split {ids : List Nat} {pre post : Rows} {row : PersistedQueueStep}
    (h : rowIds (pre ++ some row :: post) = ids.map some) :
    ∃ before after, ids = before ++ row.id :: after ∧ rowIds pre = before.map some ∧
      rowIds post = after.map some := by
  rw [rowIds, List.map_append, List.map_cons] at h
  obtain ⟨before, rest, rfl, hpre, hrest⟩ := List.map_eq_append_iff.mp h.symm
  obtain ⟨id, after, rfl, hid, hafter⟩ := List.map_eq_cons_iff.mp hrest
  have hid' : some id = some row.id := hid
  rw [Option.some.inj hid']
  exact ⟨before, after, rfl, hpre.symm, hafter.symm⟩

/-- A row is left out. -/
theorem leave {pre post : Rows} {row : PersistedQueueStep}
    (h : Told log n ids (pre ++ some row :: post)) :
    ∃ before after, ids = before ++ row.id :: after ∧
      Told log n (before ++ after) (pre ++ post) := by
  obtain ⟨before, after, rfl, hpre, hpost⟩ := rows_split h.whole
  have hsub : List.Sublist (before ++ after) (before ++ row.id :: after) :=
    List.Sublist.append_left (List.sublist_cons_self row.id after) before
  have hmem : ∀ r, r ∈ pre ++ post → r ∈ pre ++ some row :: post := by
    intro r hr
    rcases List.mem_append.mp hr with hr | hr
    · exact List.mem_append_left _ hr
    · exact List.mem_append_right _ (List.mem_cons_of_mem _ hr)
  refine ⟨before, after, rfl, ?_, h.sorted.sublist hsub,
    fun id hid => h.bound id (hsub.subset hid), fun r hr => h.confirmed r (hmem _ hr),
    fun r hr => h.submitted r (hmem _ hr)⟩
  rw [rowIds, List.map_append, List.map_append]
  show rowIds pre ++ rowIds post = _
  rw [hpre, hpost]

/-- A row is made pending again. -/
theorem again {pre post : Rows} {row : PersistedQueueStep}
    (h : Told log n ids (pre ++ some row :: post)) :
    Told log n ids (pre ++ TransactionQueue.pendingRow row.step :: post) := by
  obtain ⟨before, after, rfl, hpre, hpost⟩ := rows_split h.whole
  refine ⟨?_, h.sorted, h.bound, ?_, ?_⟩
  · rw [rowIds, List.map_append, List.map_cons, List.map_append]
    show rowIds pre ++ some row.id :: rowIds post = _
    rw [hpre, hpost]
    rfl
  · intro r hr hstatus
    rcases List.mem_append.mp hr with hr | hr
    · exact h.confirmed r (List.mem_append_left _ hr) hstatus
    · rcases List.mem_cons.mp hr with heq | hr
      · rw [Option.some.inj heq] at hstatus
        cases hstatus
      · exact h.confirmed r (List.mem_append_right _ (List.mem_cons_of_mem _ hr)) hstatus
  · intro r hr hstatus
    rcases List.mem_append.mp hr with hr | hr
    · exact h.submitted r (List.mem_append_left _ hr) hstatus
    · rcases List.mem_cons.mp hr with heq | hr
      · rw [Option.some.inj heq] at hstatus
        cases hstatus
      · exact h.submitted r (List.mem_append_right _ (List.mem_cons_of_mem _ hr)) hstatus

end Told

/-! ## The rows of a turn -/

def Note.marks : Note → Bool
  | .mark _ _ => true
  | _ => false

/-- At most one row is written down, and what it says is told before. -/
def Fits (e : Execution) : List Effect → List Note → Prop
  | _, [] => True
  | log, .emit status hash dryRun :: rest =>
    Fits e (log ++ [.emit (e.event status hash dryRun)]) rest
  | log, .mark status _ :: rest =>
    (status = .confirmed → ConfirmedOnChain log e.step.id) ∧
      (status = .submitted → Sent log e.step.id) ∧ ∀ note ∈ rest, note.marks = false
  | log, .send :: rest => Fits e (log ++ [.send e.step.id]) rest

/-- What the adapter has is what the queue has, or nothing. -/
def Mirrors (cfg : QueueConfig) (rows : Rows) (disk : Option Rows) : Prop :=
  disk = none ∨ cfg.persistence = true ∧ disk = some rows

/-- However far the effects go, the adapter has what it had, or all that it will have, and that
is told by then. -/
def Timely (log : List Effect) (n : Nat) (ids : List Nat) (rows : Rows) (disk : Option Rows)
    (effects : List Effect) : Prop :=
  ∀ k, (effects.take k).foldl Effect.store disk = disk ∨
    (effects.take k).foldl Effect.store disk = effects.foldl Effect.store disk ∧
      Told (log ++ effects.take k) n ids rows

theorem Told.markPersisted {log : List Effect} {n : Nat} {ids : List Nat} {rows : Rows}
    {e : Execution} (h : Told log n ids rows) (hid : ids[e.index]? = some e.step.id)
    {status : PersistedStatus} (hash : Option TxHash)
    (hconfirmed : status = .confirmed → ConfirmedOnChain log e.step.id)
    (hsubmitted : status = .submitted → Sent log e.step.id) :
    Told log n ids (markPersisted rows e status hash) := by
  have hlt : e.index < rows.length := by
    rw [h.length_eq]
    exact (List.getElem?_eq_some_iff.mp hid).1
  rw [Sdk.markPersisted, writeRow, if_pos hlt]
  exact h.set hid hconfirmed hsubmitted

/-- An effect that leaves the adapter as it is. -/
def Effect.passive : Effect → Bool
  | .save _ | .clear => false
  | _ => true

theorem foldl_passive {effects : List Effect} (h : ∀ f ∈ effects, f.passive = true)
    (disk : Option Rows) : effects.foldl Effect.store disk = disk := by
  induction effects with
  | nil => rfl
  | cons f rest ih =>
    have hf : Effect.store disk f = disk := by
      have hpassive := h f List.mem_cons_self
      cases f <;> first | rfl | cases hpassive
    rw [List.foldl_cons, hf]
    exact ih fun g hg => h g (List.mem_cons_of_mem f hg)

theorem Timely.of_passive {log : List Effect} {n : Nat} {ids : List Nat} {rows : Rows}
    {disk : Option Rows} {effects : List Effect} (h : ∀ f ∈ effects, f.passive = true) :
    Timely log n ids rows disk effects := by
  intro k
  exact Or.inl (foldl_passive (fun f hf => h f (List.mem_of_mem_take hf)) disk)

section Perform

variable {cfg : QueueConfig} {e : Execution} {log : List Effect} {n : Nat} {ids : List Nat}
  {rows : Rows} {notes : List Note}

/-- Notes that write nothing down. -/
theorem perform_passive (cfg : QueueConfig) (e : Execution) (rows : Rows)
    (h : ∀ note ∈ notes, note.marks = false) :
    (perform cfg e rows notes).1 = rows ∧
      ∀ f ∈ (perform cfg e rows notes).2, f.passive = true := by
  induction notes with
  | nil => exact ⟨rfl, List.forall_mem_nil _⟩
  | cons note rest ih =>
    obtain ⟨hrows, hpassive⟩ := ih fun note' hnote => h note' (List.mem_cons_of_mem note hnote)
    cases note with
    | mark => cases h _ List.mem_cons_self
    | emit | send =>
      refine ⟨hrows, ?_⟩
      intro f hf
      rcases List.mem_cons.mp hf with rfl | hf
      · rfl
      · exact hpassive f hf

/-- A first effect that leaves the adapter as it is. -/
theorem Timely.cons {f : Effect} (hf : f.passive = true) {disk : Option Rows}
    {effects : List Effect} (h : Timely (log ++ [f]) n ids rows disk effects) :
    Timely log n ids rows disk (f :: effects) := by
  have hsingle : ∀ g ∈ [f], g.passive = true := by
    intro g hg
    rw [List.mem_singleton.mp hg, hf]
  have hstore : Effect.store disk f = disk := foldl_passive hsingle disk
  intro k
  cases k with
  | zero => exact Or.inl rfl
  | succ k =>
    rw [List.take_succ_cons, List.foldl_cons, List.foldl_cons, hstore, ← List.singleton_append,
      ← List.append_assoc]
    exact h k

theorem perform_told (h : Told log n ids rows) (hid : ids[e.index]? = some e.step.id)
    (hfits : Fits e log notes) (disk : Option Rows) :
    Told (log ++ (perform cfg e rows notes).2) n ids (perform cfg e rows notes).1 ∧
      (Mirrors cfg rows disk → Mirrors cfg (perform cfg e rows notes).1
        ((perform cfg e rows notes).2.foldl Effect.store disk)) ∧
      Timely log n ids (perform cfg e rows notes).1 disk (perform cfg e rows notes).2 := by
  induction notes generalizing log with
  | nil =>
    refine ⟨?_, id, Timely.of_passive (List.forall_mem_nil _)⟩
    rw [show (perform cfg e rows []).2 = [] from rfl, List.append_nil]
    exact h
  | cons note rest ih =>
    cases note with
    | emit status hash dryRun =>
      obtain ⟨htold, hmirrors, htimely⟩ := ih (h.mono _) hfits
      refine ⟨?_, hmirrors, htimely.cons rfl⟩
      rw [List.append_assoc] at htold
      exact htold
    | send =>
      obtain ⟨htold, hmirrors, htimely⟩ := ih (h.mono _) hfits
      refine ⟨?_, hmirrors, htimely.cons rfl⟩
      rw [List.append_assoc] at htold
      exact htold
    | mark status hash =>
      obtain ⟨hconfirmed, hsubmitted, hrest⟩ := hfits
      have hmarked := h.markPersisted hid hash hconfirmed hsubmitted
      obtain ⟨hrows, hpassive⟩ :=
        perform_passive cfg e (markPersisted rows e status hash) hrest
      have hrows' : (perform cfg e rows (.mark status hash :: rest)).1 =
          markPersisted rows e status hash := hrows
      have heffects : (perform cfg e rows (.mark status hash :: rest)).2 =
          persist cfg (markPersisted rows e status hash) ++
            (perform cfg e (markPersisted rows e status hash) rest).2 := rfl
      rw [hrows', heffects, persist]
      split
      · rename_i hstores
        have hall : ∀ k, ((perform cfg e (markPersisted rows e status hash) rest).2.take k).foldl
            Effect.store (some (markPersisted rows e status hash)) =
              some (markPersisted rows e status hash) := fun k =>
          foldl_passive (fun f hf => hpassive f (List.mem_of_mem_take hf)) _
        refine ⟨hmarked.mono _, fun _ => Or.inr ⟨hstores, foldl_passive hpassive _⟩, ?_⟩
        intro k
        cases k with
        | zero => exact Or.inl rfl
        | succ k =>
          exact Or.inr ⟨(hall k).trans (foldl_passive hpassive _).symm, hmarked.mono _⟩
      · rename_i hstores
        refine ⟨hmarked.mono _, ?_, Timely.of_passive hpassive⟩
        rintro (hnone | ⟨hstores', _⟩)
        · exact Or.inl ((foldl_passive hpassive disk).trans hnone)
        · exact absurd hstores' hstores

end Perform

theorem persist_forall {P : Effect → Prop} (hsave : ∀ rows, P (.save rows)) (cfg : QueueConfig)
    (rows : Rows) : ∀ f ∈ persist cfg rows, P f := by
  intro f hf
  rw [persist] at hf
  split at hf
  · rw [List.mem_singleton.mp hf]
    exact hsave rows
  · cases hf

/-- What the notes of a turn do. -/
theorem perform_forall {P : Effect → Prop} (hemit : ∀ event, P (.emit event))
    (hsend : ∀ id, P (.send id)) (hsave : ∀ rows, P (.save rows)) (cfg : QueueConfig)
    (e : Execution) (rows : Rows) (notes : List Note) :
    ∀ f ∈ (perform cfg e rows notes).2, P f := by
  induction notes generalizing rows with
  | nil => exact List.forall_mem_nil _
  | cons note rest ih =>
    intro f hf
    cases note with
    | emit =>
      rcases List.mem_cons.mp hf with rfl | hf
      · exact hemit _
      · exact ih rows f hf
    | send =>
      rcases List.mem_cons.mp hf with rfl | hf
      · exact hsend _
      · exact ih rows f hf
    | mark status hash =>
      rcases List.mem_append.mp hf with hf | hf
      · exact persist_forall hsave cfg _ f hf
      · exact ih _ f hf

end Sdk
end Linkora
