import Mathlib.Tactic.Common
import Linkora.Sdk.Subscriber

/-!
# What a subscriber delivers

As long as one batch at a time is processed, the cursor stands behind what was handled: every
batch begins where the one before it ended or where the cursor has been announced.  Messages of
a WebSocket are processed side by side, and then one of them moves the cursor past events that
another has not handled.
-/

namespace Linkora
namespace Sdk
namespace Subscriber

variable (cfg : SubscriberConfig)

/-! ## What is promised -/

/-- The events before the position, from the initial cursor on, have been handled. -/
def HandledUpTo (s : Subscriber) (n : Nat) : Prop :=
  ∀ initial ∈ s.initial, ∀ i < n, initial ≤ i → cfg.wanted i = true → i ∈ s.handled

/-- The positions that the store has held. -/
def positions (s : Subscriber) : List Nat :=
  (s.first :: s.saved.map some).map cfg.history.position

/-- Events are delivered at least once and in order. -/
structure Delivers (s : Subscriber) : Prop where
  handledFirst : ∀ token ∈ s.saved, s.HandledUpTo cfg (cfg.history.position (some token))
  inOrder : ∀ initial ∈ s.initial, ∀ i j, initial ≤ i → i < j → i ∈ s.handled → j ∈ s.handled →
    s.handled.idxOf i < s.handled.idxOf j
  forwards : (s.positions cfg).Pairwise (· ≤ ·)

/-! ## When events are delivered -/

def busy (task : SubscriberTask) : Option Unit := (pendingOf task).map fun _ => ()

def live : SubscriberTask → Option Unit
  | .loop .ended => none
  | .loop _ => some ()
  | .message _ _ => none

/-- No batch is being processed. -/
def Free (s : Subscriber) : Prop := ¬ Tasks.Held busy s.tasks ()

/-- Nor is there a loop that goes on. -/
def Over (s : Subscriber) : Prop := ¬ Tasks.Held live s.tasks () ∧ s.Free

/-- The position is not before the stored cursor, and what comes before it has been handled. -/
def Reached (s : Subscriber) (n : Nat) : Prop :=
  cfg.history.position s.stored ≤ n ∧ s.HandledUpTo cfg n

/-- A subscriber is started after the loop of an earlier start has ended, and not from before the
stored cursor nor from past what was not handled; the cursor is announced and a message comes
only while no batch is being processed, and none comes after one of the same socket that failed. -/
def Careful (s : Subscriber) : SubscriberAction → Prop
  | .start (some cursor) => s.running = false →
    s.Over ∧ s.Reached cfg (cfg.history.position (some cursor))
  | .started ok => ok = true → s.Over
  | .opened _ => s.Free
  | .message k count => s.stopRequested = false → count ≠ 0 →
    s.Free ∧ .message k .failed ∉ s.tasks
  | _ => True

section Decidability

variable (s : Subscriber)

instance : Decidable s.Free := inferInstanceAs (Decidable (¬ Tasks.Held _ _ _))

instance : Decidable s.Over := inferInstanceAs (Decidable (_ ∧ _))

instance (n : Nat) : Decidable (s.HandledUpTo cfg n) :=
  inferInstanceAs (Decidable (∀ initial ∈ s.initial, ∀ i < n, _))

instance (n : Nat) : Decidable (s.Reached cfg n) := inferInstanceAs (Decidable (_ ∧ _))

instance (a : SubscriberAction) : Decidable (s.Careful cfg a) := by
  cases a with
  | start fromCursor => cases fromCursor <;> unfold Careful <;> infer_instance
  | _ => unfold Careful; infer_instance

end Decidability

/-! ## Positions -/

theorem position_token {history : EventHistory} {i : Nat} {token : String}
    (h : history.events[i]?.bind (·.token) = some token) :
    history.position (some token) = i + 1 := by
  obtain ⟨raw, hraw, htoken⟩ := Option.bind_eq_some_iff.mp h
  obtain ⟨hi, hget⟩ := List.getElem?_eq_some_iff.mp hraw
  have hne : token ≠ "" := of_decide_eq_true (Option.filter_eq_some_iff.mp htoken).2
  have hfound : history.events.findIdx? (fun e => decide (e.token = some token)) = some i := by
    refine List.findIdx?_eq_some_iff_getElem.mpr ⟨hi, ?_, fun j hj => ?_⟩
    · rw [hget]
      exact decide_eq_true htoken
    · rcases List.pairwise_iff_getElem.mp history.distinct j i _ hi hj with hnone | hother
      · rw [hnone]
        exact nofun
      · rw [hget, htoken] at hother
        exact fun heq => hother (of_decide_eq_true heq)
  unfold EventHistory.position
  split
  · rename_i heq
    cases heq
  · rename_i heq
    exact absurd (Option.some.inj heq) hne
  · rename_i cursor _ heq
    obtain rfl := Option.some.inj heq
    rw [hfound]

section Facts

variable {cfg} {s s' : Subscriber} {i n : Nat} {t t' : SubscriberTask}

theorem HandledUpTo.congr (h : s.HandledUpTo cfg n) (hinitial : s'.initial = s.initial)
    (hhandled : s.handled ⊆ s'.handled) : s'.HandledUpTo cfg n := by
  intro initial hi j hj hle hwanted
  exact hhandled (h initial (hinitial ▸ hi) j hj hle hwanted)

/-- One more event has been handled, or there was nothing to handle. -/
theorem HandledUpTo.succ (h : s.HandledUpTo cfg n)
    (hn : cfg.wanted n = true → n ∈ s.handled) : s.HandledUpTo cfg (n + 1) := by
  intro initial hinitial j hj hle hwanted
  rcases Nat.lt_or_ge j n with hlt | hge
  · exact h initial hinitial j hlt hle hwanted
  · obtain rfl : j = n := by omega
    exact hn hwanted

theorem Reached.succ (h : s.Reached cfg n) (hn : cfg.wanted n = true → n ∈ s.handled) :
    s.Reached cfg (n + 1) :=
  ⟨Nat.le_succ_of_le h.1, h.2.succ hn⟩

theorem Reached.congr (h : s.Reached cfg n) (hstored : s'.stored = s.stored)
    (hinitial : s'.initial = s.initial) (hhandled : s.handled ⊆ s'.handled) :
    s'.Reached cfg n := by
  refine ⟨?_, h.2.congr hinitial hhandled⟩
  rw [hstored]
  exact h.1

/-! ## What has been stored and handled -/

/-- What the log of handled events and the stored tokens say. -/
structure Kept (cfg : SubscriberConfig) (s : Subscriber) : Prop where
  stored : s.HandledUpTo cfg (cfg.history.position s.stored)
  before : ∀ initial ∈ s.initial, ∀ j ∈ s.handled, initial ≤ j → s.HandledUpTo cfg j
  inOrder : ∀ initial ∈ s.initial, ∀ i j, initial ≤ i → i < j → i ∈ s.handled → j ∈ s.handled →
    s.handled.idxOf i < s.handled.idxOf j
  saved : ∀ token ∈ s.saved, s.HandledUpTo cfg (cfg.history.position (some token))
  forwards : (s.positions cfg).Pairwise (· ≤ ·)
  latest : ∀ n ∈ s.positions cfg, n ≤ cfg.history.position s.stored

theorem Kept.delivers (h : Kept cfg s) : s.Delivers cfg := ⟨h.saved, h.inOrder, h.forwards⟩

theorem Kept.congr (h : Kept cfg s) (hstored : s'.stored = s.stored)
    (hinitial : s'.initial = s.initial) (hhandled : s'.handled = s.handled)
    (hsaved : s'.saved = s.saved) (hfirst : s'.first = s.first) : Kept cfg s' := by
  have hupTo : ∀ n, s.HandledUpTo cfg n → s'.HandledUpTo cfg n := fun n hn =>
    hn.congr hinitial (hhandled ▸ List.Subset.refl _)
  have hpositions : s'.positions cfg = s.positions cfg := by
    rw [positions, hfirst, hsaved]
    rfl
  constructor
  · rw [hstored]
    exact hupTo _ h.stored
  · intro initial hi j hj hle
    rw [hinitial] at hi
    rw [hhandled] at hj
    exact hupTo _ (h.before initial hi j hj hle)
  · rw [hinitial, hhandled]
    exact h.inOrder
  · intro token htoken
    rw [hsaved] at htoken
    exact hupTo _ (h.saved token htoken)
  · rw [hpositions]
    exact h.forwards
  · rw [hpositions, hstored]
    exact h.latest

/-- An event is handled after all that come before it. -/
theorem Kept.handle (h : Kept cfg s) (hbefore : s.HandledUpTo cfg n)
    (hwanted : cfg.wanted n = true) :
    Kept cfg { s with handled := s.handled ++ [n] } := by
  have hsubset : s.handled ⊆ s.handled ++ [n] := List.subset_append_left _ _
  have hupTo : ∀ m, s.HandledUpTo cfg m →
      HandledUpTo cfg { s with handled := s.handled ++ [n] } m := fun m hm => hm.congr rfl hsubset
  constructor
  · exact hupTo _ h.stored
  · intro initial hi j hj hle
    rcases List.mem_append.mp hj with hold | hnew
    · exact hupTo _ (h.before initial hi j hold hle)
    · obtain rfl := List.mem_singleton.mp hnew
      exact hupTo _ hbefore
  · intro initial hinitial x y hle hlt hx hy
    show (s.handled ++ [n]).idxOf x < (s.handled ++ [n]).idxOf y
    by_cases hyold : y ∈ s.handled
    · by_cases hxold : x ∈ s.handled
      · rw [List.idxOf_append_of_mem hxold, List.idxOf_append_of_mem hyold]
        exact h.inOrder initial hinitial x y hle hlt hxold hyold
      · -- `x` is what is handled now, and came before `y`.
        rcases List.mem_append.mp hx with hold | hnew
        · exact absurd hold hxold
        · obtain rfl := List.mem_singleton.mp hnew
          have hyle : initial ≤ y := Nat.le_trans hle (Nat.le_of_lt hlt)
          exact absurd (h.before initial hinitial y hyold hyle initial hinitial x hlt hle hwanted)
            hxold
    · rcases List.mem_append.mp hy with hold | hnew
      · exact absurd hold hyold
      · obtain rfl := List.mem_singleton.mp hnew
        have hxold : x ∈ s.handled := by
          rcases List.mem_append.mp hx with hold | hnew
          · exact hold
          · exact absurd (List.mem_singleton.mp hnew) (Nat.ne_of_lt hlt)
        rw [List.idxOf_append_of_mem hxold, List.idxOf_append_of_notMem hyold]
        exact Nat.lt_of_lt_of_le (List.idxOf_lt_length_iff.mpr hxold) (Nat.le_add_right _ _)
  · intro token htoken
    exact hupTo _ (h.saved token htoken)
  · exact h.forwards
  · exact h.latest

/-- The cursor that is stored is not before the one that was. -/
theorem Kept.save (h : Kept cfg s) {token : String}
    (hreached : s.Reached cfg (cfg.history.position (some token))) :
    Kept cfg { s with stored := some token, saved := s.saved ++ [token] } := by
  have hpositions : positions cfg { s with stored := some token, saved := s.saved ++ [token] } =
      s.positions cfg ++ [cfg.history.position (some token)] := by
    simp only [positions, List.map_append, List.map_cons, List.map_nil, List.cons_append]
  constructor
  · exact hreached.2
  · exact h.before
  · exact h.inOrder
  · intro x hx
    rcases List.mem_append.mp hx with hold | hnew
    · exact h.saved x hold
    · obtain rfl := List.mem_singleton.mp hnew
      exact hreached.2
  · rw [hpositions, List.pairwise_append]
    refine ⟨h.forwards, List.pairwise_singleton _ _, fun x hx y hy => ?_⟩
    obtain rfl := List.mem_singleton.mp hy
    exact Nat.le_trans (h.latest x hx) hreached.1
  · rw [hpositions]
    intro x hx
    rcases List.mem_append.mp hx with hold | hnew
    · exact Nat.le_trans (h.latest x hold) hreached.1
    · exact Nat.le_of_eq (List.mem_singleton.mp hnew)

/-! ## Batches -/

/-- The event before which everything has been handled. -/
def reachedBy : Pending → Nat
  | .emit i _ => i
  | .save _ i _ => i + 1

/-- Where the batch ends. -/
def endOf : Pending → Nat
  | .emit i rest | .save _ i rest => i + 1 + rest

/-- The batch goes on from where everything before has been handled; a token that is being stored
is that of the event and the cursor. -/
structure Fits (cfg : SubscriberConfig) (s : Subscriber) (pending : Pending) : Prop where
  reached : s.Reached cfg (reachedBy pending)
  within : endOf pending ≤ cfg.history.events.length
  saving : ∀ token i rest, pending = .save token i rest →
    cfg.history.events[i]?.bind (·.token) = some token ∧ s.cursor = some token

/-- Where `processBatch` gets to. -/
structure Proceeds (cfg : SubscriberConfig) (s : Subscriber) (last : Nat)
    (result : Option String × Option Pending) : Prop where
  cursor : s.Reached cfg (cfg.history.position result.1)
  pending : ∀ pending, result.2 = some pending →
    Fits cfg { s with cursor := result.1 } pending ∧ endOf pending = last
  finished : result.2 = none → s.stopRequested = true ∨ s.Reached cfg last

theorem processToken {i rest : Nat} {token : String}
    (htoken : cfg.history.events[i]?.bind (·.token) = some token) (hreached : s.Reached cfg (i + 1))
    (hwithin : i + 1 + rest ≤ cfg.history.events.length) :
    Proceeds cfg s (i + 1 + rest) (some token, some (.save token i rest)) := by
  refine ⟨?_, fun pending hpending => ?_, nofun⟩
  · rw [position_token htoken]
    exact hreached
  · obtain rfl := Option.some.inj hpending
    refine ⟨⟨hreached, hwithin, fun token' i' rest' heq => ?_⟩, rfl⟩
    obtain ⟨rfl, rfl, rfl⟩ := Pending.save.inj heq
    exact ⟨htoken, rfl⟩

theorem processFrom_spec {cursor : Option String} {i count : Nat}
    (hcursor : s.Reached cfg (cfg.history.position cursor)) (hreached : s.Reached cfg i)
    (hwithin : i + count ≤ cfg.history.events.length) :
    Proceeds cfg s (i + count) (processFrom cfg s.stopRequested cursor i count) := by
  induction count generalizing i with
  | zero => exact ⟨hcursor, nofun, fun _ => Or.inr hreached⟩
  | succ rest ih =>
    rw [processFrom]
    have hlast : i + (rest + 1) = i + 1 + rest := by omega
    split
    · rename_i hstop
      exact ⟨hcursor, nofun, fun _ => Or.inl hstop⟩
    · split
      · rename_i hnone
        have hge := List.getElem?_eq_none_iff.mp hnone
        omega
      · rename_i raw hraw
        split
        · refine ⟨hcursor, fun pending hpending => ?_, nofun⟩
          obtain rfl := Option.some.inj hpending
          have hend : i + 1 + rest ≤ cfg.history.events.length := hlast ▸ hwithin
          exact ⟨⟨hreached, hend, nofun⟩, hlast.symm⟩
        · -- An event that is not recognised needs no handler.
          rename_i hparsed
          have hunwanted : cfg.wanted i = true → i ∈ s.handled := by
            intro hwanted
            rw [SubscriberConfig.wanted, hraw, Option.bind_some, hparsed] at hwanted
            cases hwanted
          have hsucc := hreached.succ hunwanted
          split
          · rename_i token htoken
            rw [hlast]
            refine processToken ?_ hsucc (hlast ▸ hwithin)
            rw [hraw]
            exact htoken
          · rw [hlast]
            exact ih hsucc (hlast ▸ hwithin)

theorem processEmitted_spec {cursor : Option String} {i rest : Nat}
    (hcursor : s.Reached cfg (cfg.history.position cursor)) (hreached : s.Reached cfg (i + 1))
    (hwithin : i + 1 + rest ≤ cfg.history.events.length) :
    Proceeds cfg s (i + 1 + rest) (processEmitted cfg s.stopRequested cursor i rest) := by
  rw [processEmitted]
  split
  · rename_i token htoken
    exact processToken htoken hreached hwithin
  · exact processFrom_spec hcursor hreached hwithin

end Facts

end Subscriber
end Sdk
end Linkora
