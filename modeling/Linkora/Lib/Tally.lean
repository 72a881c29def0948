import Mathlib.Algebra.Group.Defs
import Linkora.Lib.Run

/-!
# Runs with a running total

Every step of a run contributes an amount, which may depend on the state the step starts
from, and the run carries the sum along.
-/

namespace Linkora

universe u v w

variable {α : Type u} {ℓ : Type v} {M : Type w} [AddMonoid M]

/-- `Tally Step f a ls b n`: the labels `ls` lead from `a` to `b`, and what `f` gives to
the steps adds up to `n`. -/
inductive Tally (Step : α → ℓ → α → Prop) (f : α → ℓ → M) (a : α) : List ℓ → α → M → Prop where
  | nil : Tally Step f a [] a 0
  | snoc {ls : List ℓ} {b c : α} {l : ℓ} {n : M} :
      Tally Step f a ls b n → Step b l c → Tally Step f a (ls ++ [l]) c (n + f b l)

namespace Tally

variable {Step : α → ℓ → α → Prop} {f : α → ℓ → M} {a b : α} {ls : List ℓ} {n : M}

/-- Every run has a total. -/
theorem of_run (h : Run Step a ls b) : ∃ n, Tally Step f a ls b n := by
  induction h with
  | nil => exact ⟨0, .nil⟩
  | snoc _ hl ih =>
    obtain ⟨n, hn⟩ := ih
    exact ⟨_, .snoc hn hl⟩

/-- What relates a state to the total so far, and is kept by every step with what the step
contributes, relates the end of a run to its total. -/
theorem invariant {I : α → M → Prop} (hstep : ∀ b l c n, I b n → Step b l c → I c (n + f b l))
    (h : Tally Step f a ls b n) (ha : I a 0) : I b n := by
  induction h with
  | nil => exact ha
  | snoc _ hl ih => exact hstep _ _ _ _ ih hl

end Tally
end Linkora
