import Mathlib.Data.List.Count
import Mathlib.Algebra.Order.Group.Int

/-!
# Sliding windows

A limiter of requests keeps a log of times and lets a request pass while the log has few enough
of them in the window that ends now.  The log may note more than what has passed, and it may
forget what has left the window: what has passed never exceeds the limit in any window.
-/

namespace Linkora
namespace Window

/-- What is left of a log in the window that ends at `now`. -/
def recent (w now : Int) (log : List Int) : List Int := log.filter fun t => now - w < t

theorem countP_recent {w now c : Int} (hc : now - w ≤ c) (log : List Int) :
    (recent w now log).countP (c < ·) = log.countP (c < ·) := by
  rw [recent, List.countP_filter]
  apply List.countP_congr
  intro t _
  simp only [Bool.and_eq_true, decide_eq_true_eq]
  omega

/-- How many of the times lie in the window behind `a`. -/
def within (w a : Int) (times : List Int) : Nat := times.countP fun t => a < t ∧ t ≤ a + w

/-- Up to `last`, the log covers what has passed, and the limit was kept. -/
structure Holds (w : Int) (limit : Nat) (last : Int) (passed log : List Int) : Prop where
  passed_le : ∀ t ∈ passed, t ≤ last
  covers : ∀ c, last - w ≤ c → passed.countP (c < ·) ≤ log.countP (c < ·)
  bounded : ∀ a, within w a passed ≤ limit

variable {w last now : Int} {limit : Nat} {passed log : List Int}

theorem holds_nil : Holds w limit last [] [] where
  passed_le _ h := absurd h List.not_mem_nil
  covers _ _ := Nat.le_refl _
  bounded _ := Nat.zero_le _

theorem Holds.wait (h : Holds w limit last passed log) (hle : last ≤ now) :
    Holds w limit now passed log where
  passed_le t ht := (h.passed_le t ht).trans hle
  covers c hc := h.covers c (by omega)
  bounded := h.bounded

/-- What has left the window is forgotten, and a refused request may be noted. -/
theorem Holds.refuse (h : Holds w limit now passed log) (noted : List Int) :
    Holds w limit now passed (recent w now log ++ noted) where
  passed_le := h.passed_le
  covers c hc := by
    rw [List.countP_append, countP_recent hc]
    exact (h.covers c hc).trans (Nat.le_add_right _ _)
  bounded := h.bounded

/-- A request passes when there is room in the window that ends now. -/
theorem Holds.pass (h : Holds w limit now passed log) (hroom : (recent w now log).length < limit) :
    Holds w limit now (passed ++ [now]) (recent w now log ++ [now]) where
  passed_le t ht := by
    rcases List.mem_append.mp ht with ht | ht
    · exact h.passed_le t ht
    · exact (List.mem_singleton.mp ht).le
  covers c hc := by
    rw [List.countP_append, List.countP_append, countP_recent hc]
    exact Nat.add_le_add_right (h.covers c hc) _
  bounded a := by
    rw [within, List.countP_append]
    by_cases hin : a < now ∧ now ≤ a + w
    · -- what has passed in this window is still in the log
      have hpassed : passed.countP (fun t => a < t ∧ t ≤ a + w) ≤ passed.countP (a < ·) :=
        List.countP_mono_left fun t _ ht => by
          simp only [decide_eq_true_eq] at ht ⊢
          exact ht.1
      have ha : now - w ≤ a := by omega
      have hlog : passed.countP (a < ·) ≤ (recent w now log).length := by
        calc passed.countP (a < ·) ≤ log.countP (a < ·) := h.covers a ha
          _ = (recent w now log).countP (a < ·) := (countP_recent ha log).symm
          _ ≤ (recent w now log).length := List.countP_le_length
      have hone : [now].countP (fun t => a < t ∧ t ≤ a + w) ≤ 1 := List.countP_le_length
      omega
    · have hnone : [now].countP (fun t => a < t ∧ t ≤ a + w) = 0 := by
        rw [List.countP_singleton]
        exact if_neg (by simpa using hin)
      rw [hnone]
      exact h.bounded a

/-- A log may be dropped when all that has passed has left the window. -/
theorem Holds.drop (h : Holds w limit now passed log) (hold : ∀ t ∈ passed, t ≤ now - w) :
    Holds w limit now passed [] where
  passed_le := h.passed_le
  covers c hc := by
    have hzero : passed.countP (c < ·) = 0 := by
      rw [List.countP_eq_zero]
      intro t ht
      have hle := hold t ht
      simp only [decide_eq_true_eq]
      omega
    rw [hzero]
    exact Nat.zero_le _
  bounded := h.bounded

end Window
end Linkora
