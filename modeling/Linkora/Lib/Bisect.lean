import Mathlib.Order.Nat

/-!
# Searching by halves

The first place between two bounds where a test holds, looked for by halving the range.  A test
that fails where it should hold sends the search past the place for good, so the search finds the
place exactly if the test holds at the probes behind it.
-/

namespace Linkora
namespace Bisect

def search (p : Nat → Bool) (lo hi : Nat) : Nat :=
  if lo < hi then
    let mid := (lo + hi) / 2
    if p mid = true then search p lo mid else search p (mid + 1) hi
  else lo
termination_by hi - lo

/-- Where a search that ends at `e` looks. -/
def probes (e lo hi : Nat) : List Nat :=
  if lo < hi then
    let mid := (lo + hi) / 2
    mid :: if e ≤ mid then probes e lo mid else probes e (mid + 1) hi
  else []
termination_by hi - lo

section Search

variable {p : Nat → Bool} {e lo hi : Nat}

theorem search_of_le (h : hi ≤ lo) : search p lo hi = lo := by
  rw [search, if_neg (Nat.not_lt.mpr h)]

theorem search_of_pos (h : lo < hi) (hp : p ((lo + hi) / 2) = true) :
    search p lo hi = search p lo ((lo + hi) / 2) := by
  rw [search, if_pos h]
  exact if_pos hp

theorem search_of_neg (h : lo < hi) (hp : p ((lo + hi) / 2) = false) :
    search p lo hi = search p ((lo + hi) / 2 + 1) hi := by
  rw [search, if_pos h]
  exact if_neg (by rw [hp]; exact Bool.false_ne_true)

theorem le_search (p : Nat → Bool) (lo hi : Nat) : lo ≤ search p lo hi := by
  fun_induction search p lo hi with
  | case1 lo hi hlt mid hp ih => exact ih
  | case2 lo hi hlt mid hp ih => omega
  | case3 lo hi hlt => exact Nat.le_refl lo

theorem le_search_of_below (hlo : lo ≤ e) (hhi : e ≤ hi) (hbelow : ∀ m, m < e → p m = false) :
    e ≤ search p lo hi := by
  fun_induction search p lo hi with
  | case1 lo hi hlt mid hp ih =>
    have hmid : e ≤ mid := by
      by_contra hm
      rw [hbelow mid (by omega)] at hp
      cases hp
    exact ih hlo hmid
  | case2 lo hi hlt mid hp ih =>
    rcases Nat.lt_or_ge mid e with hmid | hmid
    · exact ih hmid hhi
    · have hpast : mid + 1 ≤ search p (mid + 1) hi := le_search p (mid + 1) hi
      omega
  | case3 lo hi hlt => omega

/-- The search ends no later than at `e`, below which nothing passes, exactly if all of the
probes from `e` on pass. -/
theorem search_le_iff (hlo : lo ≤ e) (hhi : e ≤ hi) (hbelow : ∀ m, m < e → p m = false) :
    search p lo hi ≤ e ↔ ∀ m ∈ probes e lo hi, e ≤ m → p m = true := by
  fun_induction probes e lo hi with
  | case1 lo hi hlt mid ih₁ ih₂ =>
    rw [List.forall_mem_cons]
    by_cases hmid : e ≤ mid
    · rw [if_pos hmid]
      by_cases hp : p mid = true
      · rw [search_of_pos hlt hp, ih₁ hlo hmid]
        exact ⟨fun h => ⟨fun _ => hp, h⟩, fun h => h.2⟩
      · -- past the place, the search does not come back
        rw [search_of_neg hlt (by simpa using hp)]
        have hpast := le_search p ((lo + hi) / 2 + 1) hi
        exact ⟨fun h => by omega, fun h => absurd (h.1 hmid) hp⟩
    · rw [if_neg hmid, search_of_neg hlt (hbelow mid (by omega)), ih₂ (by omega) hhi]
      exact ⟨fun h => ⟨fun he => absurd he hmid, h⟩, fun h => h.2⟩
  | case2 lo hi hlt =>
    rw [search_of_le (by omega)]
    exact ⟨fun _ m hm => absurd hm List.not_mem_nil, fun _ => hlo⟩

end Search

end Bisect
end Linkora
