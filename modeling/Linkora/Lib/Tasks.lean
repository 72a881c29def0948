import Mathlib.Data.List.Basic

/-!
# Tasks side by side

A list of tasks of which each step replaces one, or adds one.  What a task holds no other task
holds, as long as a task takes only what nobody holds.
-/

namespace Linkora

universe u v

theorem getElem?_set_cases {α : Type u} {l : List α} {x y : Nat} {a b : α}
    (h : (l.set x a)[y]? = some b) : y = x ∧ b = a ∨ y ≠ x ∧ l[y]? = some b := by
  rw [List.getElem?_set] at h
  split at h
  · split at h
    · exact Or.inl ⟨Eq.symm ‹_›, (Option.some.inj h).symm⟩
    · cases h
  · exact Or.inr ⟨Ne.symm ‹_›, h⟩

theorem getElem?_snoc {α : Type u} {l : List α} {x : Nat} {a b : α}
    (h : (l ++ [a])[x]? = some b) : l[x]? = some b ∨ x = l.length ∧ b = a := by
  rcases Nat.lt_or_ge x l.length with hlt | hge
  · rw [List.getElem?_append_left hlt] at h
    exact Or.inl h
  · rw [List.getElem?_append_right hge] at h
    obtain ⟨hx, hb⟩ := List.getElem?_eq_some_iff.mp h
    rw [List.length_singleton] at hx
    refine Or.inr ⟨by omega, ?_⟩
    rw [← hb]
    exact List.getElem_singleton hx

namespace Tasks

variable {τ : Type u} {κ : Type v} (holds : τ → Option κ)

def Held (tasks : List τ) (k : κ) : Prop := ∃ t ∈ tasks, holds t = some k

/-- No two tasks hold the same. -/
def Exclusive (tasks : List τ) : Prop :=
  ∀ (i j : Nat) t t' k, tasks[i]? = some t → tasks[j]? = some t' → holds t = some k →
    holds t' = some k → i = j

instance [DecidableEq κ] (tasks : List τ) (k : κ) : Decidable (Held holds tasks k) :=
  inferInstanceAs (Decidable (∃ t ∈ tasks, _))

variable {holds} {tasks : List τ} {i : Nat} {t t' : τ} {k : κ}

theorem Exclusive.nil : Exclusive holds [] := nofun

theorem Held.of_getElem? (ht : tasks[i]? = some t) (hk : holds t = some k) :
    Held holds tasks k :=
  ⟨t, List.mem_of_getElem? ht, hk⟩

/-- The task at `i` may go on to hold what it held or what nobody holds. -/
theorem Exclusive.set (h : Exclusive holds tasks) (ht : tasks[i]? = some t)
    (hnew : ∀ k, holds t' = some k → holds t = some k ∨ ¬ Held holds tasks k) :
    Exclusive holds (tasks.set i t') := by
  -- Another task that holds the same contradicts either way of coming to hold it.
  have hother : ∀ (j : Nat) x k, tasks[j]? = some x → holds x = some k → holds t' = some k →
      i = j := by
    intro j x k hj hx hk
    rcases hnew k hk with hold | hnobody
    · exact h i j t x k ht hj hold hx
    · exact absurd (Held.of_getElem? hj hx) hnobody
  intro x y a b k hx hy ha hb
  rcases getElem?_set_cases hx with ⟨hxi, rfl⟩ | ⟨_, hxold⟩
  · rcases getElem?_set_cases hy with ⟨hyi, _⟩ | ⟨_, hyold⟩
    · exact hxi.trans hyi.symm
    · exact hxi.trans (hother y b k hyold hb ha)
  · rcases getElem?_set_cases hy with ⟨hyi, rfl⟩ | ⟨_, hyold⟩
    · exact (hother x a k hxold ha hb).symm.trans hyi.symm
    · exact h x y a b k hxold hyold ha hb

/-- A new task may hold what nobody holds. -/
theorem Exclusive.append (h : Exclusive holds tasks)
    (hnew : ∀ k, holds t = some k → ¬ Held holds tasks k) : Exclusive holds (tasks ++ [t]) := by
  intro x y a b k hx hy ha hb
  rcases getElem?_snoc hx with hxold | ⟨hxlast, rfl⟩
  · rcases getElem?_snoc hy with hyold | ⟨_, rfl⟩
    · exact h x y a b k hxold hyold ha hb
    · exact absurd (Held.of_getElem? hxold ha) (hnew k hb)
  · rcases getElem?_snoc hy with hyold | ⟨hylast, _⟩
    · exact absurd (Held.of_getElem? hyold hb) (hnew k ha)
    · exact hxlast.trans hylast.symm

/-- What is held stays held, unless the task at `i` lets go of it. -/
theorem Held.set (h : Held holds tasks k) (ht : tasks[i]? = some t)
    (hkept : holds t = some k → holds t' = some k) : Held holds (tasks.set i t') k := by
  obtain ⟨x, hx, hk⟩ := h
  obtain ⟨j, hj⟩ := List.getElem?_of_mem hx
  rcases eq_or_ne i j with rfl | hne
  · obtain rfl := Option.some.inj (ht.symm.trans hj)
    obtain ⟨hlt, -⟩ := List.getElem?_eq_some_iff.mp ht
    exact Held.of_getElem? (List.getElem?_set_self hlt) (hkept hk)
  · have hsame : (tasks.set i t')[j]? = some x := by
      rw [List.getElem?_set_ne hne]
      exact hj
    exact Held.of_getElem? hsame hk

end Tasks
end Linkora
