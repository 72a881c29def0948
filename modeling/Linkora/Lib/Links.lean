import Mathlib.Data.List.Basic
import Mathlib.Data.List.Induction
import Mathlib.Data.List.Nodup
import Mathlib.Logic.Function.Basic

/-!
# Doubly linked lists

Nodes that point at the next and at the previous one.  A list of nodes between two fixed ones is
linked when both pointers of neighbours agree; taking a node out and putting one in front
change a few pointers, and the list changes as it should.
-/

namespace Linkora

universe u

structure Links (ν : Type u) where
  next : ν → Option ν
  prev : ν → Option ν

namespace Links

variable {ν : Type u}

/-- The nodes `xs` stand between `a` and `b`, and the pointers of neighbours agree. -/
def Linked (l : Links ν) : ν → List ν → ν → Prop
  | a, [], b => l.next a = some b ∧ l.prev b = some a
  | a, x :: xs, b => (l.next a = some x ∧ l.prev x = some a) ∧ l.Linked x xs b

/-- Follow a pointer up to `stop`, over at most so many nodes. -/
def follow (step : ν → Option ν) [DecidableEq ν] (stop : ν) : Nat → ν → List ν
  | 0, _ => []
  | n + 1, a =>
    match step a with
    | none => []
    | some b => if b = stop then [] else b :: follow step stop n b

section

variable [DecidableEq ν]

/-- Take a node out: its neighbours point at each other, and it points nowhere. -/
def removeNode (l : Links ν) (n : ν) : Option (Links ν) := do
  let p ← l.prev n
  let q ← l.next n
  some {
    next := Function.update (Function.update l.next p (some q)) n none
    prev := Function.update (Function.update l.prev q (some p)) n none }

/-- Put a node between `a` and what comes after it. -/
def insertAfter (l : Links ν) (a n : ν) : Option (Links ν) := do
  let q ← l.next a
  some {
    next := Function.update (Function.update l.next n (some q)) a (some n)
    prev := Function.update (Function.update l.prev n (some a)) q (some n) }

end

variable {l l' : Links ν} {a b c n : ν} {xs ys : List ν}

theorem linked_append : l.Linked a (xs ++ n :: ys) b ↔ l.Linked a xs n ∧ l.Linked n ys b := by
  induction xs generalizing a with
  | nil => exact Iff.rfl
  | cons x xs ih =>
    show (_ ∧ l.Linked x (xs ++ n :: ys) b) ↔ (_ ∧ l.Linked x xs n) ∧ _
    rw [ih]
    exact and_assoc.symm

/-- Only the pointers between the ends matter. -/
theorem Linked.congr (h : l.Linked a xs b) (hnext : ∀ x ∈ a :: xs, l'.next x = l.next x)
    (hprev : ∀ x ∈ xs ++ [b], l'.prev x = l.prev x) : l'.Linked a xs b := by
  induction xs generalizing a with
  | nil => exact ⟨(hnext a (by simp)).trans h.1, (hprev b (by simp)).trans h.2⟩
  | cons x xs ih =>
    refine ⟨⟨(hnext a (by simp)).trans h.1.1, (hprev x (by simp)).trans h.1.2⟩, ih h.2 ?_ ?_⟩
    · exact fun y hy => hnext y (List.mem_cons_of_mem _ hy)
    · exact fun y hy => hprev y (List.mem_cons_of_mem _ hy)

/-- The last node, and how to let it point at another end. -/
theorem Linked.last (h : l.Linked a xs b) (hnodup : (a :: xs).Nodup) :
    ∃ p ∈ a :: xs, l.prev b = some p ∧ ∀ (l' : Links ν) c, l'.next p = some c →
      l'.prev c = some p → (∀ x ∈ a :: xs, x ≠ p → l'.next x = l.next x) →
      (∀ x ∈ xs, l'.prev x = l.prev x) → l'.Linked a xs c := by
  induction xs generalizing a with
  | nil => exact ⟨a, List.mem_cons_self, h.2, fun l' c hnext hprev _ _ => ⟨hnext, hprev⟩⟩
  | cons x xs ih =>
    obtain ⟨hnew, hnodup'⟩ := List.nodup_cons.mp hnodup
    obtain ⟨p, hp, hlast, hrest⟩ := ih h.2 hnodup'
    have hap : a ≠ p := fun heq => hnew (heq ▸ hp)
    refine ⟨p, List.mem_cons_of_mem _ hp, hlast, fun l' c hnext hprev hnexts hprevs => ?_⟩
    refine ⟨⟨?_, ?_⟩, hrest l' c hnext hprev ?_ ?_⟩
    · exact (hnexts a List.mem_cons_self hap).trans h.1.1
    · exact (hprevs x List.mem_cons_self).trans h.1.2
    · exact fun y hy => hnexts y (List.mem_cons_of_mem _ hy)
    · exact fun y hy => hprevs y (List.mem_cons_of_mem _ hy)

/-- The first node, and how to let another begin point at it. -/
theorem Linked.first (h : l.Linked a xs b) (hnodup : (xs ++ [b]).Nodup) :
    ∃ q ∈ xs ++ [b], l.next a = some q ∧ ∀ (l' : Links ν) c, l'.next c = some q →
      l'.prev q = some c → (∀ x ∈ xs, l'.next x = l.next x) →
      (∀ x ∈ xs ++ [b], x ≠ q → l'.prev x = l.prev x) → l'.Linked c xs b := by
  cases xs with
  | nil => exact ⟨b, by simp, h.1, fun l' c hnext hprev _ _ => ⟨hnext, hprev⟩⟩
  | cons x xs =>
    obtain ⟨hnew, -⟩ := List.nodup_cons.mp hnodup
    refine ⟨x, by simp, h.1.1, fun l' c hnext hprev hnexts hprevs => ⟨⟨hnext, hprev⟩, ?_⟩⟩
    refine h.2.congr hnexts fun y hy => hprevs y (List.mem_cons_of_mem _ hy) ?_
    rintro rfl
    exact hnew hy

theorem Linked.prev_eq (h : l.Linked a xs b) : l.prev b = some (xs.getLastD a) := by
  rcases List.eq_nil_or_concat' xs with rfl | ⟨xs, n, rfl⟩
  · exact h.2
  · rw [List.getLastD_concat]
    exact (linked_append.mp h).2.2

section

variable [DecidableEq ν]

theorem removeNode_linked (h : l.Linked a (xs ++ n :: ys) b)
    (hnodup : (a :: (xs ++ n :: ys ++ [b])).Nodup) :
    ∃ l', l.removeNode n = some l' ∧ l'.Linked a (xs ++ ys) b := by
  obtain ⟨hbefore, hafter⟩ := linked_append.mp h
  have hnodup' : (a :: xs ++ n :: (ys ++ [b])).Nodup := by
    rwa [List.append_assoc] at hnodup
  obtain ⟨hleft, hright, hapart⟩ := List.nodup_append.mp hnodup'
  obtain ⟨hn, htail⟩ := List.nodup_cons.mp hright
  obtain ⟨p, hp, hprev, hlast⟩ := hbefore.last hleft
  obtain ⟨q, hq, hnext, hfirst⟩ := hafter.first htail
  have hnp : n ≠ p := fun heq => hapart p hp n List.mem_cons_self heq.symm
  have hnq : n ≠ q := fun heq => hn (heq ▸ hq)
  have hpq : ∀ x ∈ a :: xs, ∀ y ∈ ys ++ [b], x ≠ y := fun x hx y hy =>
    hapart x hx y (List.mem_cons_of_mem _ hy)
  have hnleft : ∀ x ∈ a :: xs, x ≠ n := fun x hx => hapart x hx n List.mem_cons_self
  have hnright : ∀ y ∈ ys ++ [b], y ≠ n := fun y hy heq => hn (heq ▸ hy)
  refine ⟨_, by rw [removeNode, hprev, hnext]; rfl, ?_⟩
  generalize hl' : (Links.mk (Function.update (Function.update l.next p (some q)) n none)
    (Function.update (Function.update l.prev q (some p)) n none)) = l'
  have hnew : l'.next = Function.update (Function.update l.next p (some q)) n none ∧
      l'.prev = Function.update (Function.update l.prev q (some p)) n none := by
    rw [← hl']
    exact ⟨rfl, rfl⟩
  have hnexts : ∀ x, x ≠ n → x ≠ p → l'.next x = l.next x := fun x hx hxp => by
    rw [hnew.1, Function.update_of_ne hx, Function.update_of_ne hxp]
  have hprevs : ∀ x, x ≠ n → x ≠ q → l'.prev x = l.prev x := fun x hx hxq => by
    rw [hnew.2, Function.update_of_ne hx, Function.update_of_ne hxq]
  have hnextp : l'.next p = some q := by
    rw [hnew.1, Function.update_of_ne hnp.symm, Function.update_self]
  have hprevq : l'.prev q = some p := by
    rw [hnew.2, Function.update_of_ne hnq.symm, Function.update_self]
  -- The left part now ends at `q`, which is the first of the right part or `b`.
  have hleft' : l'.Linked a xs q := by
    refine hlast l' q hnextp hprevq (fun x hx hxp => hnexts x (hnleft x hx) hxp) fun x hx => ?_
    have hx' := List.mem_cons_of_mem a hx
    exact hprevs x (hnleft x hx') (hpq x hx' q hq)
  have hright' := hfirst l' p hnextp hprevq
    (fun y hy => hnexts y (hnright y (List.mem_append_left _ hy))
      (hpq p hp y (List.mem_append_left _ hy)).symm)
    fun y hy hyq => hprevs y (hnright y hy) hyq
  cases ys with
  | nil =>
    have hqb : q = b := by
      rw [List.nil_append] at hq
      exact List.mem_singleton.mp hq
    rw [List.append_nil, ← hqb]
    exact hleft'
  | cons y ys =>
    have hqy : q = y := Option.some.inj (hnextp.symm.trans hright'.1.1)
    rw [linked_append, ← hqy]
    exact ⟨hleft', hqy ▸ hright'.2⟩

theorem insertAfter_linked (h : l.Linked a xs b) (hnodup : (a :: (xs ++ [b])).Nodup)
    (hn : n ∉ a :: (xs ++ [b])) :
    ∃ l', l.insertAfter a n = some l' ∧ l'.Linked a (n :: xs) b := by
  obtain ⟨ha, htail⟩ := List.nodup_cons.mp hnodup
  obtain ⟨hna, hntail⟩ := not_or.mp (List.mem_cons.not.mp hn)
  obtain ⟨q, hq, hnext, hfirst⟩ := h.first htail
  have hnq : n ≠ q := fun heq => hntail (heq ▸ hq)
  refine ⟨_, by rw [insertAfter, hnext]; rfl, ⟨?_, ?_⟩, hfirst _ n ?_ ?_ ?_ ?_⟩
  · exact Function.update_self _ _ _
  · show Function.update (Function.update l.prev n (some a)) q (some n) n = some a
    rw [Function.update_of_ne hnq, Function.update_self]
  · show Function.update (Function.update l.next n (some q)) a (some n) n = some q
    rw [Function.update_of_ne hna, Function.update_self]
  · exact Function.update_self _ _ _
  · intro x hx
    have hxa : x ≠ a := fun heq => ha (heq ▸ List.mem_append_left _ hx)
    have hxn : x ≠ n := fun heq => hntail (heq ▸ List.mem_append_left _ hx)
    show Function.update (Function.update l.next n (some q)) a (some n) x = l.next x
    rw [Function.update_of_ne hxa, Function.update_of_ne hxn]
  · intro x hx hxq
    have hxn : x ≠ n := fun heq => hntail (heq ▸ hx)
    show Function.update (Function.update l.prev n (some a)) q (some n) x = l.prev x
    rw [Function.update_of_ne hxq, Function.update_of_ne hxn]

/-! ## Reading the list -/

theorem follow_next (h : l.Linked a xs b) (hb : b ∉ xs) {k : Nat} (hk : xs.length < k) :
    follow l.next b k a = xs := by
  induction xs generalizing a k with
  | nil =>
    obtain ⟨k, rfl⟩ : ∃ m, k = m + 1 := ⟨k - 1, by omega⟩
    simp [follow, h.1]
  | cons x xs ih =>
    obtain ⟨k, rfl⟩ : ∃ m, k = m + 1 := ⟨k - 1, by omega⟩
    have hxb : x ≠ b := fun heq => hb (heq ▸ List.mem_cons_self)
    have hrest : follow l.next b k x = xs :=
      ih h.2 (fun hmem => hb (List.mem_cons_of_mem _ hmem)) (by simpa using hk)
    simp [follow, h.1.1, hxb, hrest]

theorem follow_prev (h : l.Linked a xs b) (ha : a ∉ xs) {k : Nat} (hk : xs.length < k) :
    follow l.prev a k b = xs.reverse := by
  induction xs using List.reverseRecOn generalizing b k with
  | nil =>
    obtain ⟨k, rfl⟩ : ∃ m, k = m + 1 := ⟨k - 1, by omega⟩
    simp [follow, h.2]
  | append_singleton xs x ih =>
    obtain ⟨k, rfl⟩ : ∃ m, k = m + 1 := ⟨k - 1, by omega⟩
    obtain ⟨hbefore, hlast⟩ := linked_append.mp h
    have hxa : x ≠ a := fun heq => ha (heq ▸ List.mem_append_right _ List.mem_cons_self)
    have hrest : follow l.prev a k x = xs.reverse :=
      ih hbefore (fun hmem => ha (List.mem_append_left _ hmem)) (by simpa using hk)
    simp [follow, hlast.2, hxa, hrest]

end

end Links
end Linkora
