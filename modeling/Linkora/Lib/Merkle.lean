import Mathlib.Algebra.Group.Nat.Defs
import Mathlib.Data.List.Basic

/-!
# Merkle trees, layer by layer

A layer of odd length repeats its last node, and the nodes of the layer above are the
pairs of neighbours.  With a node function that does not look at the order of its two
arguments, the path of a leaf needs no directions: folding the leaf with the siblings
on its way gives the root.
-/

namespace Linkora
namespace Merkle

universe u

variable {α : Type u} (h : α → α → α)

/-- A layer of odd length repeats its last node. -/
def pad (l : List α) : List α :=
  if l.length % 2 = 1 then l ++ l.getLast?.toList else l

/-- Pairs of neighbours; a node without a neighbour is dropped. -/
def pairs : List α → List α
  | [] => []
  | [_] => []
  | a :: b :: rest => h a b :: pairs rest

/-- The layer above. -/
def above (l : List α) : List α := pairs h (pad l)

theorem length_pad (l : List α) : (pad l).length = l.length + l.length % 2 := by
  unfold pad
  split
  · rename_i hodd
    cases l with
    | nil => simp at hodd
    | cons a rest => simp [List.getLast?_cons] at hodd ⊢; omega
  · omega

theorem getElem?_pad {l : List α} {i : Nat} (hi : i < l.length) : (pad l)[i]? = l[i]? := by
  unfold pad
  split
  · exact List.getElem?_append_left hi
  · rfl

theorem length_pairs (l : List α) : (pairs h l).length = l.length / 2 := by
  induction l using pairs.induct with
  | case1 => rw [pairs, List.length_nil]
  | case2 a => rw [pairs, List.length_nil, List.length_singleton]
  | case3 a b rest ih =>
    rw [pairs, List.length_cons, ih, List.length_cons, List.length_cons]
    omega

theorem length_above (l : List α) : (above h l).length = (l.length + 1) / 2 := by
  rw [above, length_pairs, length_pad]
  omega

theorem getElem?_pairs {l : List α} {i : Nat} {a b : α} (ha : l[2 * i]? = some a)
    (hb : l[2 * i + 1]? = some b) : (pairs h l)[i]? = some (h a b) := by
  induction i generalizing l with
  | zero =>
    match l, ha, hb with
    | [], ha, _ => cases ha
    | [_], _, hb => cases hb
    | x :: y :: rest, ha, hb =>
      obtain rfl := Option.some.inj ha
      obtain rfl := Option.some.inj hb
      rfl
  | succ i ih =>
    match l, ha, hb with
    | [], ha, _ => cases ha
    | [_], ha, _ => cases ha
    | x :: y :: rest, ha, hb =>
      rw [pairs, List.getElem?_cons_succ]
      exact ih ha hb

/-- The root of a tree over a list of leaves. -/
def root (l : List α) : Option α :=
  if 1 < l.length then root (above h l) else l.head?
termination_by l.length
decreasing_by
  rw [length_above]
  omega

/-- The place of the neighbour that a node is paired with. -/
def siblingIndex (i : Nat) : Nat := if i % 2 = 0 then i + 1 else i - 1

/-- The siblings that the path of leaf `i` meets on its way to the root. -/
def path (l : List α) (i : Nat) : List α :=
  if 1 < l.length then (pad l)[siblingIndex i]?.toList ++ path (above h l) (i / 2) else []
termination_by l.length
decreasing_by
  rw [length_above]
  omega

theorem root_of_one_lt {l : List α} (hlen : 1 < l.length) : root h l = root h (above h l) := by
  rw [root, if_pos hlen]

theorem path_of_one_lt {l : List α} (hlen : 1 < l.length) (i : Nat) :
    path h l i = (pad l)[siblingIndex i]?.toList ++ path h (above h l) (i / 2) := by
  rw [path, if_pos hlen]

/-- A node has a neighbour in the padded layer. -/
theorem getElem?_siblingIndex {l : List α} {i : Nat} (hi : i < l.length) :
    ∃ s, (pad l)[siblingIndex i]? = some s := by
  have hlt : siblingIndex i < (pad l).length := by
    rw [length_pad, siblingIndex]
    split <;> omega
  exact ⟨_, List.getElem?_eq_getElem hlt⟩

/-- The node above is the node combined with its neighbour. -/
theorem getElem?_above (hcomm : ∀ a b, h a b = h b a) {l : List α} {i : Nat} {a s : α}
    (ha : l[i]? = some a) (hs : (pad l)[siblingIndex i]? = some s) :
    (above h l)[i / 2]? = some (h a s) := by
  obtain ⟨hi, -⟩ := List.getElem?_eq_some_iff.mp ha
  have ha' : (pad l)[i]? = some a := (getElem?_pad hi).trans ha
  rcases Nat.mod_two_eq_zero_or_one i with heven | hodd
  · rw [siblingIndex, if_pos heven] at hs
    have hleft : 2 * (i / 2) = i := by omega
    apply getElem?_pairs
    · rw [hleft]
      exact ha'
    · rw [hleft]
      exact hs
  · rw [siblingIndex, if_neg (by omega)] at hs
    have hleft : 2 * (i / 2) = i - 1 := by omega
    have hright : 2 * (i / 2) + 1 = i := by omega
    rw [hcomm a s]
    apply getElem?_pairs
    · rw [hleft]
      exact hs
    · rw [hright]
      exact ha'

/-- Folding a leaf with the siblings on its path gives the root. -/
theorem root_eq_foldl (hcomm : ∀ a b, h a b = h b a) {l : List α} {i : Nat} {a : α}
    (ha : l[i]? = some a) : root h l = some ((path h l i).foldl h a) := by
  induction l, i using path.induct h generalizing a with
  | case1 l i hlen ih =>
    obtain ⟨hi, -⟩ := List.getElem?_eq_some_iff.mp ha
    obtain ⟨s, hs⟩ := getElem?_siblingIndex hi
    rw [root_of_one_lt h hlen, path_of_one_lt h hlen, hs]
    exact ih (getElem?_above h hcomm ha hs)
  | case2 l i hlen =>
    obtain ⟨hi, -⟩ := List.getElem?_eq_some_iff.mp ha
    have hzero : i = 0 := by omega
    subst hzero
    rw [root, if_neg hlen, path, if_neg hlen, List.head?_eq_getElem?]
    exact ha

/-- A tree with at most `2 ^ d` leaves has paths of length at most `d`. -/
theorem length_path_le {l : List α} {i : Nat} (hi : i < l.length) {d : Nat}
    (hd : l.length ≤ 2 ^ d) : (path h l i).length ≤ d := by
  induction l, i using path.induct h generalizing d with
  | case1 l i hlen ih =>
    obtain ⟨s, hs⟩ := getElem?_siblingIndex hi
    rw [path_of_one_lt h hlen, hs]
    cases d with
    | zero => omega
    | succ d =>
      have hpow : 2 ^ (d + 1) = 2 * 2 ^ d := by rw [Nat.pow_succ, Nat.mul_comm]
      have hrest : (path h (above h l) (i / 2)).length ≤ d := by
        apply ih
        · rw [length_above]
          omega
        · rw [length_above]
          omega
      simpa using hrest
  | case2 l i hlen =>
    rw [path, if_neg hlen]
    exact Nat.zero_le d

/-! ## The nodes that a path can start from -/

/-- Every node of the tree, layer after layer. -/
def nodes (l : List α) : List α :=
  if 1 < l.length then l ++ nodes (above h l) else l
termination_by l.length
decreasing_by
  rw [length_above]
  omega

/-- The neighbours that `pairs` combines. -/
def neighbours : List α → List (α × α)
  | [] => []
  | [_] => []
  | a :: b :: rest => (a, b) :: neighbours rest

/-- The pairs that are combined in the whole tree. -/
def joins (l : List α) : List (α × α) :=
  if 1 < l.length then neighbours (pad l) ++ joins (above h l) else []
termination_by l.length
decreasing_by
  rw [length_above]
  omega

/-- The pairs that are combined when `a` is folded with a path. -/
def climbs (a : α) : List α → List (α × α)
  | [] => []
  | s :: rest => (a, s) :: climbs (h a s) rest

theorem pairs_eq_map (l : List α) : pairs h l = (neighbours l).map fun x => h x.1 x.2 := by
  induction l using pairs.induct with
  | case1 => rfl
  | case2 => rfl
  | case3 a b rest ih => rw [pairs, neighbours, List.map_cons, ih]

theorem mem_of_mem_neighbours {l : List α} {x : α × α} (hx : x ∈ neighbours l) :
    x.1 ∈ l ∧ x.2 ∈ l := by
  induction l using pairs.induct with
  | case1 => cases hx
  | case2 => cases hx
  | case3 a b rest ih =>
    rw [neighbours, List.mem_cons] at hx
    rcases hx with rfl | hx
    · simp
    · obtain ⟨h₁, h₂⟩ := ih hx
      exact ⟨by simp [h₁], by simp [h₂]⟩

theorem mem_of_mem_pad {l : List α} {a : α} (ha : a ∈ pad l) : a ∈ l := by
  unfold pad at ha
  split at ha
  · rcases List.mem_append.mp ha with ha | ha
    · exact ha
    · exact List.mem_of_getLast? (Option.mem_toList.mp ha)
  · exact ha

theorem nodes_of_one_lt {l : List α} (hlen : 1 < l.length) :
    nodes h l = l ++ nodes h (above h l) := by
  rw [nodes, if_pos hlen]

theorem joins_of_one_lt {l : List α} (hlen : 1 < l.length) :
    joins h l = neighbours (pad l) ++ joins h (above h l) := by
  rw [joins, if_pos hlen]

theorem mem_nodes_of_mem {l : List α} {a : α} (ha : a ∈ l) : a ∈ nodes h l := by
  rw [nodes]
  split
  · exact List.mem_append_left _ ha
  · exact ha

/-- A node is a leaf or one of the pairs combined. -/
theorem mem_nodes {l : List α} {n : α} (hn : n ∈ nodes h l) :
    n ∈ l ∨ ∃ x ∈ joins h l, n = h x.1 x.2 := by
  induction l using root.induct h with
  | case1 l hlen ih =>
    rw [nodes_of_one_lt h hlen, List.mem_append] at hn
    rw [joins_of_one_lt h hlen]
    rcases hn with hn | hn
    · exact Or.inl hn
    · right
      rcases ih hn with hn | ⟨x, hx, hn⟩
      · rw [above, pairs_eq_map] at hn
        obtain ⟨x, hx, hn⟩ := List.mem_map.mp hn
        exact ⟨x, List.mem_append_left _ hx, hn.symm⟩
      · exact ⟨x, List.mem_append_right _ hx, hn⟩
  | case2 l hlen =>
    rw [nodes, if_neg hlen] at hn
    exact Or.inl hn

/-- What the tree combines are nodes of it. -/
theorem mem_nodes_of_mem_joins {l : List α} {x : α × α} (hx : x ∈ joins h l) :
    x.1 ∈ nodes h l ∧ x.2 ∈ nodes h l := by
  induction l using root.induct h with
  | case1 l hlen ih =>
    rw [joins_of_one_lt h hlen, List.mem_append] at hx
    rw [nodes_of_one_lt h hlen]
    rcases hx with hx | hx
    · obtain ⟨h₁, h₂⟩ := mem_of_mem_neighbours hx
      exact ⟨List.mem_append_left _ (mem_of_mem_pad h₁),
        List.mem_append_left _ (mem_of_mem_pad h₂)⟩
    · obtain ⟨h₁, h₂⟩ := ih hx
      exact ⟨List.mem_append_right _ h₁, List.mem_append_right _ h₂⟩
  | case2 l hlen =>
    rw [joins, if_neg hlen] at hx
    cases hx

theorem root_mem_nodes {l : List α} {r : α} (hr : root h l = some r) : r ∈ nodes h l := by
  induction l using root.induct h with
  | case1 l hlen ih =>
    rw [root_of_one_lt h hlen] at hr
    rw [nodes_of_one_lt h hlen]
    exact List.mem_append_right _ (ih hr)
  | case2 l hlen =>
    rw [root, if_neg hlen] at hr
    exact mem_nodes_of_mem h (List.mem_of_mem_head? hr)

/-- The root of two leaves and more is one of the pairs combined. -/
theorem root_mem_joins {l : List α} (hlen : 1 < l.length) {r : α} (hr : root h l = some r) :
    ∃ x ∈ joins h l, r = h x.1 x.2 := by
  rw [root_of_one_lt h hlen] at hr
  rw [joins_of_one_lt h hlen]
  rcases mem_nodes h (root_mem_nodes h hr) with hmem | ⟨x, hx, hr⟩
  · rw [above, pairs_eq_map] at hmem
    obtain ⟨x, hx, hr⟩ := List.mem_map.mp hmem
    exact ⟨x, List.mem_append_left _ hx, hr.symm⟩
  · exact ⟨x, List.mem_append_right _ hx, hr⟩

/-- Where no pair that is combined along a path gives a leaf, or the same node as another
pair of the tree, only nodes of the tree reach its root. -/
theorem mem_nodes_of_foldl {l : List α} {proof : List α} {a : α}
    (hleaf : ∀ y ∈ climbs h a proof, h y.1 y.2 ∉ l)
    (hjoin : ∀ y ∈ climbs h a proof, ∀ x ∈ joins h l, h y.1 y.2 = h x.1 x.2 →
      y.1 = x.1 ∨ y.1 = x.2)
    (hn : proof.foldl h a ∈ nodes h l) : a ∈ nodes h l := by
  induction proof generalizing a with
  | nil => exact hn
  | cons s rest ih =>
    have hup : h a s ∈ nodes h l :=
      ih (fun y hy => hleaf y (List.mem_cons_of_mem _ hy))
        (fun y hy => hjoin y (List.mem_cons_of_mem _ hy)) hn
    have hself : (a, s) ∈ climbs h a (s :: rest) := List.mem_cons_self
    rcases mem_nodes h hup with hmem | ⟨x, hx, heq⟩
    · exact absurd hmem (hleaf (a, s) hself)
    · obtain ⟨h₁, h₂⟩ := mem_nodes_of_mem_joins h hx
      rcases hjoin (a, s) hself x hx heq with ha | ha
      · rw [show a = x.1 from ha]
        exact h₁
      · rw [show a = x.2 from ha]
        exact h₂

/-! ## Trees over another representation of the nodes -/

section Map

variable {β : Type u} {h} {h' : β → β → β} {f : α → β}

theorem pad_map (l : List α) : pad (l.map f) = (pad l).map f := by
  unfold pad
  rw [List.length_map]
  split
  · rw [List.map_append, List.getLast?_map, Option.toList_map]
  · rfl

theorem pairs_map (hf : ∀ a b, h' (f a) (f b) = f (h a b)) (l : List α) :
    pairs h' (l.map f) = (pairs h l).map f := by
  induction l using pairs.induct with
  | case1 => rfl
  | case2 => rfl
  | case3 a b rest ih =>
    rw [List.map_cons, List.map_cons, pairs, pairs, List.map_cons, ih, hf]

theorem above_map (hf : ∀ a b, h' (f a) (f b) = f (h a b)) (l : List α) :
    above h' (l.map f) = (above h l).map f := by
  rw [above, above, pad_map, pairs_map hf]

theorem root_map (hf : ∀ a b, h' (f a) (f b) = f (h a b)) (l : List α) :
    root h' (l.map f) = (root h l).map f := by
  induction l using root.induct h with
  | case1 l hlen ih =>
    have hlen' : 1 < (l.map f).length := by rwa [List.length_map]
    rw [root_of_one_lt h' hlen', above_map hf, ih, ← root_of_one_lt h hlen]
  | case2 l hlen =>
    rw [root, List.length_map, if_neg hlen, root, if_neg hlen, List.head?_map]

theorem path_map (hf : ∀ a b, h' (f a) (f b) = f (h a b)) (l : List α) (i : Nat) :
    path h' (l.map f) i = (path h l i).map f := by
  induction l, i using path.induct h with
  | case1 l i hlen ih =>
    have hlen' : 1 < (l.map f).length := by rwa [List.length_map]
    rw [path_of_one_lt h' hlen', pad_map, List.getElem?_map, Option.toList_map, above_map hf, ih,
      ← List.map_append, ← path_of_one_lt h hlen]
  | case2 l i hlen =>
    rw [path, List.length_map, if_neg hlen, path, if_neg hlen, List.map_nil]

end Map

end Merkle
end Linkora
