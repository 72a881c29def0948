import Mathlib.Data.Finset.Card
import Mathlib.Data.List.DropRight
import Mathlib.Order.Defs.PartialOrder
import Linkora.Lib.Lru

/-!
# Stamps in order of recency

A bounded list of keys with the times at which they were last touched.  Before a key is touched
the entries at the end that are old are dropped, and one more if the list is full.  As long as
no more keys than the capacity are alive at any time, what is dropped is gone, so that the list
tells the same of what is alive as a map that forgets nothing.
-/

namespace Linkora

universe u v

namespace Lru

variable {κ : Type u} {α : Type v}

/-- Drop the entries at the end that meet a test, up to the first that does not. -/
def dropBack (c : Lru κ α) (p : κ × α → Bool) : Lru κ α where
  capacity := c.capacity
  entries := c.entries.rdropWhile p
  capacity_pos := c.capacity_pos
  nodup := ((List.rdropWhile_prefix p c.entries).sublist.map Prod.fst).nodup c.nodup
  bounded := Nat.le_trans (List.rdropWhile_prefix p c.entries).length_le c.bounded

theorem mem_of_mem_dropBack {c : Lru κ α} {p : κ × α → Bool} {x : κ × α}
    (h : x ∈ (c.dropBack p).entries) : x ∈ c.entries :=
  (List.rdropWhile_prefix p c.entries).subset h

/-- What does not meet the test stays. -/
theorem mem_dropBack {c : Lru κ α} {p : κ × α → Bool} {x : κ × α} (h : x ∈ c.entries)
    (hx : p x = false) : x ∈ (c.dropBack p).entries := by
  show x ∈ c.entries.rdropWhile p
  generalize c.entries = l at h
  induction l using List.reverseRecOn with
  | nil => exact h
  | append_singleton l y ih =>
    by_cases hy : p y = true
    · rw [List.rdropWhile_concat_pos p l y hy]
      rcases List.mem_append.mp h with h | h
      · exact ih h
      · rw [List.mem_singleton.mp h, hy] at hx
        cases hx
    · rw [List.rdropWhile_concat_neg p l y hy]
      exact h

end Lru

namespace Recency

variable {κ : Type u} {τ : Type v} [DecidableEq κ] [Preorder τ]

/-- A test of the age of a stamp at a time: what passes it passes it later, and what is older
passes it too. -/
structure Ageing (gone : τ → τ → Bool) : Prop where
  later : ∀ {now now' s}, now ≤ now' → gone now s = true → gone now' s = true
  older : ∀ {now s s'}, s ≤ s' → gone now s' = true → gone now s = true

/-- Drop what is old at the end, then put the key in front. -/
def touch (old : τ → τ → Bool) (c : Lru κ τ) (k : κ) (now : τ) : Lru κ τ :=
  (c.dropBack fun x => old now x.2).put k now

/-- The keys with a touch at that time that is not gone. -/
def aliveKeys [DecidableLE τ] (gone : τ → τ → Bool) (touches : List (κ × τ)) (now : τ) :
    Finset κ :=
  ((touches.filter fun x => decide (x.2 ≤ now) && !gone now x.2).map Prod.fst).toFinset

theorem mem_aliveKeys [DecidableLE τ] {gone : τ → τ → Bool} {touches : List (κ × τ)} {now : τ}
    {k : κ} {s : τ} (h : (k, s) ∈ touches) (hle : s ≤ now) (hgone : gone now s = false) :
    k ∈ aliveKeys gone touches now := by
  refine List.mem_toFinset.mpr (List.mem_map.mpr ⟨(k, s), List.mem_filter.mpr ⟨h, ?_⟩, rfl⟩)
  simp [hle, hgone]

theorem card_aliveKeys_le [DecidableLE τ] (gone : τ → τ → Bool) (touches : List (κ × τ))
    (now : τ) : (aliveKeys gone touches now).card ≤ (touches.map Prod.fst).toFinset.card := by
  refine Finset.card_le_card fun k hk => List.mem_toFinset.mpr ?_
  exact (List.filter_sublist.map Prod.fst).subset (List.mem_toFinset.mp hk)

/-- The list against a map that forgets nothing. -/
structure Tracks (gone : τ → τ → Bool) (c : Lru κ τ) (last : κ → Option τ)
    (touches : List (κ × τ)) (now : τ) : Prop where
  last_of_mem : ∀ {k s}, (k, s) ∈ c.entries → last k = some s
  touched : ∀ {k s}, last k = some s → (k, s) ∈ touches
  sorted : c.entries.Pairwise fun x y => y.2 ≤ x.2
  past : ∀ x ∈ touches, x.2 ≤ now
  kept : ∀ {k s}, last k = some s → gone now s = false → (k, s) ∈ c.entries

namespace Tracks

variable {old gone : τ → τ → Bool} {c : Lru κ τ} {last : κ → Option τ}
  {touches : List (κ × τ)} {now now' : τ} {k : κ}

omit [DecidableEq κ] in
theorem empty (capacity : Nat) (h : 0 < capacity) (now : τ) :
    Tracks gone (Lru.empty capacity h) (fun _ : κ => none) [] now where
  last_of_mem h := absurd h List.not_mem_nil
  touched h := by cases h
  sorted := List.Pairwise.nil
  past _ h := absurd h List.not_mem_nil
  kept h := by cases h

omit [DecidableEq κ] in
theorem later (hgone : Ageing gone) (h : Tracks gone c last touches now) (hle : now ≤ now') :
    Tracks gone c last touches now' where
  last_of_mem := h.last_of_mem
  touched := h.touched
  sorted := h.sorted
  past x hx := (h.past x hx).trans hle
  kept hlast halive := by
    refine h.kept hlast ?_
    by_contra hpassed
    rw [hgone.later hle (Bool.eq_true_of_not_eq_false hpassed)] at halive
    cases halive

omit [DecidableEq κ] in
/-- What is old is gone, so nothing alive is dropped for its age. -/
theorem dropBack (hold : ∀ s, old now s = true → gone now s = true)
    (h : Tracks gone c last touches now) :
    Tracks gone (c.dropBack fun x => old now x.2) last touches now where
  last_of_mem hmem := h.last_of_mem (Lru.mem_of_mem_dropBack hmem)
  touched := h.touched
  sorted := h.sorted.sublist (List.rdropWhile_prefix _ c.entries).sublist
  past := h.past
  kept {k s} hlast halive := by
    refine Lru.mem_dropBack (h.kept hlast halive) ?_
    by_contra hpassed
    rw [hold s (Bool.eq_true_of_not_eq_false hpassed)] at halive
    cases halive

/-- An entry that a full list loses is gone: else it, all the others and the key would be alive
at once. -/
theorem gone_of_full [DecidableLE τ] (hgone : Ageing gone) (h : Tracks gone c last touches now)
    (hfull : c.capacity ≤ (c.erase k).entries.length)
    (hbusy : (aliveKeys gone ((k, now) :: touches) now).card ≤ c.capacity) {j : κ} {s : τ}
    {rest : List (κ × τ)} (hlast : (c.erase k).entries = rest ++ [(j, s)]) :
    gone now s = true := by
  by_contra hnot
  have halive : gone now s = false := Bool.eq_false_of_not_eq_true hnot
  have hsorted : (c.erase k).entries.Pairwise fun x y => y.2 ≤ x.2 :=
    h.sorted.sublist List.filter_sublist
  have hafter : ∀ x ∈ (c.erase k).entries, s ≤ x.2 := by
    rw [hlast] at hsorted ⊢
    intro x hx
    rcases List.mem_append.mp hx with hx | hx
    · exact (List.pairwise_append.mp hsorted).2.2 x hx (j, s) List.mem_cons_self
    · rw [List.mem_singleton.mp hx]
  have hyoung : ∀ t, s ≤ t → gone now t = false := by
    intro t hle
    by_contra hpassed
    exact hnot (hgone.older hle (Bool.eq_true_of_not_eq_false hpassed))
  have hmem : ∀ x ∈ (c.erase k).entries, x ∈ touches := fun x hx =>
    h.touched (h.last_of_mem (Lru.mem_erase.mp hx).1)
  have hs : s ≤ now := h.past _ (hmem (j, s) (by rw [hlast]; simp))
  -- The keys of the entries and the key that is touched are alive.
  have hkeys : insert k ((c.erase k).entries.map Prod.fst).toFinset ⊆
      aliveKeys gone ((k, now) :: touches) now := by
    intro i hi
    rcases Finset.mem_insert.mp hi with rfl | hi
    · exact mem_aliveKeys List.mem_cons_self le_rfl (hyoung now hs)
    · obtain ⟨x, hx, rfl⟩ := List.mem_map.mp (List.mem_toFinset.mp hi)
      exact mem_aliveKeys (List.mem_cons_of_mem _ (hmem x hx)) (h.past x (hmem x hx))
        (hyoung x.2 (hafter x hx))
  have hnew : k ∉ ((c.erase k).entries.map Prod.fst).toFinset := fun hk =>
    c.not_mem_erase k (List.mem_toFinset.mp hk)
  have hcard := Finset.card_le_card hkeys
  rw [Finset.card_insert_of_notMem hnew, List.toFinset_card_of_nodup (c.erase k).nodup,
    List.length_map] at hcard
  omega

/-- A touch, while no more keys are alive than there is room for. -/
theorem touch [DecidableLE τ] (hgone : Ageing gone)
    (hold : ∀ s, old now' s = true → gone now' s = true)
    (h : Tracks gone c last touches now) (hle : now ≤ now')
    (hbusy : (aliveKeys gone ((k, now') :: touches) now').card ≤ c.capacity) :
    Tracks gone (Recency.touch old c k now') (Function.update last k (some now'))
      ((k, now') :: touches) now' := by
  have hswept := (h.later hgone hle).dropBack hold
  generalize hd : (c.dropBack fun x => old now' x.2) = d at hswept
  have hcapacity : d.capacity = c.capacity := by
    rw [← hd]
    rfl
  have htouch : Recency.touch old c k now' = d.put k now' := by rw [Recency.touch, hd]
  rw [htouch]
  have hentries : (d.put k now').entries = (k, now') :: (d.erase k).evict := rfl
  have hevict := (d.erase k).evict_sublist
  constructor
  · intro j s hmem
    rw [hentries] at hmem
    rcases List.mem_cons.mp hmem with heq | hmem
    · cases heq
      exact Function.update_self ..
    · obtain ⟨hold, hne⟩ := Lru.mem_erase.mp (hevict.subset hmem)
      rw [Function.update_of_ne hne]
      exact hswept.last_of_mem hold
  · intro j s hlast
    by_cases hj : j = k
    · subst hj
      rw [Function.update_self] at hlast
      cases hlast
      exact List.mem_cons_self
    · rw [Function.update_of_ne hj] at hlast
      exact List.mem_cons_of_mem _ (hswept.touched hlast)
  · rw [hentries, List.pairwise_cons]
    refine ⟨fun x hx => ?_, (hswept.sorted.sublist List.filter_sublist).sublist hevict⟩
    exact hswept.past x (hswept.touched (hswept.last_of_mem
      (Lru.mem_erase.mp (hevict.subset hx)).1))
  · intro x hx
    rcases List.mem_cons.mp hx with rfl | hx
    · exact le_rfl
    · exact hswept.past x hx
  · intro j s hlast halive
    rw [hentries]
    by_cases hj : j = k
    · subst hj
      rw [Function.update_self] at hlast
      cases hlast
      exact List.mem_cons_self
    · rw [Function.update_of_ne hj] at hlast
      have hmem : (j, s) ∈ (d.erase k).entries := Lru.mem_erase.mpr ⟨hswept.kept hlast halive, hj⟩
      refine List.mem_cons_of_mem _ ?_
      rw [Lru.evict]
      split
      · exact hmem
      · rename_i hfull
        rcases List.eq_nil_or_concat' (d.erase k).entries with hnil | ⟨rest, y, hconcat⟩
        · rw [hnil] at hmem
          cases hmem
        · rw [hconcat, List.dropLast_concat]
          rw [hconcat] at hmem
          rcases List.mem_append.mp hmem with hmem | hmem
          · exact hmem
          · -- The entry that is dropped is gone.
            obtain rfl := List.mem_singleton.mp hmem
            have hlost := hswept.gone_of_full hgone (Nat.not_lt.mp hfull) (by rwa [hcapacity])
              hconcat
            rw [hlost] at halive
            cases halive

/-- What the list finds, but for what is gone. -/
theorem find?_of_alive (h : Tracks gone c last touches now) {s : τ} (hlast : last k = some s)
    (halive : gone now s = false) : c.find? k = some s :=
  Lru.find?_of_mem (h.kept hlast halive)

theorem last_of_find? (h : Tracks gone c last touches now) {s : τ} (hfound : c.find? k = some s) :
    last k = some s :=
  h.last_of_mem (Lru.mem_of_find? hfound)

end Tracks

end Recency
end Linkora
