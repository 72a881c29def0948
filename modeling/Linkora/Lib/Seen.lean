import Mathlib.Data.List.Basic

/-!
# Tokens that are remembered until they expire

A guard against repeats: a token is recorded with the time at which it may be forgotten, and
what has expired is swept out before the guard is asked.  The tokens that the guard finds are
those of the records that have not expired, whatever was swept before.
-/

namespace Linkora

universe u

/-- The tokens with their times of expiry, one entry a token. -/
abbrev Seen (τ : Type u) := List (τ × Int)

namespace Seen

variable {τ : Type u} [DecidableEq τ] {c : Seen τ} {history : List (τ × Int)} {now now' : Int}
  {t : τ} {e : Int}

def sweep (c : Seen τ) (now : Int) : Seen τ := c.filter fun entry => !decide (entry.2 ≤ now)

def has (c : Seen τ) (t : τ) : Bool := c.any fun entry => decide (entry.1 = t)

/-- The entry of the token is overwritten. -/
def record (c : Seen τ) (t : τ) (e : Int) : Seen τ :=
  c.filter (fun entry => !decide (entry.1 = t)) ++ [(t, e)]

/-- A record of the token has not expired. -/
def Remembers (history : List (τ × Int)) (now : Int) (t : τ) : Prop :=
  ∃ entry ∈ history, entry.1 = t ∧ now < entry.2

instance (history : List (τ × Int)) (now : Int) (t : τ) : Decidable (Remembers history now t) :=
  inferInstanceAs (Decidable (∃ entry ∈ history, entry.1 = t ∧ now < entry.2))

theorem has_iff : c.has t = true ↔ ∃ entry ∈ c, entry.1 = t := by
  simp [has, List.any_eq_true]

omit [DecidableEq τ] in
theorem mem_sweep {entry : τ × Int} : entry ∈ c.sweep now ↔ entry ∈ c ∧ now < entry.2 := by
  simp [sweep, List.mem_filter]

theorem mem_record {entry : τ × Int} :
    entry ∈ c.record t e ↔ entry ∈ c ∧ entry.1 ≠ t ∨ entry = (t, e) := by
  simp [record, List.mem_append, List.mem_filter]

/-- The entries are records, and for every record that has not expired there is one that
expires no earlier. -/
structure Tracks (c : Seen τ) (history : List (τ × Int)) (now : Int) : Prop where
  recorded : ∀ entry ∈ c, entry ∈ history
  found : ∀ entry ∈ history, now < entry.2 → ∃ entry' ∈ c, entry'.1 = entry.1 ∧ entry.2 ≤ entry'.2

namespace Tracks

omit [DecidableEq τ] in
theorem nil (now : Int) : Tracks ([] : Seen τ) [] now :=
  ⟨fun _ h => h, fun _ h => absurd h List.not_mem_nil⟩

omit [DecidableEq τ] in
theorem later (h : Tracks c history now) (hle : now ≤ now') : Tracks c history now' :=
  ⟨h.recorded, fun entry hmem hlt => h.found entry hmem (by omega)⟩

omit [DecidableEq τ] in
theorem sweep (h : Tracks c history now) : Tracks (c.sweep now) history now where
  recorded entry hmem := h.recorded entry (mem_sweep.mp hmem).1
  found entry hmem hlt := by
    obtain ⟨entry', hmem', hkey, hle⟩ := h.found entry hmem hlt
    exact ⟨entry', mem_sweep.mpr ⟨hmem', by omega⟩, hkey, hle⟩

/-- After a sweep the guard finds what is remembered. -/
theorem has_sweep_iff (h : Tracks c history now) :
    (c.sweep now).has t = true ↔ Remembers history now t := by
  rw [has_iff]
  constructor
  · rintro ⟨entry, hmem, hkey⟩
    obtain ⟨hold, hlive⟩ := mem_sweep.mp hmem
    exact ⟨entry, h.recorded entry hold, hkey, hlive⟩
  · rintro ⟨entry, hmem, hkey, hlive⟩
    obtain ⟨entry', hmem', hkey', -⟩ := h.sweep.found entry hmem hlive
    exact ⟨entry', hmem', hkey'.trans hkey⟩

/-- A token may be recorded again until a time that is no earlier. -/
theorem record (h : Tracks c history now)
    (hnew : ∀ entry ∈ history, entry.1 = t → now < entry.2 → entry.2 ≤ e) :
    Tracks (c.record t e) (history ++ [(t, e)]) now where
  recorded entry hmem := by
    rcases mem_record.mp hmem with hold | rfl
    · exact List.mem_append_left _ (h.recorded entry hold.1)
    · exact List.mem_append_right _ List.mem_cons_self
  found entry hmem hlt := by
    have hself : (t, e) ∈ c.record t e := mem_record.mpr (Or.inr rfl)
    rcases List.mem_append.mp hmem with hold | hlast
    · by_cases hkey : entry.1 = t
      · exact ⟨(t, e), hself, hkey.symm, hnew entry hold hkey hlt⟩
      · obtain ⟨entry', hmem', hkey', hle⟩ := h.found entry hold hlt
        have hother : entry'.1 ≠ t := by rwa [hkey']
        exact ⟨entry', mem_record.mpr (Or.inl ⟨hmem', hother⟩), hkey', hle⟩
    · obtain rfl := List.mem_singleton.mp hlast
      exact ⟨(t, e), hself, rfl, Int.le_refl _⟩

end Tracks

end Seen
end Linkora
