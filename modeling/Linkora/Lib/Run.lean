import Mathlib.Data.List.Basic

/-!
# Runs of a labelled transition system

A run is a list of labels that leads from one state to another.  What every step
keeps, every run keeps.
-/

namespace Linkora

universe u v

variable {α : Type u} {ℓ : Type v}

/-- `Run Step a ls b`: the labels `ls`, taken in order, lead from `a` to `b`. -/
inductive Run (Step : α → ℓ → α → Prop) (a : α) : List ℓ → α → Prop where
  | nil : Run Step a [] a
  | snoc {ls : List ℓ} {b c : α} {l : ℓ} : Run Step a ls b → Step b l c → Run Step a (ls ++ [l]) c

namespace Run

variable {Step Step' : α → ℓ → α → Prop} {a b c : α} {ls ls' : List ℓ}

/-- The steps of a system that meet a condition on the state before the step. -/
def Guarded (Step : α → ℓ → α → Prop) (C : α → ℓ → Prop) : α → ℓ → α → Prop :=
  fun a l b => Step a l b ∧ C a l

theorem invariant {I : α → Prop} (hstep : ∀ a l b, I a → Step a l b → I b)
    (h : Run Step a ls b) (ha : I a) : I b := by
  induction h with
  | nil => exact ha
  | snoc _ hl ih => exact hstep _ _ _ ih hl

theorem mono (hstep : ∀ a l b, Step a l b → Step' a l b) (h : Run Step a ls b) :
    Run Step' a ls b := by
  induction h with
  | nil => exact nil
  | snoc _ hl ih => exact snoc ih (hstep _ _ _ hl)

theorem trans (h : Run Step a ls b) (h' : Run Step b ls' c) : Run Step a (ls ++ ls') c := by
  induction h' with
  | nil => rwa [List.append_nil]
  | snoc _ hl ih =>
    rw [← List.append_assoc]
    exact snoc ih hl

theorem single {l : ℓ} (h : Step a l b) : Run Step a [l] b := snoc nil h

/-- A run over two lists of labels passes a state between them. -/
theorem split (h : Run Step a (ls ++ ls') c) : ∃ b, Run Step a ls b ∧ Run Step b ls' c := by
  generalize hall : ls ++ ls' = all at h
  induction h generalizing ls' with
  | nil =>
    obtain ⟨rfl, rfl⟩ := List.append_eq_nil_iff.mp hall
    exact ⟨a, nil, nil⟩
  | @snoc init d e l hinit hl ih =>
    -- The last label is the last of `ls'`, or `ls'` is empty.
    rcases List.eq_nil_or_concat' ls' with rfl | ⟨rest, l', rfl⟩
    · rw [List.append_nil] at hall
      exact ⟨e, hall ▸ snoc hinit hl, nil⟩
    · rw [← List.append_assoc] at hall
      obtain ⟨hrest, hl'⟩ := List.append_inj' hall rfl
      obtain ⟨b, hb, hd⟩ := ih hrest
      obtain rfl := List.singleton_inj.mp hl'
      exact ⟨b, hb, snoc hd hl⟩

theorem of_nil (h : Run Step a [] b) : b = a := by
  generalize hls : ([] : List ℓ) = ls at h
  cases h with
  | nil => rfl
  | snoc => cases List.append_ne_nil_of_right_ne_nil _ (List.cons_ne_nil _ _) hls.symm

theorem of_singleton {l : ℓ} (h : Run Step a [l] b) : Step a l b := by
  generalize hls : [l] = ls at h
  cases h with
  | nil => cases hls
  | @snoc init d _ l' hinit hl =>
    have hsnoc : [] ++ [l] = init ++ [l'] := hls
    obtain ⟨hinit', hl'⟩ := List.append_inj' hsnoc rfl
    obtain rfl := List.singleton_inj.mp hl'
    subst hinit'
    obtain rfl := of_nil hinit
    exact hl

/-- A run with one of its labels singled out. -/
theorem around {l : ℓ} (h : Run Step a (ls ++ l :: ls') c) :
    ∃ b b', Run Step a ls b ∧ Step b l b' ∧ Run Step b' ls' c := by
  obtain ⟨b, hb, h⟩ := split h
  have hcons : Run Step b ([l] ++ ls') c := h
  obtain ⟨b', hl, h⟩ := split hcons
  exact ⟨b, b', hb, of_singleton hl, h⟩

theorem of_guarded {C : α → ℓ → Prop} (h : Run (Guarded Step C) a ls b) : Run Step a ls b :=
  mono (fun _ _ _ hl => hl.1) h

/-- A run of labels that always meet the condition. -/
theorem guarded_of_forall {C : α → ℓ → Prop} (h : Run Step a ls b) (hC : ∀ l ∈ ls, ∀ x, C x l) :
    Run (Guarded Step C) a ls b := by
  induction h with
  | nil => exact nil
  | snoc _ hl ih =>
    refine snoc (ih fun l hmem => hC l (List.mem_append_left _ hmem)) ⟨hl, hC _ ?_ _⟩
    exact List.mem_append_right _ List.mem_cons_self

end Run

/-! ## Runs of a step function -/

section Walk

variable (next : α → ℓ → Option α)

/-- The steps of a partial step function. -/
def StepOf : α → ℓ → α → Prop := fun a l b => next a l = some b

/-- Take the labels in order, as long as each can be taken. -/
def walk : List ℓ → α → Option α
  | [], a => some a
  | l :: ls, a => (next a l).bind (walk ls)

/-- The step function, on labels that meet a condition. -/
def restrict (C : α → ℓ → Prop) [∀ a l, Decidable (C a l)] : α → ℓ → Option α :=
  fun a l => if C a l then next a l else none

variable {next}

theorem walk_cons {a b : α} {l : ℓ} {ls : List ℓ} (h : next a l = some b) :
    walk next (l :: ls) a = walk next ls b := by
  rw [walk, h, Option.bind_some]

theorem walk_append {a : α} {ls ls' : List ℓ} :
    walk next (ls ++ ls') a = (walk next ls a).bind (walk next ls') := by
  induction ls generalizing a with
  | nil => rfl
  | cons l rest ih =>
    rw [List.cons_append, walk, walk]
    cases next a l with
    | none => rfl
    | some b => exact ih

theorem restrict_of_met {C : α → ℓ → Prop} [∀ a l, Decidable (C a l)] {a : α} {l : ℓ}
    (h : C a l) : restrict next C a l = next a l := if_pos h

theorem run_of_walk {a b : α} {ls : List ℓ} (h : walk next ls a = some b) :
    Run (StepOf next) a ls b := by
  induction ls generalizing a with
  | nil =>
    obtain rfl := Option.some.inj h
    exact .nil
  | cons l rest ih =>
    obtain ⟨c, hc, hrest⟩ := Option.bind_eq_some_iff.mp h
    exact (Run.single hc).trans (ih hrest)

theorem guarded_of_walk {C : α → ℓ → Prop} [∀ a l, Decidable (C a l)] {a b : α} {ls : List ℓ}
    (h : walk (restrict next C) ls a = some b) : Run (Run.Guarded (StepOf next) C) a ls b := by
  refine (run_of_walk h).mono fun a l b hl => ?_
  have hl' : restrict next C a l = some b := hl
  rw [restrict] at hl'
  split at hl'
  · rename_i hC
    exact ⟨hl', hC⟩
  · cases hl'

/-- The labels of a run of a step function determine where it ends. -/
theorem Run.unique {a b c : α} {ls : List ℓ} (h : Run (StepOf next) a ls b)
    (h' : Run (StepOf next) a ls c) : b = c := by
  induction h generalizing c with
  | nil => exact h'.of_nil.symm
  | @snoc init d e l _ hl ih =>
    obtain ⟨d', hd', hl'⟩ := h'.split
    obtain rfl := ih hd'
    exact Option.some.inj (hl.symm.trans hl'.of_singleton)

/-- Every state that a run passes meets `I`. -/
def Throughout (next : α → ℓ → Option α) (I : α → Prop) (a : α) (ls : List ℓ) : Prop :=
  ∀ init rest b, ls = init ++ rest → Run (StepOf next) a init b → I b

theorem Throughout.init {I : α → Prop} {a : α} {ls ls' : List ℓ}
    (h : Throughout next I a (ls ++ ls')) : Throughout next I a ls :=
  fun init rest b hls hb => h init (rest ++ ls') b (by rw [hls, List.append_assoc]) hb

theorem Throughout.mono {I I' : α → Prop} {a : α} {ls : List ℓ} (h : Throughout next I a ls)
    (hI : ∀ x, I x → I' x) : Throughout next I' a ls :=
  fun init rest b hls hb => hI b (h init rest b hls hb)

/-- What the steps that meet `C` keep holds throughout a run of such steps. -/
theorem throughout_of_guarded {C : α → ℓ → Prop} {I : α → Prop} {a b : α} {ls : List ℓ}
    (hI : I a) (hkeep : ∀ x l y, I x → C x l → next x l = some y → I y)
    (hg : Run (Run.Guarded (StepOf next) C) a ls b) : Throughout next I a ls := by
  intro init rest c hls hc
  obtain ⟨c', hc', -⟩ := (hls ▸ hg).split
  rw [hc.unique hc'.of_guarded]
  exact hc'.invariant (fun x l y hx hl => hkeep x l y hx hl.2 hl.1) hI

/-- Let only the steps that meet `C` lead to a state that meets `I`.  Then all steps of a run
meet `C` if `I` holds throughout it.  `J` is what is known along the steps that meet `C`. -/
theorem guarded_of_throughout {C : α → ℓ → Prop} {I J : α → Prop} {a b : α} {ls : List ℓ}
    (hJ : J a) (hkeep : ∀ x l y, J x → C x l → next x l = some y → J y)
    (hstep : ∀ x l y, J x → next x l = some y → I y → C x l)
    (h : Run (StepOf next) a ls b) (hall : Throughout next I a ls) :
    Run (Run.Guarded (StepOf next) C) a ls b := by
  induction h with
  | nil => exact .nil
  | @snoc init d e l hinit hl ih =>
    have hg := ih hall.init
    have hd : J d := hg.invariant (fun x l y hx hl => hkeep x l y hx hl.2 hl.1) hJ
    have hIe : I e := hall (init ++ [l]) [] e (List.append_nil _).symm (.snoc hinit hl)
    exact .snoc hg ⟨hl, hstep d l e hd hl hIe⟩

end Walk
end Linkora
