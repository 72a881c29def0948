import Mathlib
import Linkora.Oracle.Service

/-!
# The windows that the oracle completes

A tick computes its window from `lastWindowEnd` when it knows the latest ledger, and writes
`lastWindowEnd` when the window is completed.  The interval does not wait for the tick
before, so another tick can complete a window in between.  The windows are disjoint and
consecutive in a run just when no tick completes a window that was computed from an
older `lastWindowEnd`.
-/

namespace Linkora
namespace Oracle

open Contract (Bytes Bytes32 Bytes64)

/-! ## What a step does to the windows -/

/-- The pass of a tick that is in `runWindow`. -/
def Tick.running : Tick → Option Pass
  | .creatorStats p => some p
  | .submission p _ _ _ _ => some p
  | _ => none

namespace Service

/-- The windows that were completed, in order. -/
def windows (s : Service) : List ReportWindow := s.completed.map Prod.fst

/-- The pass whose `runWindow` returns in this step: no creator is left and none has failed. -/
def completing (d : Deployment) (s : Service) : Action → Option Pass
  | .creatorStats i (some rows) =>
    match s.ticks[i]? with
    | some (.creatorStats p) =>
      match signNext d.lib s.signer p.window rows [] with
      | .finished [] => some p
      | _ => none
    | _ => none
  | .submitted i replies =>
    match s.ticks[i]? with
    | some (.submission p _ _ rest failed) =>
      match submitAttestation replies with
      | .error _ => none
      | .ok _ =>
        match signNext d.lib s.signer p.window rest failed with
        | .finished [] => some p
        | _ => none
    | _ => none
  | _ => none

end Service

variable {d : Deployment} {s s' : Service} {a : Action} {i : Nat} {p : Pass}
  {rows rest : List CreatorStats} {failed : List String}

/-- The creators that have failed stay on the list. -/
theorem signNext_failed {lib : Libraries} {signer : RotatingSigner} {window : ReportWindow}
    (h : signNext lib signer window rest failed = .finished []) : failed = [] := by
  induction rest generalizing failed with
  | nil => exact Progress.finished.inj h
  | cons row rest ih =>
    rw [signNext] at h
    split at h
    · exact ih h
    · dsimp only at h
      split at h
      · simpa using ih h
      · split at h
        · simpa using ih h
        · cases h

theorem mem_setTick {t t' : Tick} (h : t' ∈ (s.setTick i t).ticks) : t' ∈ s.ticks ∨ t' = t :=
  List.mem_or_eq_of_mem_set h

/-- A step leaves the windows and `lastWindowEnd`. -/
structure SameWindows (s s' : Service) : Prop where
  lastWindowEnd : s'.lastWindowEnd = s.lastWindowEnd
  completed : s'.completed = s.completed

theorem setTick_same (s : Service) (i : Nat) (t : Tick) : SameWindows s (s.setTick i t) := ⟨rfl, rfl⟩

theorem failAttempt_same (s : Service) (i : Nat) (p : Pass) : SameWindows s (s.failAttempt i p) :=
  setTick_same s i _

theorem beginAttempt_same (s : Service) (i : Nat) (p : Pass) :
    SameWindows s (s.beginAttempt i p) := by
  unfold Service.beginAttempt
  split
  · exact failAttempt_same s i p
  · exact ⟨rfl, rfl⟩

theorem scheduleLoop_same (d : Deployment) (s : Service) (i : Nat) (n : Int) :
    SameWindows s (s.scheduleLoop d i n) := by
  unfold Service.scheduleLoop
  split
  · exact setTick_same s i _
  · exact beginAttempt_same s i _

theorem rotateKey_same (d : Deployment) (s : Service) (req : RotateRequest) :
    SameWindows s (s.rotateKey d req).2 := by
  rcases s.rotateKey_cases d req with hs | ⟨newSeed, hs⟩
  · rw [hs]
    exact ⟨rfl, rfl⟩
  · rw [hs]
    exact ⟨rfl, rfl⟩

/-- `runWindow` goes on: it returns, or the windows stay. -/
theorem runRows_windows (d : Deployment) (s : Service) (i : Nat) (p : Pass)
    (rows rest : List CreatorStats) (failed : List String) :
    (signNext d.lib s.signer p.window rest failed = .finished [] ∧
      s.runRows d i p rows rest failed = s.complete i p rows) ∨
    (signNext d.lib s.signer p.window rest failed ≠ .finished [] ∧
      SameWindows s (s.runRows d i p rows rest failed)) := by
  unfold Service.runRows
  cases signNext d.lib s.signer p.window rest failed with
  | submit => exact Or.inr ⟨nofun, setTick_same s i _⟩
  | finished failed =>
    cases failed with
    | nil => exact Or.inl ⟨rfl, rfl⟩
    | cons => exact Or.inr ⟨nofun, failAttempt_same s i p⟩

/-- What one step does to the windows. -/
theorem next_windows (h : s.next d a = some s') :
    (s.completing d a = none ∧ SameWindows s s') ∨
    ∃ t ∈ s.ticks, ∃ p rows, t.running = some p ∧ s.completing d a = some p ∧
      s'.lastWindowEnd = p.window.windowEnd ∧ s'.completed = s.completed ++ [(p.window, rows)] := by
  cases a with
  | timer =>
    refine Or.inl ⟨rfl, ?_⟩
    simp only [Service.next] at h
    split at h
    · obtain rfl := Option.some.inj h
      exact ⟨rfl, rfl⟩
    · cases h
  | latestLedger i sequence =>
    refine Or.inl ⟨rfl, ?_⟩
    simp only [Service.next] at h
    split at h
    · split at h
      · obtain rfl := Option.some.inj h
        exact setTick_same s i _
      · obtain rfl := Option.some.inj h
        exact scheduleLoop_same d s i _
    · cases h
  | creatorStats i rows =>
    simp only [Service.next] at h
    split at h
    · rename_i p htick
      cases rows with
      | none =>
        obtain rfl := Option.some.inj h
        exact Or.inl ⟨rfl, failAttempt_same s i p⟩
      | some rows =>
        obtain rfl := Option.some.inj h
        rcases runRows_windows d s i p rows rows [] with ⟨hdone, hs⟩ | ⟨hdone, hs⟩
        · right
          refine ⟨_, List.mem_of_getElem? htick, p, rows, rfl, ?_, ?_⟩
          · simp [Service.completing, htick, hdone]
          · rw [hs]
            exact ⟨rfl, rfl⟩
        · refine Or.inl ⟨?_, hs⟩
          simp [Service.completing, htick]
    · cases h
  | submitted i replies =>
    simp only [Service.next] at h
    split at h
    · rename_i p rows x rest failed htick
      split at h
      · rename_i hsubmit
        obtain rfl := Option.some.inj h
        left
        refine ⟨by simp [Service.completing, htick, hsubmit], ?_⟩
        rcases runRows_windows d s i p rows rest (failed ++ [x.stats.creatorAddress])
          with ⟨hdone, -⟩ | ⟨-, hs⟩
        · simpa using signNext_failed hdone
        · exact hs
      · rename_i txHash hsubmit
        obtain rfl := Option.some.inj h
        rcases runRows_windows d (s.store d x txHash) i p rows rest failed
          with ⟨hdone, hs⟩ | ⟨hdone, hs⟩
        · right
          refine ⟨_, List.mem_of_getElem? htick, p, rows, rfl, ?_, ?_⟩
          · have hdone' : signNext d.lib s.signer p.window rest failed = .finished [] := hdone
            simp [Service.completing, htick, hsubmit, hdone']
          · rw [hs]
            exact ⟨rfl, rfl⟩
        · refine Or.inl ⟨?_, hs.lastWindowEnd, hs.completed⟩
          simp only [Service.completing, htick, hsubmit]
          split
          · contradiction
          · rfl
    · cases h
  | retry i =>
    refine Or.inl ⟨rfl, ?_⟩
    simp only [Service.next] at h
    split at h
    · obtain rfl := Option.some.inj h
      exact beginAttempt_same s i _
    · cases h
  | rotateKey req =>
    obtain rfl := Option.some.inj h
    exact Or.inl ⟨rfl, rotateKey_same d s req⟩
  | lookup | purge | clock | signal =>
    obtain rfl := Option.some.inj h
    exact Or.inl ⟨rfl, rfl, rfl⟩

/-! ## What is known of the passes -/

/-- The window is the one computed from `read`, which was `lastWindowEnd` when it was `n` or
less. -/
structure Pass.Sound (windowLedgers n : Int) (p : Pass) : Prop where
  window : scheduleWindow windowLedgers p.read p.window.windowEnd = some p.window
  nonneg : 0 ≤ p.read
  read : p.read ≤ n

/-- The pass of a tick is sound; from its first `await` on its window has been announced. -/
def Tick.Sound (windowLedgers n : Int) : Tick → Prop
  | .creatorStats p => p.Sound windowLedgers n ∧ 0 < p.window.windowStart
  | .submission p _ _ _ _ => p.Sound windowLedgers n ∧ 0 < p.window.windowStart
  | .backoff p => p.Sound windowLedgers n
  | .latestLedger => True
  | .ended => True

theorem scheduleWindow_eq {windowLedgers last n : Int} {w : ReportWindow}
    (h : scheduleWindow windowLedgers last n = some w) :
    w.windowEnd = n ∧ w.windowStart < w.windowEnd ∧
      w.windowStart = if last = 0 then n - windowLedgers else last + 1 := by
  generalize hstart : (if last = 0 then n - windowLedgers else last + 1) = start
  rw [scheduleWindow, hstart] at h
  split at h
  · cases h
  · rename_i hlt
    obtain rfl := Option.some.inj h
    exact ⟨rfl, by show start < n; omega, rfl⟩

theorem Pass.Sound.mono {w n n' : Int} (h : p.Sound w n) (hn : n ≤ n') : p.Sound w n' :=
  ⟨h.window, h.nonneg, h.read.trans hn⟩

theorem Tick.Sound.mono {w n n' : Int} {t : Tick} (h : t.Sound w n) (hn : n ≤ n') :
    t.Sound w n' := by
  cases t with
  | creatorStats p => exact ⟨h.1.mono hn, h.2⟩
  | submission p => exact ⟨h.1.mono hn, h.2⟩
  | backoff p => exact Pass.Sound.mono h hn
  | latestLedger => trivial
  | ended => trivial

theorem Tick.Sound.running {w n : Int} {t : Tick} (h : t.Sound w n) (hp : t.running = some p) :
    p.Sound w n ∧ 0 < p.window.windowStart := by
  cases t with
  | creatorStats p' =>
    obtain rfl := Option.some.inj hp
    exact h
  | submission p' =>
    obtain rfl := Option.some.inj hp
    exact h
  | latestLedger => cases hp
  | backoff => cases hp
  | ended => cases hp

/-- All ticks are sound. -/
def Service.Sound (d : Deployment) (n : Int) (s : Service) : Prop :=
  ∀ t ∈ s.ticks, t.Sound d.windowLedgers n

namespace Service.Sound

variable {n : Int}

theorem setTick (h : s.Sound d n) {t : Tick} (ht : t.Sound d.windowLedgers n) (i : Nat) :
    (s.setTick i t).Sound d n := by
  intro t' ht'
  rcases mem_setTick ht' with hold | rfl
  · exact h t' hold
  · exact ht

theorem tick (h : s.Sound d n) {t : Tick} (ht : s.ticks[i]? = some t) :
    t.Sound d.windowLedgers n := h t (List.mem_of_getElem? ht)

theorem failAttempt (h : s.Sound d n) (hp : p.Sound d.windowLedgers n) (i : Nat) :
    (s.failAttempt i p).Sound d n := by
  refine h.setTick ?_ i
  split
  · exact hp
  · trivial

theorem beginAttempt (h : s.Sound d n) (hp : p.Sound d.windowLedgers n) (i : Nat) :
    (s.beginAttempt i p).Sound d n := by
  unfold Service.beginAttempt
  split
  · exact h.failAttempt hp i
  · rename_i cache hcache
    have hpos := (AttestationCache.beginWindow_cases hcache).1
    exact setTick (s := { s with cache }) (t := .creatorStats p) h ⟨hp, hpos⟩ i

theorem scheduleLoop (h : s.Sound d n) (hnonneg : 0 ≤ s.lastWindowEnd)
    (hn : s.lastWindowEnd ≤ n) (i : Nat) (ledger : Int) : (s.scheduleLoop d i ledger).Sound d n := by
  unfold Service.scheduleLoop
  split
  · exact h.setTick (t := .ended) trivial i
  · rename_i window hwindow
    refine h.beginAttempt ⟨?_, hnonneg, hn⟩ i
    show scheduleWindow d.windowLedgers s.lastWindowEnd window.windowEnd = some window
    rw [(scheduleWindow_eq hwindow).1]
    exact hwindow

theorem runRows (h : s.Sound d n) (hp : p.Sound d.windowLedgers n ∧ 0 < p.window.windowStart)
    (i : Nat) (rows rest : List CreatorStats) (failed : List String) :
    (s.runRows d i p rows rest failed).Sound d n := by
  unfold Service.runRows
  split
  · exact h.setTick (t := .submission p rows _ _ _) hp i
  · exact setTick (s := { s with lastWindowEnd := _, completed := _ }) (t := .ended) h trivial i
  · exact h.failAttempt hp.1 i

/-- A step starts passes from `lastWindowEnd` as it is. -/
theorem next (h : s.Sound d n) (hnonneg : 0 ≤ s.lastWindowEnd) (hn : s.lastWindowEnd ≤ n)
    (hnext : s.next d a = some s') : s'.Sound d n := by
  cases a with
  | timer =>
    simp only [Service.next] at hnext
    split at hnext
    · obtain rfl := Option.some.inj hnext
      intro t ht
      rcases List.mem_append.mp ht with hold | hnew
      · exact h t hold
      · rw [List.mem_singleton.mp hnew]
        trivial
    · cases hnext
  | latestLedger i sequence =>
    simp only [Service.next] at hnext
    split at hnext
    · split at hnext
      · obtain rfl := Option.some.inj hnext
        exact h.setTick (t := .ended) trivial i
      · obtain rfl := Option.some.inj hnext
        exact h.scheduleLoop hnonneg hn i _
    · cases hnext
  | creatorStats i rows =>
    simp only [Service.next] at hnext
    split at hnext
    · rename_i p htick
      have hp : p.Sound d.windowLedgers n ∧ _ := h.tick htick
      split at hnext
      · obtain rfl := Option.some.inj hnext
        exact h.failAttempt hp.1 i
      · obtain rfl := Option.some.inj hnext
        exact h.runRows hp i _ _ _
    · cases hnext
  | submitted i replies =>
    simp only [Service.next] at hnext
    split at hnext
    · rename_i p rows x rest failed htick
      have hp : p.Sound d.windowLedgers n ∧ _ := h.tick htick
      split at hnext
      · obtain rfl := Option.some.inj hnext
        exact h.runRows hp i _ _ _
      · obtain rfl := Option.some.inj hnext
        exact runRows (s := s.store d x _) h hp i _ _ _
    · cases hnext
  | retry i =>
    simp only [Service.next] at hnext
    split at hnext
    · rename_i p htick
      have hp : p.Sound d.windowLedgers n := h.tick htick
      obtain rfl := Option.some.inj hnext
      exact h.beginAttempt (p := { p with attempt := p.attempt + 1 })
        ⟨hp.window, hp.nonneg, hp.read⟩ i
    · cases hnext
  | rotateKey req =>
    obtain rfl := Option.some.inj hnext
    rcases s.rotateKey_cases d req with hs | ⟨newSeed, hs⟩
    · rw [hs]
      exact h
    · rw [hs]
      exact h
  | lookup | purge | clock | signal =>
    obtain rfl := Option.some.inj hnext
    exact h

end Service.Sound

/-! ## The windows of a run -/

/-- The windows have no ledger in common, and each starts right after the one before it. -/
def Service.Partitioned (s : Service) : Prop :=
  s.windows.Pairwise (fun x y => Disjoint (Set.Icc x.windowStart x.windowEnd)
    (Set.Icc y.windowStart y.windowEnd)) ∧
  s.windows.IsChain fun x y => y.windowStart = x.windowEnd + 1

/-- When a tick completes its window, `lastWindowEnd` is still what the window was computed
from.  A window that was computed before any was completed is the next one all the same when
its ledger happens to be that far. -/
def Undisturbed (d : Deployment) (s : Service) (a : Action) : Prop :=
  ∀ p, s.completing d a = some p → p.read = s.lastWindowEnd ∨
    p.read = 0 ∧ p.window.windowEnd = s.lastWindowEnd + d.windowLedgers + 1

instance (d : Deployment) (s : Service) (a : Action) : Decidable (Undisturbed d s a) :=
  inferInstanceAs (Decidable (∀ p ∈ s.completing d a, p.read = s.lastWindowEnd ∨
    p.read = 0 ∧ p.window.windowEnd = s.lastWindowEnd + d.windowLedgers + 1))

/-- `lastWindowEnd` is the end of the last completed window, and no window ends after it. -/
structure Sequenced (d : Deployment) (s : Service) : Prop where
  sound : s.Sound d s.lastWindowEnd
  nonneg : 0 ≤ s.lastWindowEnd
  last : s.lastWindowEnd = (s.windows.getLast?.map (·.windowEnd)).getD 0
  ends : ∀ w ∈ s.windows, 0 < w.windowEnd ∧ w.windowEnd ≤ s.lastWindowEnd

/-- In an undisturbed step a completed window is the next one. -/
theorem Sequenced.starts_after {n : Int} (hp : p.Sound d.windowLedgers n)
    (h : p.read = n ∨ p.read = 0 ∧ p.window.windowEnd = n + d.windowLedgers + 1) (hn : n ≠ 0) :
    p.window.windowStart = n + 1 := by
  obtain ⟨-, -, hstart⟩ := scheduleWindow_eq hp.window
  rw [hstart]
  rcases h with hread | ⟨hread, hend⟩
  · rw [if_neg (by omega), hread]
  · rw [if_pos hread, hend]
    omega

theorem Sequenced.undisturbed {n : Int} (hp : p.Sound d.windowLedgers n)
    (h : p.window.windowStart = n + 1) :
    p.read = n ∨ p.read = 0 ∧ p.window.windowEnd = n + d.windowLedgers + 1 := by
  obtain ⟨-, -, hstart⟩ := scheduleWindow_eq hp.window
  rw [hstart] at h
  split at h
  · rename_i hread
    exact Or.inr ⟨hread, by omega⟩
  · exact Or.inl (by omega)

theorem Sequenced.same (h : Sequenced d s) (hs : SameWindows s s')
    (hsound : s'.Sound d s.lastWindowEnd) : Sequenced d s' := by
  have hwindows : s'.windows = s.windows := congrArg (List.map Prod.fst) hs.completed
  refine ⟨?_, ?_, ?_, ?_⟩
  · rw [hs.lastWindowEnd]
    exact hsound
  · rw [hs.lastWindowEnd]
    exact h.nonneg
  · rw [hs.lastWindowEnd, hwindows]
    exact h.last
  · rw [hs.lastWindowEnd, hwindows]
    exact h.ends

theorem windows_append {rows : List CreatorStats}
    (h : s'.completed = s.completed ++ [(p.window, rows)]) :
    s'.windows = s.windows ++ [p.window] := by
  rw [Service.windows, h, List.map_append]
  rfl

/-- An undisturbed step raises `lastWindowEnd` if it changes it. -/
theorem Sequenced.next (h : Sequenced d s) (hC : Undisturbed d s a) (hnext : s.next d a = some s') :
    Sequenced d s' ∧ s.lastWindowEnd ≤ s'.lastWindowEnd := by
  have hsound := h.sound.next h.nonneg le_rfl hnext
  rcases next_windows hnext with ⟨-, hs⟩ | ⟨t, ht, p, rows, hrunning, hdone, hlast, hcompleted⟩
  · exact ⟨h.same hs hsound, hs.lastWindowEnd.ge⟩
  · obtain ⟨hp, hpos⟩ := (h.sound t ht).running hrunning
    have hlt := (scheduleWindow_eq hp.window).2.1
    have hrise : s.lastWindowEnd ≤ p.window.windowEnd := by
      by_cases hzero : s.lastWindowEnd = 0
      · omega
      · have hstart := Sequenced.starts_after hp (hC p hdone) hzero
        omega
    have hwindows := windows_append hcompleted
    refine ⟨⟨?_, ?_, ?_, ?_⟩, hlast ▸ hrise⟩
    · exact fun t' ht' => (hsound t' ht').mono (hlast ▸ hrise)
    · rw [hlast]
      omega
    · rw [hlast, hwindows, List.getLast?_append]
      rfl
    · intro w hw
      rw [hwindows] at hw
      rw [hlast]
      rcases List.mem_append.mp hw with hold | hnew
      · exact ⟨(h.ends w hold).1, (h.ends w hold).2.trans hrise⟩
      · rw [List.mem_singleton.mp hnew]
        exact ⟨by omega, le_rfl⟩

/-- The windows stay disjoint and consecutive in an undisturbed step. -/
theorem Sequenced.partitioned (h : Sequenced d s) (hs : s.Partitioned) (hC : Undisturbed d s a)
    (hnext : s.next d a = some s') : s'.Partitioned := by
  rcases next_windows hnext with
    ⟨-, hsame⟩ | ⟨t, ht, p, rows, hrunning, hdone, -, hcompleted⟩
  · have hwindows : s'.windows = s.windows := congrArg (List.map Prod.fst) hsame.completed
    rw [Service.Partitioned, hwindows]
    exact hs
  · obtain ⟨hp, -⟩ := (h.sound t ht).running hrunning
    have hnew : ∀ w ∈ s.windows, p.window.windowStart = s.lastWindowEnd + 1 := by
      intro w hw
      have hends := h.ends w hw
      exact Sequenced.starts_after hp (hC p hdone) (by omega)
    rw [Service.Partitioned, windows_append hcompleted]
    refine ⟨List.pairwise_append.mpr ⟨hs.1, List.pairwise_singleton _ _, ?_⟩,
      List.isChain_append.mpr ⟨hs.2, List.isChain_singleton _, ?_⟩⟩
    · intro w hw w' hw'
      obtain rfl := List.mem_singleton.mp hw'
      have hends := (h.ends w hw).2
      have hstart := hnew w hw
      rw [Set.disjoint_left]
      intro n hn hn'
      have hle := hn.2
      have hge := hn'.1
      omega
    · intro w hw w' hw'
      obtain rfl := Option.some.inj hw'
      have hend : s.lastWindowEnd = w.windowEnd := by rw [h.last, hw]; rfl
      rw [hnew w (List.mem_of_getLast? hw), hend]

/-- In no other step do they. -/
theorem Sequenced.undisturbed_of (h : Sequenced d s) (hnext : s.next d a = some s')
    (hs' : s'.Partitioned) : Undisturbed d s a := by
  intro q hq
  rcases next_windows hnext with
    ⟨hnone, -⟩ | ⟨t, ht, p, rows, hrunning, hdone, -, hcompleted⟩
  · rw [hnone] at hq
    cases hq
  · obtain rfl := Option.some.inj (hdone.symm.trans hq)
    obtain ⟨hp, -⟩ := (h.sound t ht).running hrunning
    have hchain := hs'.2
    rw [windows_append hcompleted] at hchain
    cases hlast : s.windows.getLast? with
    | none =>
      -- No window has been completed, so the pass has read zero.
      have hzero : s.lastWindowEnd = 0 := by rw [h.last, hlast]; rfl
      have hnonneg := hp.nonneg
      have hread := hp.read
      exact Or.inl (by omega)
    | some w =>
      have hstart := (List.isChain_append.mp hchain).2.2 w hlast p.window rfl
      have hend : s.lastWindowEnd = w.windowEnd := by rw [h.last, hlast]; rfl
      exact Sequenced.undisturbed hp (by rw [hstart, hend])

theorem sequenced_start (d : Deployment) (seed : Bytes) (maxSize ttlMs : Nat) (h : 0 < maxSize)
    (now : Int) : Sequenced d (Service.start d seed maxSize ttlMs h now) where
  sound t ht := by
    rw [List.mem_singleton.mp ht]
    trivial
  nonneg := le_rfl
  last := rfl
  ends _ hw := absurd hw List.not_mem_nil

/-- In every state of the run the windows are a partition, and `lastWindowEnd` does not
decrease from one state to a later one. -/
structure Partitions (d : Deployment) (s₀ : Service) (acts : List Action) : Prop where
  windows : Throughout (Service.next d) Service.Partitioned s₀ acts
  rises : ∀ before between after x y, acts = before ++ between ++ after →
    Run (Service.Step d) s₀ before x → Run (Service.Step d) x between y →
    x.lastWindowEnd ≤ y.lastWindowEnd

theorem Sequenced.run {acts : List Action} (h : Sequenced d s)
    (hrun : Run (Run.Guarded (Service.Step d) (Undisturbed d)) s acts s') :
    Sequenced d s' ∧ s.lastWindowEnd ≤ s'.lastWindowEnd := by
  refine hrun.invariant (I := fun x => Sequenced d x ∧ s.lastWindowEnd ≤ x.lastWindowEnd) ?_
    ⟨h, le_rfl⟩
  intro x a y hx hxy
  obtain ⟨hy, hle⟩ := hx.1.next hxy.2 hxy.1
  exact ⟨hy, hx.2.trans hle⟩

/-- The windows that a run completes are disjoint and consecutive, with a `lastWindowEnd` that
never decreases, just when every window is completed while `lastWindowEnd` is still what it was
computed from. -/
theorem windows_partition_iff {seed : Bytes} {maxSize ttlMs : Nat} {hsize : 0 < maxSize} {now : Int}
    {acts : List Action}
    (h : Run (Service.Step d) (Service.start d seed maxSize ttlMs hsize now) acts s) :
    Partitions d (Service.start d seed maxSize ttlMs hsize now) acts ↔
      Run (Run.Guarded (Service.Step d) (Undisturbed d))
        (Service.start d seed maxSize ttlMs hsize now) acts s := by
  have hstart := sequenced_start d seed maxSize ttlMs hsize now
  constructor
  · intro hp
    exact guarded_of_throughout hstart (fun x a y hx hC hxy => (hx.next hC hxy).1)
      (fun x a y hx hxy hy => hx.undisturbed_of hxy hy) h hp.windows
  intro hg
  have hkept := throughout_of_guarded (I := fun x => Sequenced d x ∧ x.Partitioned)
    ⟨hstart, List.Pairwise.nil, List.isChain_nil⟩
    (fun x a y hx hC hxy => ⟨(hx.1.next hC hxy).1, hx.1.partitioned hx.2 hC hxy⟩) hg
  refine ⟨hkept.mono fun x hx => hx.2, ?_⟩
  intro before between after x y hacts hx hy
  rw [hacts] at hg
  obtain ⟨y', hy', -⟩ := hg.split
  obtain ⟨x', hx', hxy'⟩ := hy'.split
  obtain rfl := hx.unique hx'.of_guarded
  obtain rfl := hy.unique hxy'.of_guarded
  exact ((hstart.run hx').1.run hxy').2

/-- Two windows, one after the other. -/
def orderlyTicks : List Action :=
  [.latestLedger 0 (some 100), .creatorStats 0 (some []), .timer, .latestLedger 1 (some 110),
    .creatorStats 1 (some [])]

theorem windows_partition_iff_orderly : ∃ s,
    Run (Service.Step demoDeployment) demoStart orderlyTicks s ∧
    s.windows = [⟨90, 100⟩, ⟨101, 110⟩] ∧ Partitions demoDeployment demoStart orderlyTicks := by
  have hsome : ((walk (restrict (Service.next demoDeployment) (Undisturbed demoDeployment))
      orderlyTicks demoStart).map Service.windows) = some [⟨90, 100⟩, ⟨101, 110⟩] := by
    decide
  obtain ⟨s, hs, hwindows⟩ := Option.map_eq_some_iff.mp hsome
  have hg := guarded_of_walk hs
  exact ⟨s, hg.of_guarded, hwindows, (windows_partition_iff hg.of_guarded).mpr hg⟩

/-- The statistics of the second tick are slow.  The third tick completes a window that starts
where the second's does, and then the second completes its own. -/
def overlappingTicks : List Action :=
  [.latestLedger 0 (some 100), .creatorStats 0 (some []), .timer, .latestLedger 1 (some 110),
    .timer, .latestLedger 2 (some 120), .creatorStats 2 (some []), .creatorStats 1 (some [])]

theorem windows_overlap : ∃ x s,
    Run (Service.Step demoDeployment) demoStart (overlappingTicks.take 7) x ∧
    Service.next demoDeployment x (.creatorStats 1 (some [])) = some s ∧
    x.lastWindowEnd = 120 ∧ s.lastWindowEnd = 110 ∧
    s.windows = [⟨90, 100⟩, ⟨101, 120⟩, ⟨101, 110⟩] ∧ ¬ s.Partitioned := by
  have hsome : ((demoRun (overlappingTicks.take 7)).bind fun x =>
      (Service.next demoDeployment x (.creatorStats 1 (some []))).map fun s =>
        (x.lastWindowEnd, s.lastWindowEnd, s.windows)) =
      some (120, 110, [⟨90, 100⟩, ⟨101, 120⟩, ⟨101, 110⟩]) := by
    decide
  obtain ⟨x, hx, hnext⟩ := Option.bind_eq_some_iff.mp hsome
  obtain ⟨s, hs, hvalues⟩ := Option.map_eq_some_iff.mp hnext
  obtain ⟨hlast, hlast', hwindows⟩ := Prod.mk.inj hvalues |>.imp_right Prod.mk.inj
  refine ⟨x, s, run_of_walk hx, hs, hlast, hlast', hwindows, fun hp => ?_⟩
  have hchain := hp.2
  rw [hwindows] at hchain
  revert hchain
  decide

end Oracle
end Linkora
