import Mathlib.Data.List.Induction

/-!
# The circuit breaker of the event stream

The stream loop fetches a page, processes it, and hands every error to a circuit breaker
that tells transport faults from persistent failures.  The loop reports a success to the
breaker as soon as the fetch returns, before the batch is processed, so a failure of the
processing is counted from zero.
-/

namespace Linkora
namespace Indexer

/-- What a `catch` receives: an object with the fields the classification reads, or a value
that is not an object. -/
inductive Thrown where
  | value
  | object (code : Option String) (status : Option Int) (message : Option String)
      (cause : Thrown)
deriving DecidableEq, Repr

/-- The fields of one object of a `cause` chain. -/
structure ErrorLink where
  code : Option String
  status : Option Int
  message : Option String
deriving DecidableEq, Repr

/-- `errorChain`: at most `maxDepth` objects along `cause`. -/
def errorChain : Nat → Thrown → List ErrorLink
  | 0, _ => []
  | _ + 1, .value => []
  | maxDepth + 1, .object code status message cause =>
    { code, status, message } :: errorChain maxDepth cause

def RETRIABLE_ERROR_CODES : List String :=
  ["ECONNREFUSED", "ECONNRESET", "ETIMEDOUT", "EPIPE", "EHOSTUNREACH", "ENETUNREACH",
    "ENETDOWN", "EAI_AGAIN", "UND_ERR_CONNECT_TIMEOUT", "UND_ERR_HEADERS_TIMEOUT",
    "UND_ERR_BODY_TIMEOUT", "UND_ERR_SOCKET"]

def RETRIABLE_MESSAGE_PATTERNS : List String :=
  ["timeout exceeded when trying to connect", "connection terminated unexpectedly",
    "connection terminated due to connection timeout", "too many clients already"]

/-- A literal pattern with the flag `i`, looked for anywhere in the text.  The patterns are
in lower case, and without the flag `u` only ASCII letters are folded. -/
def matchesIgnoringCase (pattern text : String) : Bool :=
  (text.toList.map Char.toLower).tails.any pattern.toList.isPrefixOf

def ErrorLink.isRetriable (link : ErrorLink) : Bool :=
  link.code.any (RETRIABLE_ERROR_CODES.contains ·) ||
    link.status.any (fun status => status == 429 || decide (500 ≤ status)) ||
    link.message.any fun message =>
      RETRIABLE_MESSAGE_PATTERNS.any (matchesIgnoringCase · message)

def isRetriableStreamError (error : Thrown) : Bool :=
  (errorChain 5 error).any ErrorLink.isRetriable

def isSerializationConflict : Thrown → Bool
  | .value => false
  | .object code _ _ _ => code == some "40001" || code == some "40P01"

/-- An error that is neither a serialization conflict nor a transport fault. -/
def Thrown.isPersistent (error : Thrown) : Bool :=
  !isSerializationConflict error && !isRetriableStreamError error

inductive StreamCircuitState where
  | closed
  | opened
  | halfOpen
deriving DecidableEq, Repr

structure StreamCircuitBreaker where
  state : StreamCircuitState
  persistentFailures : Nat
  retriableFailures : Nat
  threshold : Nat
deriving DecidableEq, Repr

namespace StreamCircuitBreaker

/-- The constructor of the class. -/
def new (threshold : Nat) : StreamCircuitBreaker :=
  { state := .closed, persistentFailures := 0, retriableFailures := 0,
    threshold := max 1 threshold }

def recordSuccess (b : StreamCircuitBreaker) : StreamCircuitBreaker :=
  { b with state := .closed, persistentFailures := 0, retriableFailures := 0 }

def recordRetriableFailure (b : StreamCircuitBreaker) : StreamCircuitBreaker :=
  { b with retriableFailures := b.retriableFailures + 1 }

/-- The flag says whether this call opened the breaker. -/
def recordPersistentFailure (b : StreamCircuitBreaker) : StreamCircuitBreaker × Bool :=
  let b' := { b with persistentFailures := b.persistentFailures + 1 }
  if b.state = .halfOpen then
    ({ b' with state := .opened }, true)
  else if b.state = .closed ∧ b.threshold ≤ b'.persistentFailures then
    ({ b' with state := .opened }, true)
  else
    (b', false)

def beginProbe (b : StreamCircuitBreaker) : StreamCircuitBreaker :=
  if b.state = .opened then { b with state := .halfOpen } else b

end StreamCircuitBreaker

/-- How one iteration of the loop ends: the fetch throws, the gap recovery or the processing
of the fetched page throws, or the page is processed (a full page is followed by the next one
at once). -/
inductive Attempt where
  | fetchFailed (error : Thrown)
  | batchFailed (error : Thrown)
  | completed (fullPage : Bool)
deriving DecidableEq, Repr

namespace Attempt

def error? : Attempt → Option Thrown
  | .fetchFailed error => some error
  | .batchFailed error => some error
  | .completed _ => none

/-- The iteration fails with a persistent error. -/
def isPersistent (a : Attempt) : Bool := a.error?.any Thrown.isPersistent

/-- The iteration fails with a conflict or a transport fault. -/
def isTransient (a : Attempt) : Bool := a.error?.any fun error => !error.isPersistent

end Attempt

/-- What the loop waits for before its next iteration. -/
inductive Wait where
  | none
  | poll
  | probe
deriving DecidableEq, Repr

theorem Wait.ne_probe_of_poll {w : Wait} (h : w = .poll) : w ≠ .probe := by
  rw [h]
  decide

namespace StreamCircuitBreaker

/-- The `catch` block up to the wait. -/
def onError (b : StreamCircuitBreaker) (error : Thrown) : StreamCircuitBreaker × Wait :=
  if isSerializationConflict error then
    (b, .poll)
  else if isRetriableStreamError error then
    (b.recordRetriableFailure, .poll)
  else
    let (b', opened) := b.recordPersistentFailure
    (b', if opened then .probe else .poll)

/-- One iteration up to the wait: `recordSuccess` runs right after the fetch. -/
def attempt (b : StreamCircuitBreaker) : Attempt → StreamCircuitBreaker × Wait
  | .fetchFailed error => b.onError error
  | .batchFailed error => b.recordSuccess.onError error
  | .completed fullPage => (b.recordSuccess, if fullPage then .none else .poll)

/-- One iteration with the wait after it. -/
def iterate (b : StreamCircuitBreaker) (a : Attempt) : StreamCircuitBreaker :=
  if (b.attempt a).2 = .probe then (b.attempt a).1.beginProbe else (b.attempt a).1

/-- The breaker after the given iterations of the loop. -/
def after (threshold : Nat) (attempts : List Attempt) : StreamCircuitBreaker :=
  attempts.foldl iterate (new threshold)

section

variable {b : StreamCircuitBreaker} {error : Thrown} {a : Attempt} {n : Nat}

/-- A transient error leaves the state and the count of persistent failures. -/
theorem onError_of_transient (h : error.isPersistent = false) :
    (b.onError error).1.state = b.state ∧
      (b.onError error).1.persistentFailures = b.persistentFailures ∧
      (b.onError error).2 = .poll := by
  rw [onError]
  by_cases hc : isSerializationConflict error = true
  · rw [if_pos hc]
    exact ⟨rfl, rfl, rfl⟩
  · have hr : isRetriableStreamError error = true := by
      simpa [Thrown.isPersistent, hc] using h
    rw [if_neg hc, if_pos hr]
    exact ⟨rfl, rfl, rfl⟩

theorem onError_of_persistent (h : error.isPersistent = true) :
    b.onError error =
      (b.recordPersistentFailure.1, if b.recordPersistentFailure.2 then .probe else .poll) := by
  have hc : isSerializationConflict error = false := by
    rw [Thrown.isPersistent, Bool.and_eq_true] at h
    simpa using h.1
  have hr : isRetriableStreamError error = false := by
    rw [Thrown.isPersistent, Bool.and_eq_true] at h
    simpa using h.2
  rw [onError, hc, hr, if_neg Bool.false_ne_true, if_neg Bool.false_ne_true]

/-- A persistent error of a half-open breaker, or one that reaches the threshold, opens it. -/
theorem onError_opens (h : error.isPersistent = true)
    (hopen : b.state = .halfOpen ∨
      b.state = .closed ∧ b.threshold ≤ b.persistentFailures + 1) :
    (b.onError error).1.state = .opened ∧ (b.onError error).2 = .probe := by
  rw [onError_of_persistent h]
  rcases hopen with hhalf | hclosed
  · rw [recordPersistentFailure, if_pos hhalf]
    exact ⟨rfl, rfl⟩
  · have hne : b.state ≠ .halfOpen := by
      rw [hclosed.1]
      decide
    rw [recordPersistentFailure, if_neg hne, if_pos hclosed]
    exact ⟨rfl, rfl⟩

/-- Below the threshold a persistent error of a closed breaker is counted. -/
theorem onError_counts (h : error.isPersistent = true) (hclosed : b.state = .closed)
    (hlt : b.persistentFailures + 1 < b.threshold) :
    (b.onError error).1.state = .closed ∧
      (b.onError error).1.persistentFailures = b.persistentFailures + 1 ∧
      (b.onError error).2 = .poll := by
  have hne : b.state ≠ .halfOpen := by
    rw [hclosed]
    decide
  have hbelow : ¬(b.state = .closed ∧ b.threshold ≤ b.persistentFailures + 1) := by
    intro hreach
    omega
  rw [onError_of_persistent h, recordPersistentFailure, if_neg hne, if_neg hbelow]
  exact ⟨hclosed, rfl, rfl⟩

theorem threshold_onError : (b.onError error).1.threshold = b.threshold := by
  rw [onError]
  split
  · rfl
  · split
    · rfl
    · show b.recordPersistentFailure.1.threshold = b.threshold
      rw [recordPersistentFailure]
      split
      · rfl
      · split <;> rfl

theorem threshold_attempt : (b.attempt a).1.threshold = b.threshold := by
  cases a with
  | fetchFailed error => exact threshold_onError
  | batchFailed error => exact threshold_onError
  | completed fullPage => rfl

theorem state_beginProbe (h : b.state = .opened) : b.beginProbe.state = .halfOpen := by
  rw [beginProbe, if_pos h]

theorem threshold_iterate : (b.iterate a).threshold = b.threshold := by
  rw [iterate]
  split
  · rw [beginProbe]
    split
    · exact threshold_attempt
    · exact threshold_attempt
  · exact threshold_attempt

/-- What holds of the breaker whenever the loop starts an iteration. -/
structure Ready (b : StreamCircuitBreaker) : Prop where
  pos : 1 ≤ b.threshold
  notOpened : b.state ≠ .opened
  below : b.state = .closed → b.persistentFailures < b.threshold

theorem ready_new (threshold : Nat) : Ready (new threshold) :=
  ⟨Nat.le_max_left 1 threshold, StreamCircuitState.noConfusion,
    fun _ => Nat.le_max_left 1 threshold⟩

theorem Ready.recordSuccess (h : Ready b) : Ready b.recordSuccess :=
  ⟨h.pos, StreamCircuitState.noConfusion, fun _ => h.pos⟩

theorem Ready.eq_closed_or_halfOpen (h : Ready b) : b.state = .closed ∨ b.state = .halfOpen := by
  have hne := h.notOpened
  cases hb : b.state with
  | closed => exact Or.inl rfl
  | opened => exact absurd hb hne
  | halfOpen => exact Or.inr rfl

/-- The error either opens the breaker and is followed by a probe wait, or leaves it ready. -/
theorem Ready.onError (h : Ready b) (error : Thrown) :
    ((b.onError error).1.state = .opened ∧ (b.onError error).2 = .probe) ∨
      (Ready (b.onError error).1 ∧ (b.onError error).2 = .poll) := by
  by_cases he : error.isPersistent = true
  · by_cases hopen : b.state = .halfOpen ∨
        b.state = .closed ∧ b.threshold ≤ b.persistentFailures + 1
    · exact Or.inl (onError_opens he hopen)
    · have hclosed : b.state = .closed := by
        rcases h.eq_closed_or_halfOpen with hc | hh
        · exact hc
        · exact absurd (Or.inl hh) hopen
      have hlt : b.persistentFailures + 1 < b.threshold := by
        by_contra hle
        exact hopen (Or.inr ⟨hclosed, by omega⟩)
      have hstay := onError_counts he hclosed hlt
      refine Or.inr ⟨⟨?_, ?_, fun _ => ?_⟩, hstay.2.2⟩
      · rw [threshold_onError]
        exact h.pos
      · rw [hstay.1]
        decide
      · rw [hstay.2.1, threshold_onError]
        exact hlt
  · have hstay := onError_of_transient (b := b) (Bool.eq_false_iff.mpr he)
    refine Or.inr ⟨⟨?_, ?_, fun hc => ?_⟩, hstay.2.2⟩
    · rw [threshold_onError]
      exact h.pos
    · rw [hstay.1]
      exact h.notOpened
    · rw [hstay.2.1, threshold_onError]
      exact h.below (hstay.1 ▸ hc)

theorem Ready.attempt (h : Ready b) (a : Attempt) :
    ((b.attempt a).1.state = .opened ∧ (b.attempt a).2 = .probe) ∨
      (Ready (b.attempt a).1 ∧ (b.attempt a).2 ≠ .probe) := by
  cases a with
  | fetchFailed error =>
    exact (h.onError error).imp_right (And.imp_right Wait.ne_probe_of_poll)
  | batchFailed error =>
    exact (h.recordSuccess.onError error).imp_right (And.imp_right Wait.ne_probe_of_poll)
  | completed fullPage =>
    refine Or.inr ⟨h.recordSuccess, ?_⟩
    show (if fullPage then Wait.none else .poll) ≠ .probe
    cases fullPage with
    | false => exact Wait.noConfusion
    | true => exact Wait.noConfusion

/-- An iteration that opens the breaker leaves it half-open for the next one. -/
theorem state_iterate_of_opened (h : Ready b) (ho : (b.attempt a).1.state = .opened) :
    (b.iterate a).state = .halfOpen := by
  rcases h.attempt a with hopen | hstay
  · rw [iterate, if_pos hopen.2]
    exact state_beginProbe ho
  · exact absurd ho hstay.1.notOpened

theorem iterate_of_not_opened (h : Ready b) (ho : (b.attempt a).1.state ≠ .opened) :
    b.iterate a = (b.attempt a).1 := by
  rcases h.attempt a with hopen | hstay
  · exact absurd hopen.1 ho
  · rw [iterate, if_neg hstay.2]

theorem Ready.iterate (h : Ready b) (a : Attempt) : Ready (b.iterate a) := by
  by_cases ho : (b.attempt a).1.state = .opened
  · have hhalf := state_iterate_of_opened h ho
    refine ⟨?_, ?_, fun hc => ?_⟩
    · rw [threshold_iterate]
      exact h.pos
    · rw [hhalf]
      decide
    · rw [hhalf] at hc
      cases hc
  · rw [iterate_of_not_opened h ho]
    rcases h.attempt a with hopen | hstay
    · exact absurd hopen.1 ho
    · exact hstay.1

theorem after_snoc (attempts : List Attempt) (a : Attempt) :
    after n (attempts ++ [a]) = (after n attempts).iterate a := by
  rw [after, List.foldl_append]
  rfl

theorem ready_after (n : Nat) (attempts : List Attempt) : Ready (after n attempts) := by
  induction attempts using List.reverseRecOn with
  | nil => exact ready_new n
  | append_singleton init a ih =>
    rw [after_snoc]
    exact ih.iterate a

theorem threshold_after (n : Nat) (attempts : List Attempt) :
    (after n attempts).threshold = max 1 n := by
  induction attempts using List.reverseRecOn with
  | nil => rfl
  | append_singleton init a ih =>
    rw [after_snoc, threshold_iterate]
    exact ih

end

end StreamCircuitBreaker

/-- What the breaker is for, over the iterations of one run: it opens on as many consecutive
persistent failures as the threshold says, a transient error never opens it, and once open it
lets one iteration through for each probe wait until one completes. -/
structure BreaksOnPersistentFailure (n : Nat) (attempts : List Attempt) : Prop where
  opens : ∀ init window a post, attempts = init ++ (window ++ a :: post) →
    window.length + 1 = n → (∀ x ∈ window ++ [a], x.isPersistent = true) →
      ((StreamCircuitBreaker.after n (init ++ window)).attempt a).1.state = .opened
  transient : ∀ init a post, attempts = init ++ a :: post → a.isTransient = true →
    ((StreamCircuitBreaker.after n init).attempt a).1.state ≠ .opened
  waits : ∀ init a post, attempts = init ++ a :: post →
    ((StreamCircuitBreaker.after n init).attempt a).1.state = .opened →
      ((StreamCircuitBreaker.after n init).attempt a).2 = .probe
  probes : ∀ init a mid x post, attempts = init ++ a :: (mid ++ x :: post) →
    ((StreamCircuitBreaker.after n init).attempt a).1.state = .opened →
      (∀ y ∈ mid ++ [x], y.error?.isSome = true) →
        ((StreamCircuitBreaker.after n (init ++ a :: mid)).attempt x).2 = .probe

/-- The iteration `a`, after the iterations `init`, neither loses the count of the persistent
failures right before it nor ends a probe without a wait: a persistent failure of the
processing comes neither right after another persistent failure nor as a probe (unless one
failure is enough), and a probe does not fail with a transient error. -/
def Attempt.Undisturbed (n : Nat) (init : List Attempt) (a : Attempt) : Prop :=
  (∀ error, a = .batchFailed error → error.isPersistent = true → n = 1 ∨
    (StreamCircuitBreaker.after n init).state = .closed ∧
      ∀ previous ∈ init.getLast?, previous.isPersistent = false) ∧
  (a.isTransient = true → (StreamCircuitBreaker.after n init).state ≠ .halfOpen)

section

open StreamCircuitBreaker

variable {n : Nat} {init : List Attempt} {a : Attempt}

/-- Every iteration of the run is undisturbed. -/
def UndisturbedRun (n : Nat) (attempts : List Attempt) : Prop :=
  ∀ init a post, attempts = init ++ a :: post → a.Undisturbed n init

/-- Where the processing may fail at all, nothing persistent came right before it, or one
failure is enough. -/
theorem window_eq_nil_or {window : List Attempt} {error : Thrown}
    (hu : (Attempt.batchFailed error).Undisturbed n (init ++ window))
    (hw : ∀ x ∈ window, x.isPersistent = true) (he : error.isPersistent = true) :
    n = 1 ∨ window = [] := by
  rcases hu.1 error rfl he with hone | ⟨-, hlast⟩
  · exact Or.inl hone
  · right
    by_contra hne
    have hmem : window.getLast hne ∈ (init ++ window).getLast? := by
      rw [List.getLast?_append, List.getLast?_eq_some_getLast hne]
      rfl
    have hfalse := hlast _ hmem
    rw [hw _ (List.getLast_mem hne)] at hfalse
    cases hfalse

/-- A persistent failure opens a half-open breaker, and a closed one when it is the `n`-th in
a row. -/
theorem attempt_opens {window : List Attempt} (hn : 1 ≤ n)
    (hu : a.Undisturbed n (init ++ window)) (hw : ∀ x ∈ window, x.isPersistent = true)
    (ha : a.isPersistent = true)
    (hcount : (after n (init ++ window)).state = .halfOpen ∨
      (n ≤ window.length + 1 ∧ window.length ≤ (after n (init ++ window)).persistentFailures)) :
    ((after n (init ++ window)).attempt a).1.state = .opened ∧
      ((after n (init ++ window)).attempt a).2 = .probe := by
  have hready := ready_after n (init ++ window)
  have hthreshold : (after n (init ++ window)).threshold = n := by
    rw [threshold_after]
    omega
  cases a with
  | fetchFailed error =>
    apply onError_opens ha
    rcases hready.eq_closed_or_halfOpen with hclosed | hhalf
    · have hreach := hcount.resolve_left (by rw [hclosed]; decide)
      exact Or.inr ⟨hclosed, by omega⟩
    · exact Or.inl hhalf
  | batchFailed error =>
    have hone : n = 1 := by
      rcases window_eq_nil_or hu hw ha with hone | rfl
      · exact hone
      · rcases hu.1 error rfl ha with hone | ⟨hclosed, -⟩
        · exact hone
        · have hreach := (hcount.resolve_left (by rw [hclosed]; decide)).1
          rw [List.length_nil] at hreach
          omega
    apply onError_opens ha
    refine Or.inr ⟨rfl, ?_⟩
    show (after n (init ++ window)).threshold ≤ 0 + 1
    omega
  | completed fullPage => cases ha

/-- A persistent failure that does not open the breaker extends the counted streak. -/
theorem attempt_counts {window : List Attempt} (hn : 1 ≤ n)
    (hu : a.Undisturbed n (init ++ window)) (hw : ∀ x ∈ window, x.isPersistent = true)
    (ha : a.isPersistent = true)
    (hcount : (after n (init ++ window)).state = .halfOpen ∨
      window.length ≤ (after n (init ++ window)).persistentFailures)
    (ho : ((after n (init ++ window)).attempt a).1.state ≠ .opened) :
    window.length + 1 ≤ ((after n (init ++ window)).attempt a).1.persistentFailures := by
  have hready := ready_after n (init ++ window)
  have hthreshold : (after n (init ++ window)).threshold = n := by
    rw [threshold_after]
    omega
  cases a with
  | fetchFailed error =>
    have hclosed : (after n (init ++ window)).state = .closed := by
      rcases hready.eq_closed_or_halfOpen with hclosed | hhalf
      · exact hclosed
      · exact absurd (onError_opens ha (Or.inl hhalf)).1 ho
    have hlt : (after n (init ++ window)).persistentFailures + 1 <
        (after n (init ++ window)).threshold := by
      by_contra hle
      exact ho (onError_opens ha (Or.inr ⟨hclosed, by omega⟩)).1
    have hlen := hcount.resolve_left (by rw [hclosed]; decide)
    have hc := (onError_counts ha hclosed hlt).2.1
    show window.length + 1 ≤ ((after n (init ++ window)).onError error).1.persistentFailures
    omega
  | batchFailed error =>
    have hlt : (after n (init ++ window)).recordSuccess.persistentFailures + 1 <
        (after n (init ++ window)).recordSuccess.threshold := by
      by_contra hle
      exact ho (onError_opens ha (Or.inr ⟨rfl, by omega⟩)).1
    have hc := (onError_counts (b := (after n (init ++ window)).recordSuccess) ha rfl hlt).2.1
    show window.length + 1 ≤
      ((after n (init ++ window)).recordSuccess.onError error).1.persistentFailures
    rw [hc]
    show window.length + 1 ≤ 0 + 1
    have hlt' : 0 + 1 < (after n (init ++ window)).threshold := hlt
    rcases window_eq_nil_or hu hw ha with hone | rfl
    · omega
    · exact Nat.le_refl 1
  | completed fullPage => cases ha

/-- After `k` persistent failures in a row the breaker is half-open or has counted them. -/
theorem streak_counted {attempts : List Attempt} (hn : 1 ≤ n)
    (hu : UndisturbedRun n attempts) (init window post : List Attempt)
    (hattempts : attempts = init ++ (window ++ post))
    (hw : ∀ x ∈ window, x.isPersistent = true) :
    (after n (init ++ window)).state = .halfOpen ∨
      window.length ≤ (after n (init ++ window)).persistentFailures := by
  induction window using List.reverseRecOn generalizing post with
  | nil => exact Or.inr (Nat.zero_le _)
  | append_singleton window a ih =>
    have hsplit : attempts = init ++ (window ++ a :: post) := by
      rw [hattempts, List.append_assoc, List.singleton_append]
    have hw' : ∀ x ∈ window, x.isPersistent = true := fun x hx =>
      hw x (List.mem_append_left _ hx)
    have ha : a.isPersistent = true :=
      hw a (List.mem_append_right _ (List.mem_singleton_self a))
    have hua : a.Undisturbed n (init ++ window) := hu (init ++ window) a post (by
      rw [hsplit, List.append_assoc])
    have hcount := ih (a :: post) hsplit hw'
    have hready := ready_after n (init ++ window)
    rw [← List.append_assoc, after_snoc, List.length_append, List.length_singleton]
    by_cases ho : ((after n (init ++ window)).attempt a).1.state = .opened
    · exact Or.inl (state_iterate_of_opened hready ho)
    · rw [iterate_of_not_opened hready ho]
      exact Or.inr (attempt_counts hn hua hw' ha hcount ho)

/-- A failing probe of an undisturbed run reopens the breaker. -/
theorem probe_reopens (hn : 1 ≤ n) (hu : a.Undisturbed n init)
    (hhalf : (after n init).state = .halfOpen) (hfail : a.error?.isSome = true) :
    ((after n init).attempt a).1.state = .opened ∧ ((after n init).attempt a).2 = .probe := by
  have ha : a.isPersistent = true := by
    by_contra hnot
    refine hu.2 ?_ hhalf
    cases a with
    | fetchFailed error => exact Bool.not_eq_true' _ ▸ (Bool.eq_false_iff.mpr hnot)
    | batchFailed error => exact Bool.not_eq_true' _ ▸ (Bool.eq_false_iff.mpr hnot)
    | completed fullPage => cases hfail
  have hu' : a.Undisturbed n (init ++ []) := by rwa [List.append_nil]
  have hopens := attempt_opens hn hu' (fun x hx => absurd hx List.not_mem_nil) ha
    (Or.inl (by rwa [List.append_nil]))
  rwa [List.append_nil] at hopens

/-- From a half-open breaker failing probes lead to a half-open breaker. -/
theorem probes_stay {attempts : List Attempt} (hn : 1 ≤ n)
    (hu : UndisturbedRun n attempts) (init mid post : List Attempt)
    (hattempts : attempts = init ++ (mid ++ post))
    (hhalf : (after n init).state = .halfOpen) (hmid : ∀ y ∈ mid, y.error?.isSome = true) :
    (after n (init ++ mid)).state = .halfOpen := by
  induction mid using List.reverseRecOn generalizing post with
  | nil => rwa [List.append_nil]
  | append_singleton mid a ih =>
    have hsplit : attempts = init ++ (mid ++ a :: post) := by
      rw [hattempts, List.append_assoc, List.singleton_append]
    have hprev := ih (a :: post) hsplit fun y hy => hmid y (List.mem_append_left _ hy)
    have hua : a.Undisturbed n (init ++ mid) := hu (init ++ mid) a post (by
      rw [hsplit, List.append_assoc])
    have hfail := hmid a (List.mem_append_right _ (List.mem_singleton_self a))
    rw [← List.append_assoc, after_snoc]
    exact state_iterate_of_opened (ready_after n _) (probe_reopens hn hua hprev hfail).1

theorem attempt_transient (ha : a.isTransient = true) :
    ((after n init).attempt a).1.state ≠ .opened := by
  have hready := ready_after n init
  cases a with
  | fetchFailed error =>
    have he : error.isPersistent = false := Bool.not_eq_true' _ ▸ ha
    show ((after n init).onError error).1.state ≠ .opened
    rw [(onError_of_transient he).1]
    exact hready.notOpened
  | batchFailed error =>
    have he : error.isPersistent = false := Bool.not_eq_true' _ ▸ ha
    show ((after n init).recordSuccess.onError error).1.state ≠ .opened
    rw [(onError_of_transient he).1]
    exact hready.recordSuccess.notOpened
  | completed fullPage => cases ha

/-- In every run whose iterations are all undisturbed the breaker does what it is for. -/
theorem breaker_opens_of_undisturbed (n : Nat) (hn : 1 ≤ n) (attempts : List Attempt)
    (hu : UndisturbedRun n attempts) : BreaksOnPersistentFailure n attempts := by
  refine ⟨?_, ?_, ?_, ?_⟩
  · intro init window a post hattempts hlen hall
    have hw : ∀ x ∈ window, x.isPersistent = true := fun x hx =>
      hall x (List.mem_append_left _ hx)
    have hua : a.Undisturbed n (init ++ window) := hu (init ++ window) a post (by
      rw [hattempts, List.append_assoc])
    have hcount := streak_counted hn hu init window (a :: post) hattempts hw
    have ha := hall a (List.mem_append_right _ (List.mem_singleton_self a))
    exact (attempt_opens hn hua hw ha (hcount.imp_right fun hc => ⟨Nat.le_of_eq hlen.symm, hc⟩)).1
  · intro init a post _ ha
    exact attempt_transient ha
  · intro init a post _ ho
    rcases (ready_after n init).attempt a with hopen | hstay
    · exact hopen.2
    · exact absurd ho hstay.1.notOpened
  · intro init a mid x post hattempts ho hall
    have hhalf : (after n (init ++ [a])).state = .halfOpen := by
      rw [after_snoc]
      exact state_iterate_of_opened (ready_after n init) ho
    have hmid : (after n (init ++ a :: mid)).state = .halfOpen := by
      rw [← List.singleton_append, ← List.append_assoc]
      refine probes_stay hn hu (init ++ [a]) mid (x :: post) ?_ hhalf fun y hy =>
        hall y (List.mem_append_left _ hy)
      rw [hattempts, List.append_assoc, List.singleton_append]
    have hux : x.Undisturbed n (init ++ a :: mid) := hu (init ++ a :: mid) x post (by
      rw [hattempts, List.append_assoc, List.cons_append])
    have hfail := hall x (List.mem_append_right _ (List.mem_singleton_self x))
    exact (probe_reopens hn hux hmid hfail).2

/-- Two failing fetches with an error nothing recognises, a failing probe and a page that is
processed: the breaker of threshold two opens and stays open in between. -/
theorem breaker_opens_of_undisturbed_fetches :
    let broken := Thrown.object none none (some "invalid contract id") .value
    UndisturbedRun 2 [.fetchFailed broken, .fetchFailed broken, .fetchFailed broken,
        .completed false] ∧
      BreaksOnPersistentFailure 2 [.fetchFailed broken, .fetchFailed broken, .fetchFailed broken,
        .completed false] := by
  intro broken
  have hu : UndisturbedRun 2 [.fetchFailed broken, .fetchFailed broken, .fetchFailed broken,
      .completed false] := by
    intro init a post h
    have ha : a ∈ [Attempt.fetchFailed broken, .fetchFailed broken, .fetchFailed broken,
        .completed false] := by
      rw [h]
      exact List.mem_append_right _ List.mem_cons_self
    have hkind : a = .fetchFailed broken ∨ a = .completed false := by
      simpa using ha
    rcases hkind with rfl | rfl
    · have hnot : (Attempt.fetchFailed broken).isTransient = false := by decide
      exact ⟨fun _ h => Attempt.noConfusion h, fun h => absurd h (by rw [hnot]; decide)⟩
    · exact ⟨fun _ h => Attempt.noConfusion h, fun h => absurd h (by decide)⟩
  exact ⟨hu, breaker_opens_of_undisturbed 2 (by decide) _ hu⟩

/-- With a threshold of two, two consecutive persistent failures of the processing leave the
breaker closed: the second fetch has cleared the count of the first failure. -/
theorem breaker_closed_after_batch_failures :
    let broken := Thrown.object (some "23502") none (some "null value in column") .value
    ¬BreaksOnPersistentFailure 2 [.batchFailed broken, .batchFailed broken] := by
  intro broken h
  have hopened := h.opens [] [.batchFailed broken] (.batchFailed broken) [] rfl rfl (by
    intro x hx
    have hx' : x = .batchFailed broken := by simpa using hx
    rw [hx']
    decide)
  revert hopened
  decide

end

end Indexer
end Linkora
