import Linkora.Indexer.Notifications
import Linkora.Lib.Run
import Linkora.Lib.Tasks

/-!
# Which pushes are made

A call pushes after it has found nothing in `sent_notifications`, and the row is written after
the push.  Two calls for one event that stand between the two both push, and so does a call that
takes a push for failed which the provider has taken.  A push that was refused to the end leaves
its row in the outbox, since the statement that moves it to the dead letters has two commands.
-/

namespace Linkora
namespace Indexer

open Query (Outcome Statement)

/-! ## What is promised -/

/-- The service sees an error, and the provider has not taken the push. -/
def PushRecord.refused (p : PushRecord) : Bool := p.error.isSome && !p.taken

/-- What a call is for that found nothing in `sent_notifications`, and where it stands. -/
def Dispatch.standing (d : Dispatch) : Option (Origin × Stage) :=
  match d.phase with
  | .active recipient stage => some (⟨d.event, recipient⟩, stage)
  | _ => none

def Dispatch.pursues (d : Dispatch) : Option Origin := d.standing.map (·.1)

namespace Notifier

def pushesFor (s : Notifier) (o : Origin) : List PushRecord :=
  s.pushes.filter fun p => decide (p.origin = o)

/-- The provider has taken a push for the event and the recipient. -/
def Accepted (s : Notifier) (o : Origin) : Prop := ∃ p ∈ s.pushesFor o, p.taken = true

def AllRefused (s : Notifier) (o : Origin) : Prop :=
  s.pushesFor o ≠ [] ∧ ∀ p ∈ s.pushesFor o, p.refused = true

/-- A call for the event and the recipient has found nothing in `sent_notifications` and has not
come to its end. -/
def Pursued (s : Notifier) (o : Origin) : Prop := Tasks.Held Dispatch.pursues s.dispatches o

instance (s : Notifier) (o : Origin) : Decidable (s.Accepted o) :=
  inferInstanceAs (Decidable (∃ p ∈ _, _))

instance (s : Notifier) (o : Origin) : Decidable (s.Pursued o) :=
  inferInstanceAs (Decidable (Tasks.Held _ _ _))

/-- The provider takes at most one push for an event and a recipient. -/
def AcceptedOnce (s : Notifier) : Prop :=
  ∀ o, ((s.pushesFor o).filter (·.taken)).length ≤ 1

/-- An event whose pushes were all refused has left one dead letter, with the number of attempts
and the last error, and nothing in the outbox. -/
def DeadLettered (s : Notifier) : Prop :=
  ∀ o, s.AllRefused o → ¬ s.Pursued o →
    (∃ letter, s.db.deadLetters.filter (fun row => decide (row.origin = o)) = [letter] ∧
      letter.recipient = o.recipient ∧ letter.attempts = some (s.pushesFor o).length ∧
      letter.error = (s.pushesFor o).getLast?.bind (·.error)) ∧
    ∀ row ∈ s.db.outbox, row.origin ≠ o

/-- Pushes are neither duplicated nor lost. -/
structure PushedOnce (s : Notifier) : Prop where
  accepted : s.AcceptedOnce
  deadLettered : s.DeadLettered

/-! ## When pushes are neither duplicated nor lost -/

/-- A push for the event and the recipient was not refused. -/
def Unrefused (s : Notifier) (o : Origin) : Prop := ∃ p ∈ s.pushesFor o, p.refused = false

/-- The condition for the call `i`, if it has found nothing in `sent_notifications`. -/
def AtStage (s : Notifier) (i : Nat) (C : Origin → Stage → Prop) : Prop :=
  ∀ d ∈ s.dispatches[i]?, ∀ standing ∈ d.standing, C standing.1 standing.2

/-- A call that finds nothing in `sent_notifications` is the only one for its event and recipient,
and none before has had a push taken. -/
def FirstToPush (s : Notifier) (d : Dispatch) : Prop :=
  match d.phase with
  | .check recipient =>
    s.db.isAlreadyDispatched (makeDispatchKey d.event d.parsed.eventType recipient) = false →
      ¬ s.Accepted ⟨d.event, recipient⟩ ∧ ¬ s.Pursued ⟨d.event, recipient⟩
  | _ => True

/-- If this is the last attempt, one of the pushes is not refused. -/
def NotInVain (service : NotificationService) (s : Notifier) (result : SendPush) (taken : Bool)
    (o : Origin) (stage : Stage) : Prop :=
  match stage with
  | .push sending => sending.attempt = service.maxAttempts →
    result.error = none ∨ taken = true ∨ s.Unrefused o
  | _ => True

/-- Calls for one event and recipient do not overlap between the look at `sent_notifications` and
their end, and do not come after a push that was taken and not marked; an attempt is not repeated
once a push was taken; and neither the attempts nor the query that counts them end a call while
all pushes were refused. -/
def Orderly (service : NotificationService) (s : Notifier) : NotifierAction → Prop
  | .check i failure => failure = none → ∀ d ∈ s.dispatches[i]?, s.FirstToPush d
  | .push i result taken => s.AtStage i (s.NotInVain service result taken)
  | .reschedule i outcome => s.AtStage i fun o _ => outcome ≠ .ok → s.Unrefused o
  | .wake i => s.AtStage i fun o _ => ¬ s.Accepted o
  | _ => True

section Decidability

variable (service : NotificationService) (s : Notifier)

instance (o : Origin) : Decidable (s.Unrefused o) := inferInstanceAs (Decidable (∃ p ∈ _, _))

instance (i : Nat) (C : Origin → Stage → Prop) [∀ o stage, Decidable (C o stage)] :
    Decidable (s.AtStage i C) :=
  inferInstanceAs (Decidable (∀ d ∈ s.dispatches[i]?, ∀ standing ∈ d.standing, _))

instance (d : Dispatch) : Decidable (s.FirstToPush d) := by
  unfold FirstToPush
  split <;> infer_instance

instance (result : SendPush) (taken : Bool) (o : Origin) (stage : Stage) :
    Decidable (s.NotInVain service result taken o stage) := by
  unfold NotInVain
  split <;> infer_instance

instance (a : NotifierAction) : Decidable (s.Orderly service a) := by
  cases a <;> unfold Orderly <;> infer_instance

end Decidability

section Facts

variable {decodeScVal : String → Option Native} {service : NotificationService}
  {s s' : Notifier} {i : Nat} {d d' : Dispatch} {o : Origin} {phase : DispatchPhase}

theorem onDispatch_eq_some {step : Dispatch → Option Notifier}
    (h : s.onDispatch i step = some s') :
    ∃ d, s.dispatches[i]? = some d ∧ step d = some s' := by
  unfold onDispatch at h
  split at h
  · cases h
  · rename_i d hd
    exact ⟨d, hd, h⟩

theorem onStage_eq_some {step : Dispatch → String → Stage → Option Notifier}
    (h : s.onStage i step = some s') :
    ∃ d recipient stage, s.dispatches[i]? = some d ∧ d.phase = .active recipient stage ∧
      step d recipient stage = some s' := by
  obtain ⟨d, hd, h⟩ := onDispatch_eq_some h
  split at h
  · rename_i recipient stage hphase
    exact ⟨d, recipient, stage, hd, hphase, h⟩
  · cases h

theorem standing_eq {recipient : String} {stage : Stage} (h : d.phase = .active recipient stage) :
    d.standing = some (⟨d.event, recipient⟩, stage) := by
  unfold Dispatch.standing
  rw [h]

theorem pursues_eq {stage : Stage} (h : d.standing = some (o, stage)) : d.pursues = some o := by
  rw [Dispatch.pursues, h]
  rfl

theorem exists_standing (h : d.pursues = some o) : ∃ stage, d.standing = some (o, stage) := by
  obtain ⟨⟨_, stage⟩, hstanding, rfl⟩ := Option.map_eq_some_iff.mp h
  exact ⟨stage, hstanding⟩

theorem Unrefused.not_allRefused (h : s.Unrefused o) : ¬ s.AllRefused o := by
  rintro ⟨-, hall⟩
  obtain ⟨p, hp, hunrefused⟩ := h
  rw [hall p hp] at hunrefused
  cases hunrefused

/-! ## Invariant -/

/-- From here a call gets to its next push without another look. -/
def pushing : Stage → Bool
  | .preferences | .token | .enqueue _ | .push _ => true
  | _ => false

/-- From here a call may end without another push. -/
def leaving : Stage → Bool
  | .preferences | .token | .enqueue _ | .dequeue _ | .bury _ | .mark => true
  | _ => false

structure StageSound (s : Notifier) (o : Origin) (stage : Stage) : Prop where
  unaccepted : pushing stage = true → ¬ s.Accepted o
  unrefused : leaving stage = true → ¬ s.AllRefused o

/-- What orderly steps keep. -/
structure Sound (s : Notifier) : Prop where
  accepted : s.AcceptedOnce
  exclusive : Tasks.Exclusive Dispatch.pursues s.dispatches
  pursued : ∀ o, s.AllRefused o → s.Pursued o
  stages : ∀ d ∈ s.dispatches, ∀ o stage, d.standing = some (o, stage) → s.StageSound o stage

theorem Sound.start : start.Sound where
  accepted _ := Nat.zero_le _
  exclusive := Tasks.Exclusive.nil
  pursued _ h := absurd rfl h.1
  stages _ hd := absurd hd List.not_mem_nil

theorem StageSound.congr {stage : Stage} (h : s.StageSound o stage)
    (hpushes : s'.pushesFor o = s.pushesFor o) : s'.StageSound o stage := by
  obtain ⟨hunaccepted, hunrefused⟩ := h
  unfold Accepted at hunaccepted
  unfold AllRefused at hunrefused
  rw [← hpushes] at hunaccepted hunrefused
  exact ⟨hunaccepted, hunrefused⟩

/-- A stage that asks no more than the one before. -/
theorem StageSound.weaken {stage stage' : Stage} (h : s.StageSound o stage)
    (hpushing : pushing stage' = true → pushing stage = true)
    (hleaving : leaving stage' = true → leaving stage = true) : s.StageSound o stage' :=
  ⟨fun hp => h.unaccepted (hpushing hp), fun hl => h.unrefused (hleaving hl)⟩

/-- The call `i` goes on, or ends; pushes are made only for what it pursues. -/
theorem Sound.replace (h : s.Sound) (hd : s.dispatches[i]? = some d)
    (hdispatches : s'.dispatches = s.dispatches.set i d')
    (hothers : ∀ o, d.pursues ≠ some o → s'.pushesFor o = s.pushesFor o)
    (honce : ∀ o, d.pursues = some o → ((s'.pushesFor o).filter (·.taken)).length ≤ 1)
    (hstage : ∀ o stage, d'.standing = some (o, stage) →
      (d.pursues = some o ∨ ¬ s.Pursued o) ∧ s'.StageSound o stage)
    (hleft : ∀ o, d.pursues = some o → d'.pursues ≠ some o → ¬ s'.AllRefused o) : s'.Sound where
  accepted o := by
    by_cases ho : d.pursues = some o
    · exact honce o ho
    · rw [hothers o ho]
      exact h.accepted o
  exclusive := by
    rw [hdispatches]
    refine h.exclusive.set hd fun o ho => ?_
    obtain ⟨stage, hstanding⟩ := exists_standing ho
    exact (hstage o stage hstanding).1
  pursued o hrefused := by
    rw [Pursued, hdispatches]
    by_cases ho : d.pursues = some o
    · -- The call itself has not let go of what was refused so far.
      refine Tasks.Held.set (Tasks.Held.of_getElem? hd ho) hd fun _ => ?_
      by_contra hnew
      exact hleft o ho hnew hrefused
    · rw [AllRefused, hothers o ho] at hrefused
      exact (h.pursued o hrefused).set hd fun heq => absurd heq ho
  stages x hx o stage hstanding := by
    rw [hdispatches] at hx
    obtain ⟨j, hj⟩ := List.getElem?_of_mem hx
    rcases getElem?_set_cases hj with ⟨_, rfl⟩ | ⟨hne, hj⟩
    · exact (hstage o stage hstanding).2
    · have hother : d.pursues ≠ some o := fun ho =>
        hne (h.exclusive i j d x o hd hj ho (pursues_eq hstanding)).symm
      exact (h.stages x (List.mem_of_getElem? hj) o stage hstanding).congr (hothers o hother)

/-- No push is made. -/
theorem Sound.turn (h : s.Sound) (hd : s.dispatches[i]? = some d)
    (hdispatches : s'.dispatches = s.dispatches.set i d') (hpushes : s'.pushes = s.pushes)
    (hstage : ∀ o stage, d'.standing = some (o, stage) →
      (d.pursues = some o ∨ ¬ s.Pursued o) ∧ s.StageSound o stage)
    (hleft : ∀ o, d.pursues = some o → d'.pursues ≠ some o → ¬ s.AllRefused o) : s'.Sound := by
  have hsame : ∀ o, s'.pushesFor o = s.pushesFor o := by
    intro o
    rw [pushesFor, hpushes]
    rfl
  refine h.replace hd hdispatches (fun o _ => hsame o) (fun o _ => ?_) (fun o stage hstanding => ?_)
    fun o ho hnew => ?_
  · rw [hsame]
    exact h.accepted o
  · obtain ⟨hfree, hsound⟩ := hstage o stage hstanding
    exact ⟨hfree, hsound.congr (hsame o)⟩
  · rw [AllRefused, hsame]
    exact hleft o ho hnew

/-- A call that has not got so far, or that may leave, ends. -/
theorem Sound.end (h : s.Sound) (hd : s.dispatches[i]? = some d)
    (hleaving : ∀ o stage, d.standing = some (o, stage) → ¬ s.AllRefused o)
    (db : NotificationTables) (error : Option String) (result : Bool) :
    Sound ({ s with db }.setPhase i d (.ended error result)) := by
  refine h.turn hd rfl rfl (fun _ _ h => by cases h) fun o ho _ => ?_
  obtain ⟨stage, hstanding⟩ := exists_standing ho
  exact hleaving o stage hstanding

/-- The call goes on to another stage. -/
theorem Sound.stay (h : s.Sound) (hd : s.dispatches[i]? = some d) {recipient : String}
    {stage stage' : Stage} (hphase : d.phase = .active recipient stage)
    (hsound : s.StageSound ⟨d.event, recipient⟩ stage') (db : NotificationTables) :
    Sound ({ s with db }.setPhase i d (.active recipient stage')) := by
  have hpursues := pursues_eq (standing_eq hphase)
  refine h.turn hd rfl rfl (fun o st hstanding => ?_) fun o ho hnew => ?_
  · obtain ⟨rfl, rfl⟩ := Prod.mk.inj (Option.some.inj hstanding)
    exact ⟨Or.inl hpursues, hsound⟩
  · rw [hpursues] at ho
    obtain rfl := Option.some.inj ho
    exact absurd rfl hnew

theorem Sound.stageOf (h : s.Sound) (hd : s.dispatches[i]? = some d) {recipient : String}
    {stage : Stage} (hphase : d.phase = .active recipient stage) :
    s.StageSound ⟨d.event, recipient⟩ stage :=
  h.stages d (List.mem_of_getElem? hd) _ _ (standing_eq hphase)

/-! ## Steps -/

theorem standing_eq_none (h : ∀ recipient stage, d.phase ≠ .active recipient stage) :
    d.standing = none := by
  unfold Dispatch.standing
  split
  · rename_i recipient stage hphase
    exact absurd hphase (h recipient stage)
  · rfl

theorem not_leaving_of_none (h : d.standing = none) :
    ∀ o stage, d.standing = some (o, stage) → ¬ s.AllRefused o := by
  intro o stage hstanding
  rw [h] at hstanding
  cases hstanding

theorem StageSound.not_leaving {recipient : String} {stage : Stage}
    (h : s.StageSound ⟨d.event, recipient⟩ stage) (hphase : d.phase = .active recipient stage)
    (hleaving : leaving stage = true) :
    ∀ o stage, d.standing = some (o, stage) → ¬ s.AllRefused o := by
  intro o st hstanding
  rw [standing_eq hphase] at hstanding
  obtain ⟨rfl, rfl⟩ := Prod.mk.inj (Option.some.inj hstanding)
  exact h.unrefused hleaving

theorem Sound.dispatch (h : s.Sound) (event : BusEvent) : (s.dispatch decodeScVal event).Sound := by
  unfold Notifier.dispatch
  split
  · exact h
  · rename_i parsed _
    have hnone : ∀ phase, (∀ recipient stage, phase ≠ .active recipient stage) →
        Sound { s with dispatches := s.dispatches ++ [⟨event, parsed, phase⟩] } := by
      intro phase hphase
      have hstanding : Dispatch.standing ⟨event, parsed, phase⟩ = none := standing_eq_none hphase
      refine ⟨h.accepted, h.exclusive.append fun o ho => ?_, fun o ho => ?_,
        fun x hx o stage hx' => ?_⟩
      · rw [Dispatch.pursues, hstanding] at ho
        cases ho
      · obtain ⟨x, hx, hpursues⟩ := h.pursued o ho
        exact ⟨x, List.mem_append_left _ hx, hpursues⟩
      · rcases List.mem_append.mp hx with hold | hnew
        · exact (h.stages x hold o stage hx').congr rfl
        · obtain rfl := List.mem_singleton.mp hnew
          rw [hstanding] at hx'
          cases hx'
    split
    · exact hnone _ (fun _ _ h => by cases h)
    · exact hnone _ (fun _ _ h => by cases h)

theorem Sound.author (h : s.Sound) {reply : Except String (Option String)}
    (hnext : s.author i reply = some s') : s'.Sound := by
  obtain ⟨d, hd, hnext⟩ := onDispatch_eq_some hnext
  split at hnext
  · rename_i hphase _
    have hnone : d.standing = none := standing_eq_none fun _ _ => by rw [hphase]; exact fun h => by cases h
    have hends := fun error => h.end hd (not_leaving_of_none hnone) s.db error false
    split at hnext
    · exact Option.some.inj hnext ▸ hends _
    · exact Option.some.inj hnext ▸ hends _
    · exact Option.some.inj hnext ▸ hends _
    · split at hnext
      · exact Option.some.inj hnext ▸ hends _
      · obtain rfl := Option.some.inj hnext
        refine h.turn hd rfl rfl (fun _ _ h => by cases h) fun o ho _ => ?_
        obtain ⟨stage, hstanding⟩ := exists_standing ho
        exact not_leaving_of_none hnone o stage hstanding
  · cases hnext

theorem Sound.check (h : s.Sound) {failure : Option String}
    (hfirst : failure = none → ∀ d ∈ s.dispatches[i]?, s.FirstToPush d)
    (hnext : s.check service i failure = some s') : s'.Sound := by
  obtain ⟨d, hd, hnext⟩ := onDispatch_eq_some hnext
  split at hnext
  · rename_i recipient hphase
    have hnone : d.standing = none := standing_eq_none fun _ _ => by rw [hphase]; simp
    have hends := fun error => h.end hd (not_leaving_of_none hnone) s.db error false
    split at hnext
    · exact Option.some.inj hnext ▸ hends _
    · split at hnext
      · exact Option.some.inj hnext ▸ hends _
      · rename_i hunsent
        obtain rfl := Option.some.inj hnext
        have hfree := hfirst rfl d hd
        unfold FirstToPush at hfree
        rw [hphase] at hfree
        obtain ⟨hunaccepted, hunpursued⟩ := hfree (Bool.eq_false_of_not_eq_true hunsent)
        refine h.turn hd rfl rfl (fun o stage hstanding => ?_) fun o ho _ => ?_
        · obtain ⟨rfl, -⟩ := Prod.mk.inj (Option.some.inj hstanding)
          -- Nobody is at work for the event, so that no refusal is outstanding.
          exact ⟨Or.inr hunpursued, fun _ => hunaccepted,
            fun _ hrefused => hunpursued (h.pursued _ hrefused)⟩
        · obtain ⟨stage, hstanding⟩ := exists_standing ho
          exact not_leaving_of_none hnone o stage hstanding
  · cases hnext

theorem Sound.preferences (h : s.Sound) {reply : Except String (Option NotificationPreferences)}
    (hnext : s.preferences i reply = some s') : s'.Sound := by
  obtain ⟨d, recipient, stage, hd, hphase, hnext⟩ := onStage_eq_some hnext
  have hsound := h.stageOf hd hphase
  split at hnext
  · obtain rfl := Option.some.inj hnext
    exact h.end hd (hsound.not_leaving hphase rfl) s.db _ _
  · split at hnext
    · obtain rfl := Option.some.inj hnext
      exact h.stay hd hphase (hsound.weaken (fun _ => rfl) fun _ => rfl) s.db
    · obtain rfl := Option.some.inj hnext
      exact h.end hd (hsound.not_leaving hphase rfl) s.db _ _
  · cases hnext

theorem Sound.token (h : s.Sound) {reply : Except String (Option String)}
    (hnext : s.token service i reply = some s') : s'.Sound := by
  obtain ⟨d, recipient, stage, hd, hphase, hnext⟩ := onStage_eq_some hnext
  have hsound := h.stageOf hd hphase
  split at hnext
  · obtain rfl := Option.some.inj hnext
    exact h.end hd (hsound.not_leaving hphase rfl) s.db _ _
  · obtain rfl := Option.some.inj hnext
    exact h.end hd (hsound.not_leaving hphase rfl) s.db _ _
  · obtain rfl := Option.some.inj hnext
    exact h.end hd (hsound.not_leaving hphase rfl) s.db _ _
  · split at hnext
    · obtain rfl := Option.some.inj hnext
      exact h.stay hd hphase (hsound.weaken (fun _ => rfl) fun _ => rfl) s.db
    · obtain rfl := Option.some.inj hnext
      exact h.stay hd hphase (hsound.weaken (fun _ => rfl) fun _ => rfl) s.db
  · cases hnext

theorem Sound.enqueue (h : s.Sound) {outcome : Outcome} (hnext : s.enqueue i outcome = some s') :
    s'.Sound := by
  obtain ⟨d, recipient, stage, hd, hphase, hnext⟩ := onStage_eq_some hnext
  have hsound := h.stageOf hd hphase
  split at hnext
  · split at hnext
    · obtain rfl := Option.some.inj hnext
      exact h.end hd (hsound.not_leaving hphase rfl) _ _ _
    · obtain rfl := Option.some.inj hnext
      refine h.stay hd hphase ?_ _
      exact hsound.weaken (fun _ => rfl) fun hl => absurd hl Bool.false_ne_true
  · cases hnext

theorem goes_of_not_pushing {d : Dispatch} {recipient : String} {stage : Stage}
    (hpushing : pushing stage = false) : ∀ o stage',
    ({ d with phase := .active recipient stage } : Dispatch).standing = some (o, stage') →
      o = ⟨d.event, recipient⟩ ∧ pushing stage' = false := by
  intro o stage' hstanding
  obtain ⟨rfl, rfl⟩ := Prod.mk.inj (Option.some.inj hstanding)
  exact ⟨rfl, hpushing⟩

/-- Where a failed attempt leads: to another one, or, after the last, to the end. -/
theorem attemptFailed_eq (service : NotificationService) (s : Notifier) (i : Nat) (d : Dispatch)
    (recipient : String) (sending : Sending) (error : String) :
    ∃ phase, s.attemptFailed service i d recipient sending error = s.setPhase i d phase ∧
      (∀ o stage, ({ d with phase } : Dispatch).standing = some (o, stage) →
        o = ⟨d.event, recipient⟩ ∧ pushing stage = false) ∧
      (sending.attempt ≠ service.maxAttempts → ∃ stage,
        ({ d with phase } : Dispatch).standing = some (⟨d.event, recipient⟩, stage) ∧
        leaving stage = false) := by
  unfold attemptFailed
  split
  · rename_i hlast
    split
    · exact ⟨_, rfl, goes_of_not_pushing rfl, fun hne => absurd hlast hne⟩
    · exact ⟨_, rfl, nofun, fun hne => absurd hlast hne⟩
  · split
    · exact ⟨_, rfl, goes_of_not_pushing rfl, fun _ => ⟨_, rfl, rfl⟩⟩
    · exact ⟨_, rfl, goes_of_not_pushing rfl, fun _ => ⟨_, rfl, rfl⟩⟩

theorem Unrefused.mono (h : s.Unrefused o) (hpushes : s.pushesFor o ⊆ s'.pushesFor o) :
    s'.Unrefused o := by
  obtain ⟨p, hp, hunrefused⟩ := h
  exact ⟨p, hpushes hp, hunrefused⟩

/-- A push is made, by a call for which none was taken before. -/
theorem Sound.pushed (h : s.Sound) (hd : s.dispatches[i]? = some d) {recipient : String}
    {sending : Sending} (hphase : d.phase = .active recipient (.push sending))
    {record : PushRecord} (horigin : record.origin = ⟨d.event, recipient⟩)
    (hgoes : ∀ o stage, ({ d with phase } : Dispatch).standing = some (o, stage) →
      o = ⟨d.event, recipient⟩ ∧ pushing stage = false)
    (hends : record.refused = false ∨ s.Unrefused ⟨d.event, recipient⟩ ∨
      ∃ stage, ({ d with phase } : Dispatch).standing = some (⟨d.event, recipient⟩, stage) ∧
        leaving stage = false) :
    Sound ({ s with pushes := s.pushes ++ [record] }.setPhase i d phase) := by
  have hpursues := pursues_eq (standing_eq hphase)
  have hunaccepted := (h.stageOf hd hphase).unaccepted rfl
  have hthis : Notifier.pushesFor ({ s with pushes := s.pushes ++ [record] }.setPhase i d phase)
      ⟨d.event, recipient⟩ = s.pushesFor ⟨d.event, recipient⟩ ++ [record] := by
    show (s.pushes ++ [record]).filter _ = _
    rw [List.filter_append, List.filter_singleton, decide_eq_true horigin]
    rfl
  have hother : ∀ o, d.pursues ≠ some o →
      Notifier.pushesFor ({ s with pushes := s.pushes ++ [record] }.setPhase i d phase) o =
        s.pushesFor o := by
    intro o ho
    have hne : ¬ record.origin = o := fun heq => ho (hpursues.trans (horigin ▸ heq ▸ rfl))
    show (s.pushes ++ [record]).filter _ = _
    rw [List.filter_append, List.filter_singleton, decide_eq_false hne]
    exact List.append_nil _
  -- Either the call goes on to another attempt or something was not refused.
  have hrefused : Notifier.AllRefused
      ({ s with pushes := s.pushes ++ [record] }.setPhase i d phase) ⟨d.event, recipient⟩ →
      ∃ stage, ({ d with phase } : Dispatch).standing = some (⟨d.event, recipient⟩, stage) ∧
        leaving stage = false := by
    intro hall
    rcases hends with hrecord | hbefore | hgo
    · have hmem := hall.2 record (hthis ▸ List.mem_append_right _ List.mem_cons_self)
      rw [hrecord] at hmem
      cases hmem
    · refine absurd hall (Unrefused.not_allRefused (hbefore.mono ?_))
      rw [hthis]
      exact List.subset_append_left _ _
    · exact hgo
  refine h.replace hd rfl hother (fun o ho => ?_) (fun o stage hstanding => ?_) fun o ho hnew => ?_
  · rw [hpursues] at ho
    obtain rfl := Option.some.inj ho
    have hnil : (s.pushesFor ⟨d.event, recipient⟩).filter (·.taken) = [] :=
      List.filter_eq_nil_iff.mpr fun p hp htaken => hunaccepted ⟨p, hp, htaken⟩
    rw [hthis, List.filter_append, hnil, List.nil_append]
    exact List.length_filter_le _ _
  · obtain ⟨rfl, hpushing⟩ := hgoes o stage hstanding
    refine ⟨Or.inl hpursues, fun hp => ?_, fun hl hall => ?_⟩
    · rw [hpushing] at hp
      cases hp
    · obtain ⟨stage', hstanding', hleaving⟩ := hrefused hall
      rw [hstanding] at hstanding'
      obtain ⟨-, rfl⟩ := Prod.mk.inj (Option.some.inj hstanding')
      rw [hl] at hleaving
      cases hleaving
  · rw [hpursues] at ho
    obtain rfl := Option.some.inj ho
    intro hall
    obtain ⟨stage, hstanding, -⟩ := hrefused hall
    exact hnew (pursues_eq hstanding)

theorem Sound.push (h : s.Sound) {result : SendPush} {taken : Bool}
    (hvain : s.AtStage i (s.NotInVain service result taken))
    (hnext : s.push service i result taken = some s') : s'.Sound := by
  obtain ⟨d, recipient, stage, hd, hphase, hnext⟩ := onStage_eq_some hnext
  have hvain := hvain d hd _ (standing_eq hphase)
  split at hnext
  · rename_i sending
    split at hnext
    · rename_i error herror
      obtain rfl := Option.some.inj hnext
      obtain ⟨phase, heq, hfailed, hagain⟩ := attemptFailed_eq service
        { s with pushes := s.pushes ++ [⟨⟨d.event, recipient⟩, result.error, taken⟩] } i d recipient
        sending error
      rw [heq]
      refine h.pushed hd hphase rfl hfailed ?_
      by_cases hlast : sending.attempt = service.maxAttempts
      · rcases hvain hlast with hnone | htaken | hunrefused
        · rw [herror] at hnone
          cases hnone
        · left
          show (result.error.isSome && !taken) = false
          rw [htaken]
          exact Bool.and_false _
        · exact Or.inr (Or.inl hunrefused)
      · exact Or.inr (Or.inr (hagain hlast))
    · rename_i herror _
      obtain rfl := Option.some.inj hnext
      refine h.pushed hd hphase rfl (goes_of_not_pushing rfl) (Or.inl ?_)
      rw [PushRecord.refused, herror]
      rfl
    · rename_i herror _
      obtain rfl := Option.some.inj hnext
      refine h.pushed hd hphase rfl (goes_of_not_pushing rfl) (Or.inl ?_)
      rw [PushRecord.refused, herror]
      rfl
  · cases hnext

theorem Sound.dequeue (h : s.Sound) {outcome : Outcome}
    (hnext : s.dequeue service i outcome = some s') : s'.Sound := by
  obtain ⟨d, recipient, stage, hd, hphase, hnext⟩ := onStage_eq_some hnext
  have hsound := h.stageOf hd hphase
  split at hnext
  · rename_i sending
    split at hnext
    · cases hnext
    · split at hnext
      · rename_i db error _
        obtain rfl := Option.some.inj hnext
        obtain ⟨phase, heq, hfailed, -⟩ := attemptFailed_eq service { s with db } i d
          recipient sending error
        rw [heq]
        refine h.turn hd rfl rfl (fun o stage hstanding => ?_) fun o ho _ => ?_
        · obtain ⟨rfl, hpushing⟩ := hfailed o stage hstanding
          refine ⟨Or.inl (pursues_eq (standing_eq hphase)), fun hp => ?_, fun _ =>
            hsound.unrefused rfl⟩
          rw [hpushing] at hp
          cases hp
        · obtain ⟨stage, hstanding⟩ := exists_standing ho
          exact hsound.not_leaving hphase rfl o stage hstanding
      · obtain rfl := Option.some.inj hnext
        refine h.stay hd hphase ?_ _
        exact hsound.weaken (fun hp => absurd hp Bool.false_ne_true) fun _ => rfl
  · cases hnext

theorem Sound.reschedule (h : s.Sound) {outcome : Outcome}
    (hcounted : s.AtStage i fun o _ => outcome ≠ .ok → s.Unrefused o)
    (hnext : s.reschedule service i outcome = some s') : s'.Sound := by
  obtain ⟨d, recipient, stage, hd, hphase, hnext⟩ := onStage_eq_some hnext
  have hcounted := hcounted d hd _ (standing_eq hphase)
  split at hnext
  · split at hnext
    · cases hnext
    · split at hnext
      · rename_i hexec
        obtain rfl := Option.some.inj hnext
        have hne : outcome ≠ .ok := by
          rintro rfl
          rw [Statement.exec_ok rfl] at hexec
          cases hexec
        refine h.end hd (fun o st hstanding => ?_) _ _ _
        rw [standing_eq hphase] at hstanding
        obtain ⟨rfl, -⟩ := Prod.mk.inj (Option.some.inj hstanding)
        exact (hcounted hne).not_allRefused
      · obtain rfl := Option.some.inj hnext
        refine h.stay hd hphase ?_ _
        exact ⟨fun hp => absurd hp Bool.false_ne_true, fun hl => absurd hl Bool.false_ne_true⟩
  · cases hnext

theorem Sound.wake (h : s.Sound) (hunaccepted : s.AtStage i fun o _ => ¬ s.Accepted o)
    (hnext : s.wake i = some s') : s'.Sound := by
  obtain ⟨d, recipient, stage, hd, hphase, hnext⟩ := onStage_eq_some hnext
  have hunaccepted := hunaccepted d hd _ (standing_eq hphase)
  split at hnext
  · obtain rfl := Option.some.inj hnext
    refine h.stay hd hphase ?_ s.db
    exact ⟨fun _ => hunaccepted, fun hl => absurd hl Bool.false_ne_true⟩
  · cases hnext

theorem Sound.bury (h : s.Sound) {outcome : Outcome} (hnext : s.bury i outcome = some s') :
    s'.Sound := by
  obtain ⟨d, recipient, stage, hd, hphase, hnext⟩ := onStage_eq_some hnext
  have hsound := h.stageOf hd hphase
  split at hnext
  · split at hnext <;>
    · obtain rfl := Option.some.inj hnext
      exact h.end hd (hsound.not_leaving hphase rfl) _ _ _
  · cases hnext

theorem Sound.mark (h : s.Sound) {outcome : Outcome} (hnext : s.mark i outcome = some s') :
    s'.Sound := by
  obtain ⟨d, recipient, stage, hd, hphase, hnext⟩ := onStage_eq_some hnext
  have hsound := h.stageOf hd hphase
  split at hnext
  · split at hnext <;>
    · obtain rfl := Option.some.inj hnext
      exact h.end hd (hsound.not_leaving hphase rfl) _ _ _
  · cases hnext

theorem Sound.next (h : s.Sound) {a : NotifierAction} (horderly : s.Orderly service a)
    (hnext : s.next decodeScVal service a = some s') : s'.Sound := by
  cases a with
  | dispatch event => exact Option.some.inj hnext ▸ h.dispatch event
  | author i reply => exact h.author hnext
  | check i failure => exact h.check horderly hnext
  | preferences i reply => exact h.preferences hnext
  | token i reply => exact h.token hnext
  | enqueue i outcome => exact h.enqueue hnext
  | push i result taken => exact h.push horderly hnext
  | dequeue i outcome => exact h.dequeue hnext
  | reschedule i outcome => exact h.reschedule horderly hnext
  | wake i => exact h.wake horderly hnext
  | bury i outcome => exact h.bury hnext
  | mark i outcome => exact h.mark hnext
  | prune dispatchKey =>
    obtain rfl := Option.some.inj hnext
    exact ⟨h.accepted, h.exclusive, h.pursued, fun d hd o stage hstanding =>
      (h.stages d hd o stage hstanding).congr rfl⟩

/-! ## Dead letters -/

/-- PostgreSQL does not prepare two commands. -/
theorem deadLetter_rejected (id : Nat) : (NotificationTables.deadLetter id).accepted = false := rfl

theorem attemptFailed_db (s : Notifier) (i : Nat) (d : Dispatch) (recipient : String)
    (sending : Sending) (error : String) :
    (s.attemptFailed service i d recipient sending error).db = s.db := by
  obtain ⟨phase, heq, -⟩ := attemptFailed_eq service s i d recipient sending error
  rw [heq]
  rfl

/-- What a step writes goes through a statement that leaves the dead letters alone, or through the
one that is rejected. -/
theorem exec_deadLetters {q : Statement NotificationTables} {outcome : Outcome}
    {db : NotificationTables} {error : Option String}
    (happly : q.accepted = true → (q.apply s.db).deadLetters = s.db.deadLetters)
    (hexec : q.exec outcome s.db = (db, error)) : db.deadLetters = s.db.deadLetters := by
  have hkeeps := Statement.exec_keeps
    (P := fun x : NotificationTables => x.deadLetters = s.db.deadLetters) rfl happly outcome
  rw [hexec] at hkeeps
  exact hkeeps

theorem next_deadLetters {a : NotifierAction} (hnext : s.next decodeScVal service a = some s') :
    s'.db.deadLetters = s.db.deadLetters := by
  cases a with
  | dispatch event =>
    obtain rfl := Option.some.inj hnext
    unfold Notifier.dispatch
    split <;> rfl
  | author i reply =>
    obtain ⟨d, _, hstep⟩ := onDispatch_eq_some hnext
    repeat' split at hstep
    all_goals cases hstep <;> rfl
  | check i failure =>
    obtain ⟨d, _, hstep⟩ := onDispatch_eq_some hnext
    repeat' split at hstep
    all_goals cases hstep <;> rfl
  | preferences i reply =>
    obtain ⟨d, recipient, stage, _, _, hstep⟩ := onStage_eq_some hnext
    repeat' split at hstep
    all_goals cases hstep <;> rfl
  | token i reply =>
    obtain ⟨d, recipient, stage, _, _, hstep⟩ := onStage_eq_some hnext
    repeat' split at hstep
    all_goals cases hstep <;> rfl
  | enqueue i outcome =>
    obtain ⟨d, recipient, stage, _, _, hstep⟩ := onStage_eq_some hnext
    split at hstep
    · split at hstep <;>
      · obtain rfl := Option.some.inj hstep
        exact exec_deadLetters (fun _ => rfl) ‹_›
    · cases hstep
  | push i result taken =>
    obtain ⟨d, recipient, stage, _, _, hstep⟩ := onStage_eq_some hnext
    split at hstep
    · split at hstep
      · obtain rfl := Option.some.inj hstep
        rw [attemptFailed_db]
      · obtain rfl := Option.some.inj hstep
        rfl
      · obtain rfl := Option.some.inj hstep
        rfl
    · cases hstep
  | dequeue i outcome =>
    obtain ⟨d, recipient, stage, _, _, hstep⟩ := onStage_eq_some hnext
    split at hstep
    · split at hstep
      · cases hstep
      · split at hstep
        · obtain rfl := Option.some.inj hstep
          rw [attemptFailed_db]
          exact exec_deadLetters (fun _ => rfl) ‹_›
        · obtain rfl := Option.some.inj hstep
          exact exec_deadLetters (fun _ => rfl) ‹_›
    · cases hstep
  | reschedule i outcome =>
    obtain ⟨d, recipient, stage, _, _, hstep⟩ := onStage_eq_some hnext
    split at hstep
    · split at hstep
      · cases hstep
      · split at hstep <;>
        · obtain rfl := Option.some.inj hstep
          exact exec_deadLetters (fun _ => rfl) ‹_›
    · cases hstep
  | wake i =>
    obtain ⟨d, recipient, stage, _, _, hstep⟩ := onStage_eq_some hnext
    split at hstep
    · obtain rfl := Option.some.inj hstep
      rfl
    · cases hstep
  | bury i outcome =>
    obtain ⟨d, recipient, stage, _, _, hstep⟩ := onStage_eq_some hnext
    split at hstep
    · rename_i id _
      have hrejected := deadLetter_rejected id
      split at hstep <;>
      · obtain rfl := Option.some.inj hstep
        refine exec_deadLetters (fun haccepted => ?_) ‹_›
        rw [hrejected] at haccepted
        cases haccepted
    · cases hstep
  | mark i outcome =>
    obtain ⟨d, recipient, stage, _, _, hstep⟩ := onStage_eq_some hnext
    split at hstep
    · split at hstep <;>
      · obtain rfl := Option.some.inj hstep
        exact exec_deadLetters (fun _ => rfl) ‹_›
    · cases hstep
  | prune dispatchKey =>
    obtain rfl := Option.some.inj hnext
    rfl

/-- Whatever happens, nobody ever becomes a dead letter. -/
theorem deadLetters_eq_nil {actions : List NotifierAction}
    (h : Run (StepOf (next decodeScVal service)) start actions s) : s.db.deadLetters = [] :=
  h.invariant (I := fun s => s.db.deadLetters = [])
    (fun _ _ _ hnil hstep => (next_deadLetters hstep).trans hnil) rfl

/-- So an event whose pushes were all refused is dealt with only as long as a call is at work. -/
theorem deadLettered_iff {actions : List NotifierAction}
    (h : Run (StepOf (next decodeScVal service)) start actions s) :
    s.DeadLettered ↔ ∀ o, s.AllRefused o → s.Pursued o := by
  constructor
  · intro hletters o hrefused
    by_contra hunpursued
    obtain ⟨⟨letter, hfilter, -⟩, -⟩ := hletters o hrefused hunpursued
    rw [deadLetters_eq_nil h] at hfilter
    cases hfilter
  · intro hpursued o hrefused hunpursued
    exact absurd (hpursued o hrefused) hunpursued

end Facts

theorem pushed_once (decodeScVal : String → Option Native) (service : NotificationService)
    {actions : List NotifierAction} {s : Notifier}
    (h : Run (Run.Guarded (StepOf (next decodeScVal service)) (Orderly service)) start actions s) :
    s.PushedOnce := by
  have hsound : s.Sound := h.invariant (fun x a y hx hl => hx.next hl.2 hl.1) Sound.start
  exact ⟨hsound.accepted, (deadLettered_iff h.of_guarded).mpr hsound.pursued⟩

/-! ## One follower -/

def demoDecode : String → Option Native
  | "AAAA" => some (.record [("follower", .text "alice"), ("followee", .text "bob")])
  | _ => none

def demoService : NotificationService := NotificationService.new true none none

def followed : BusEvent := ⟨"follow", 42, 0, "C", ["follow"], .value (some "AAAA")⟩

/-- A call gets as far as its first push. -/
def toPush (i : Nat) : List NotifierAction :=
  [.check i none, .preferences i (.ok none), .token i (.ok (some "ExpoPushToken")), .enqueue i .ok]

def delivered : SendPush := .returned (some ⟨some true, some 200⟩)

def unavailable : SendPush := .returned (some ⟨some false, some 503⟩)

/-- The first attempt is refused, and the event comes again after the call has ended. -/
def followedTwice : List NotifierAction :=
  [NotifierAction.dispatch followed] ++ toPush 0 ++
    [NotifierAction.push 0 unavailable false, .reschedule 0 .ok, .wake 0, .push 0 delivered true,
      .dequeue 0 .ok, .mark 0 .ok, .dispatch followed, .check 1 none]

theorem pushed_once_bob : ∃ s,
    Run (StepOf (next demoDecode demoService)) start followedTwice s ∧
    s.pushes.map (·.taken) = [false, true] ∧ s.PushedOnce := by
  have hsome : (walk (restrict (next demoDecode demoService) (Orderly demoService)) followedTwice
      start).map (·.pushes.map (·.taken)) = some [false, true] := by
    decide
  obtain ⟨s, hs, hpushes⟩ := Option.map_eq_some_iff.mp hsome
  have hg := guarded_of_walk hs
  exact ⟨s, hg.of_guarded, hpushes, pushed_once _ _ hg⟩

/-- Two calls for one event push twice when both look before either has written its row, and three
refusals leave a row in the outbox and no dead letter. -/
theorem follower_pushed_twice :
    (∃ s, Run (StepOf (next demoDecode demoService)) start
        ([NotifierAction.dispatch followed, .dispatch followed] ++ toPush 0 ++ toPush 1 ++
          [NotifierAction.push 0 delivered true, .push 1 delivered true]) s ∧
      s.pushes.map (·.taken) = [true, true] ∧ ¬ s.AcceptedOnce) ∧
    ∃ s, Run (StepOf (next demoDecode demoService)) start
        ([NotifierAction.dispatch followed] ++ toPush 0 ++
          [NotifierAction.push 0 unavailable false, .reschedule 0 .ok, .wake 0,
            .push 0 unavailable false, .reschedule 0 .ok, .wake 0, .push 0 unavailable false,
            .bury 0 .ok]) s ∧
      s.db.deadLetters = [] ∧ s.db.outbox.map (·.attempts) = [some 2] ∧ ¬ s.DeadLettered := by
  constructor
  · have hsome : (walk (next demoDecode demoService)
        ([NotifierAction.dispatch followed, .dispatch followed] ++ toPush 0 ++ toPush 1 ++
          [NotifierAction.push 0 delivered true, .push 1 delivered true]) start).map
          (·.pushes) = some [⟨⟨followed, "bob"⟩, none, true⟩, ⟨⟨followed, "bob"⟩, none, true⟩] := by
      decide
    obtain ⟨s, hs, hpushes⟩ := Option.map_eq_some_iff.mp hsome
    refine ⟨s, run_of_walk hs, by rw [hpushes]; rfl, fun honce => ?_⟩
    have htwo := honce ⟨followed, "bob"⟩
    rw [pushesFor, hpushes] at htwo
    exact absurd htwo (by decide)
  · have hsome : (walk (next demoDecode demoService)
        ([NotifierAction.dispatch followed] ++ toPush 0 ++
          [NotifierAction.push 0 unavailable false, .reschedule 0 .ok, .wake 0,
            .push 0 unavailable false, .reschedule 0 .ok, .wake 0, .push 0 unavailable false,
            .bury 0 .ok]) start).map
        (fun s => decide (s.db.deadLetters = [] ∧ s.db.outbox.map (·.attempts) = [some 2] ∧
          (s.pushesFor ⟨followed, "bob"⟩ ≠ [] ∧
            ∀ p ∈ s.pushesFor ⟨followed, "bob"⟩, p.refused = true) ∧
          ¬ s.Pursued ⟨followed, "bob"⟩)) = some true := by
      decide
    obtain ⟨s, hs, hall⟩ := Option.map_eq_some_iff.mp hsome
    obtain ⟨hletters, hattempts, hrefused, hunpursued⟩ := of_decide_eq_true hall
    have hrun := run_of_walk hs
    exact ⟨s, hrun, hletters, hattempts, fun hdead =>
      hunpursued ((deadLettered_iff hrun).mp hdead _ hrefused)⟩

end Notifier
end Indexer
end Linkora
