import Mathlib.Tactic.ByContra
import Linkora.Sdk.Subscribed

/-!
# Runs of a subscriber

While the steps are careful, at most one batch is processed and one loop goes on, and whoever
takes up the history again, a request, a socket or a start, does so from where everything before
has been handled.  Two messages that are processed side by side move the cursor past an event that
is not handled, and back again.
-/

namespace Linkora
namespace Sdk
namespace Subscriber

section Facts

variable {cfg : SubscriberConfig} {s s' : Subscriber} {i n : Nat} {t t' : SubscriberTask}

/-! ## Invariant -/

/-- What careful steps keep. -/
structure Sound (cfg : SubscriberConfig) (s : Subscriber) : Prop where
  kept : Kept cfg s
  fresh : s.initial = none → s.tasks = [] ∧ s.handled = []
  /-- One batch is processed at a time, and one loop goes on. -/
  busy : Tasks.Exclusive busy s.tasks
  live : Tasks.Exclusive live s.tasks
  polling : cfg.webSocket = false → s.sockets = [] ∧ ∀ k phase, .message k phase ∉ s.tasks
  cursor : Tasks.Held Subscriber.live s.tasks () ∨ Tasks.Held Subscriber.busy s.tasks () →
    s.Reached cfg (cfg.history.position s.cursor)
  pending : ∀ task ∈ s.tasks, ∀ pending, pendingOf task = some pending → Fits cfg s pending
  fetching : ∀ cursor, .loop (.fetching cursor) ∈ s.tasks →
    s.Reached cfg (cfg.history.position cursor) ∧ s.Free
  connected : ∀ (k : Nat), s.sockets[k]? = some .connecting ∨
    (∃ position, s.sockets[k]? = some (.opened position)) → .loop (.connected k) ∈ s.tasks
  /-- What the server goes on with follows on the last batch. -/
  follows : ∀ (k : Nat) position, s.sockets[k]? = some (.opened position) →
    s.stopRequested = true ∨ .message k .failed ∈ s.tasks ∨
      (s.Free → s.Reached cfg position) ∧
      ∀ task ∈ s.tasks, ∀ pending, pendingOf task = some pending →
        task = .message k (.processing pending) ∧ endOf pending = position

/-! ## Steps of a batch -/

theorem mem_set_cases {tasks : List SubscriberTask} {u : SubscriberTask}
    (hu : u ∈ tasks.set i t') : u = t' ∨ ∃ j, j ≠ i ∧ tasks[j]? = some u := by
  obtain ⟨j, hj⟩ := List.getElem?_of_mem hu
  rcases getElem?_set_cases hj with ⟨_, rfl⟩ | ⟨hne, hj⟩
  · exact Or.inl rfl
  · exact Or.inr ⟨j, hne, hj⟩

theorem mem_set_self {tasks : List SubscriberTask} (hi : tasks[i]? = some t) :
    t' ∈ tasks.set i t' := by
  obtain ⟨hlt, -⟩ := List.getElem?_eq_some_iff.mp hi
  exact List.mem_of_getElem? (List.getElem?_set_self hlt)

theorem mem_set_of_ne {tasks : List SubscriberTask} {u : SubscriberTask} (hu : u ∈ tasks)
    (hi : tasks[i]? = some t) (hne : u ≠ t) : u ∈ tasks.set i t' := by
  obtain ⟨j, hj⟩ := List.getElem?_of_mem hu
  have hij : i ≠ j := by
    rintro rfl
    exact hne (Option.some.inj (hj.symm.trans hi))
  refine List.mem_of_getElem? (i := j) ?_
  rw [List.getElem?_set_ne hij]
  exact hj

theorem busy_eq {pending : Pending} (h : pendingOf t = some pending) :
    Subscriber.busy t = some () := by
  rw [Subscriber.busy, h]
  rfl

theorem exists_pending (h : Subscriber.busy t = some ()) :
    ∃ pending, pendingOf t = some pending := by
  obtain ⟨pending, hpending, -⟩ := Option.map_eq_some_iff.mp h
  exact ⟨pending, hpending⟩

/-- The task processes a batch, or is about to be given one. -/
def Engaged (t : SubscriberTask) : Prop :=
  Subscriber.busy t = some () ∨ ∃ cursor, t = .loop (.fetching cursor)

theorem Engaged.ne_connected (h : Engaged t) (k : Nat) : t ≠ .loop (.connected k) := by
  rintro rfl
  rcases h with hbusy | ⟨_, heq⟩
  · cases hbusy
  · cases heq

theorem Engaged.ne_failed (h : Engaged t) (k : Nat) : t ≠ .message k .failed := by
  rintro rfl
  rcases h with hbusy | ⟨_, heq⟩
  · cases hbusy
  · cases heq

theorem Engaged.live {phase : LoopPhase} (h : Engaged (.loop phase)) :
    Subscriber.live (.loop phase) = some () := by
  cases phase with
  | ended =>
    rcases h with hbusy | ⟨_, heq⟩
    · cases hbusy
    · cases heq
  | _ => rfl

theorem Engaged.held (h : Engaged t) (hi : s.tasks[i]? = some t) :
    Tasks.Held Subscriber.live s.tasks () ∨ Tasks.Held Subscriber.busy s.tasks () := by
  rcases h with hbusy | ⟨cursor, rfl⟩
  · exact Or.inr (Tasks.Held.of_getElem? hi hbusy)
  · exact Or.inl (Tasks.Held.of_getElem? hi rfl)

/-- Then no other task does. -/
theorem Sound.others (h : Sound cfg s) (hi : s.tasks[i]? = some t) (hengaged : Engaged t) :
    ∀ (j : Nat) u, j ≠ i → s.tasks[j]? = some u →
      pendingOf u = none ∧ ∀ cursor, u ≠ .loop (.fetching cursor) := by
  intro j u hne hj
  have hmem := List.mem_of_getElem? hj
  rcases hengaged with hbusy | ⟨cursor, rfl⟩
  · constructor
    · by_contra hsome
      obtain ⟨pending, hpending⟩ := Option.ne_none_iff_exists'.mp hsome
      exact hne (h.busy j i u t () hj hi (busy_eq hpending) hbusy)
    · rintro cursor rfl
      exact (h.fetching cursor hmem).2 (Tasks.Held.of_getElem? hi hbusy)
  · constructor
    · by_contra hsome
      obtain ⟨pending, hpending⟩ := Option.ne_none_iff_exists'.mp hsome
      exact (h.fetching cursor (List.mem_of_getElem? hi)).2
        (Tasks.Held.of_getElem? hj (busy_eq hpending))
    · rintro cursor' rfl
      exact hne (h.live j i _ _ () hj hi rfl rfl)

/-- While a loop fetches, no socket is open. -/
theorem Sound.not_opened (h : Sound cfg s) {cursor : Option String}
    (hi : s.tasks[i]? = some (.loop (.fetching cursor))) {k position : Nat} :
    s.sockets[k]? ≠ some (.opened position) := by
  intro hopen
  obtain ⟨j, hj⟩ := List.getElem?_of_mem (h.connected k (Or.inr ⟨position, hopen⟩))
  obtain rfl := h.live i j _ _ () hi hj rfl rfl
  rw [hi] at hj
  cases hj

/-- The task that is engaged becomes another. -/
theorem Sound.work (h : Sound cfg s) (hi : s.tasks[i]? = some t) (hengaged : Engaged t)
    (htasks : s'.tasks = s.tasks.set i t') (hsockets : s'.sockets = s.sockets)
    (hstop : s'.stopRequested = s.stopRequested) (hinitial : s'.initial = s.initial)
    (hkept : Kept cfg s') (hcursor : s'.Reached cfg (cfg.history.position s'.cursor))
    (hpending : ∀ pending, pendingOf t' = some pending → Fits cfg s' pending)
    (hfetch : ∀ cursor, t' ≠ .loop (.fetching cursor))
    (hlive : Subscriber.live t' = some () → Subscriber.live t = some ())
    (hkind : ∀ k phase', t' = .message k phase' → ∃ phase, t = .message k phase)
    (hopened : ∀ (k : Nat) position, s.sockets[k]? = some (.opened position) →
      s.stopRequested = true ∨ .message k .failed ∈ s'.tasks ∨
        (pendingOf t' = none → s'.Reached cfg position) ∧ ∀ pending, pendingOf t' = some pending →
          t' = .message k (.processing pending) ∧ endOf pending = position) : Sound cfg s' where
  kept := hkept
  fresh hnone := by
    obtain ⟨hnil, -⟩ := h.fresh (hinitial ▸ hnone)
    rw [hnil] at hi
    cases hi
  busy := by
    rw [htasks]
    refine h.busy.set hi fun _ _ => ?_
    by_cases hbusy : Subscriber.busy t = some ()
    · exact Or.inl hbusy
    · right
      rintro ⟨u, hu, hubusy⟩
      obtain ⟨j, hj⟩ := List.getElem?_of_mem hu
      obtain ⟨pending, hpending⟩ := exists_pending hubusy
      rcases eq_or_ne j i with rfl | hne
      · obtain rfl := Option.some.inj (hj.symm.trans hi)
        exact hbusy hubusy
      · rw [(h.others hi hengaged j u hne hj).1] at hpending
        cases hpending
  live := by
    rw [htasks]
    exact h.live.set hi fun _ hnew => Or.inl (hlive hnew)
  polling hmode := by
    rw [hsockets, htasks]
    refine ⟨(h.polling hmode).1, fun k phase hmem => ?_⟩
    rcases mem_set_cases hmem with heq | ⟨j, _, hj⟩
    · obtain ⟨phase', rfl⟩ := hkind k phase heq.symm
      exact (h.polling hmode).2 k phase' (List.mem_of_getElem? hi)
    · exact (h.polling hmode).2 k phase (List.mem_of_getElem? hj)
  cursor _ := hcursor
  pending u hu pending hp := by
    rw [htasks] at hu
    rcases mem_set_cases hu with rfl | ⟨j, hne, hj⟩
    · exact hpending pending hp
    · rw [(h.others hi hengaged j u hne hj).1] at hp
      cases hp
  fetching cursor hmem := by
    rw [htasks] at hmem
    rcases mem_set_cases hmem with heq | ⟨j, hne, hj⟩
    · exact absurd heq.symm (hfetch cursor)
    · exact absurd rfl ((h.others hi hengaged j _ hne hj).2 cursor)
  connected k hk := by
    rw [hsockets] at hk
    rw [htasks]
    exact mem_set_of_ne (h.connected k hk) hi (hengaged.ne_connected k).symm
  follows k position hk := by
    rw [hsockets] at hk
    rw [hstop]
    refine (hopened k position hk).imp_right fun hor => hor.imp_right fun ⟨hnone, hsome⟩ => ?_
    constructor
    · intro hfree
      refine hnone ?_
      by_contra hne
      obtain ⟨pending, hp⟩ := Option.ne_none_iff_exists'.mp hne
      refine hfree ⟨t', ?_, busy_eq hp⟩
      rw [htasks]
      exact mem_set_self hi
    · intro u hu pending hp
      rw [htasks] at hu
      rcases mem_set_cases hu with rfl | ⟨j, hne, hj⟩
      · exact hsome pending hp
      · rw [(h.others hi hengaged j u hne hj).1] at hp
        cases hp

theorem Fits.congr {pending : Pending} (h : Fits cfg s pending) (hstored : s'.stored = s.stored)
    (hinitial : s'.initial = s.initial) (hhandled : s'.handled = s.handled)
    (hcursor : s'.cursor = s.cursor) : Fits cfg s' pending := by
  refine ⟨h.reached.congr hstored hinitial (hhandled ▸ List.Subset.refl _), h.within,
    fun token i rest heq => ?_⟩
  rw [hcursor]
  exact h.saving token i rest heq

theorem pendingOf_afterIteration (s : Subscriber) : pendingOf (.loop s.afterIteration) = none := by
  unfold afterIteration
  split <;> rfl

theorem pendingOf_goOn (s : Subscriber) (t : SubscriberTask) (pending : Option Pending) :
    pendingOf (s.goOn t pending) = pending := by
  cases pending with
  | none =>
    cases t with
    | loop phase => exact s.pendingOf_afterIteration
    | message k phase => rfl
  | some pending => cases t <;> rfl

/-- The batch goes on, after what has been handled or stored. -/
theorem Sound.proceed (h : Sound cfg s) (hi : s.tasks[i]? = some t) (hengaged : Engaged t)
    {s₁ : Subscriber} (htasks : s₁.tasks = s.tasks) (hsockets : s₁.sockets = s.sockets)
    (hstop : s₁.stopRequested = s.stopRequested) (hinitial : s₁.initial = s.initial)
    (hkept : Kept cfg s₁) {last : Nat} {result : Option String × Option Pending}
    (hresult : Proceeds cfg s₁ last result)
    (hlast : ∀ pending, pendingOf t = some pending → endOf pending = last) :
    Sound cfg ({ s₁ with cursor := result.1 }.setTask i (s₁.goOn t result.2)) := by
  refine h.work hi hengaged (by rw [← htasks]; rfl) hsockets hstop hinitial
    (hkept.congr rfl rfl rfl rfl rfl) hresult.cursor (fun pending hpending => ?_)
    (fun cursor => ?_) (fun hlive => ?_) (fun k phase' heq => ?_) fun k position hk => ?_
  · rw [pendingOf_goOn] at hpending
    exact (hresult.pending pending hpending).1.congr rfl rfl rfl rfl
  · unfold goOn afterIteration
    split
    · split <;> exact nofun
    · split
      · split <;> exact nofun
      · exact nofun
  · -- Only a loop can be live.
    cases t with
    | loop phase => exact hengaged.live
    | message k phase =>
      revert hlive
      unfold goOn
      rcases result.2 with _ | p <;> exact nofun
  · cases t with
    | loop phase =>
      revert heq
      unfold goOn
      rcases result.2 with _ | p <;> exact nofun
    | message k' phase =>
      refine ⟨phase, ?_⟩
      revert heq
      unfold goOn
      rcases result.2 with _ | p
      · intro heq
        rw [(SubscriberTask.message.inj heq).1]
      · intro heq
        rw [(SubscriberTask.message.inj heq).1]
  · rcases h.follows k position hk with hstopped | hfailed | ⟨hfree, hpend⟩
    · exact Or.inl hstopped
    · refine Or.inr (Or.inl ?_)
      show _ ∈ s₁.tasks.set i _
      rw [htasks]
      exact mem_set_of_ne hfailed hi (hengaged.ne_failed k).symm
    · rcases hengaged with hbusy | ⟨cursor, rfl⟩
      · obtain ⟨p, hp⟩ := exists_pending hbusy
        obtain ⟨rfl, hend⟩ := hpend t (List.mem_of_getElem? hi) p hp
        obtain rfl : last = position := (hlast p hp).symm.trans hend
        rcases hr : result.2 with _ | p'
        · rcases hresult.finished hr with hstopped | hreached
          · exact Or.inl (hstop ▸ hstopped)
          · refine Or.inr (Or.inr ⟨fun _ => hreached, fun pending hpending => ?_⟩)
            cases hpending
        · refine Or.inr (Or.inr ⟨fun hnone => ?_, fun pending hpending => ?_⟩)
          · cases hnone
          · obtain rfl := Option.some.inj hpending
            exact ⟨rfl, (hresult.pending p' hr).2⟩
      · exact absurd hk (h.not_opened hi)

/-- The batch fails, or there is none. -/
theorem Sound.giveUp (h : Sound cfg s) (hi : s.tasks[i]? = some t) (hengaged : Engaged t) :
    Sound cfg (s.setTask i (s.giveUp t)) := by
  have hnone : pendingOf (s.giveUp t) = none := by
    cases t with
    | loop phase => exact s.pendingOf_afterIteration
    | message k phase => rfl
  refine h.work hi hengaged rfl rfl rfl rfl (h.kept.congr rfl rfl rfl rfl rfl)
    (h.cursor (hengaged.held hi)) (fun pending hpending => ?_) (fun cursor => ?_)
    (fun hlive => ?_) (fun k phase' heq => ?_) fun k position hk => ?_
  · rw [hnone] at hpending
    cases hpending
  · unfold Subscriber.giveUp afterIteration
    split
    · split <;> exact nofun
    · exact nofun
  · cases t with
    | loop phase => exact hengaged.live
    | message k phase => cases hlive
  · cases t with
    | loop phase => cases heq
    | message k' phase =>
      obtain ⟨rfl, -⟩ := SubscriberTask.message.inj heq
      exact ⟨phase, rfl⟩
  · rcases h.follows k position hk with hstopped | hfailed | ⟨hfree, hpend⟩
    · exact Or.inl hstopped
    · exact Or.inr (Or.inl (mem_set_of_ne hfailed hi (hengaged.ne_failed k).symm))
    · rcases hengaged with hbusy | ⟨cursor, rfl⟩
      · obtain ⟨p, hp⟩ := exists_pending hbusy
        obtain ⟨rfl, -⟩ := hpend t (List.mem_of_getElem? hi) p hp
        exact Or.inr (Or.inl (mem_set_self hi))
      · exact absurd hk (h.not_opened hi)

theorem Sound.emitted (h : Sound cfg s) {ok : Bool} (hnext : s.emitted cfg i ok = some s') :
    Sound cfg s' := by
  unfold Subscriber.emitted at hnext
  split at hnext
  · cases hnext
  · rename_i t hi
    split at hnext
    · rename_i position rest hpending
      have hengaged : Engaged t := Or.inl (busy_eq hpending)
      have hfits := h.pending t (List.mem_of_getElem? hi) _ hpending
      split at hnext
      · obtain rfl := Option.some.inj hnext
        have hlast : ∀ pending, pendingOf t = some pending →
            endOf pending = position + 1 + rest := by
          intro pending hp
          rw [hpending] at hp
          obtain rfl := Option.some.inj hp
          rfl
        by_cases hwanted : cfg.wanted position = true
        · simp only [if_pos hwanted]
          have hsubset : s.handled ⊆ s.handled ++ [position] := List.subset_append_left _ _
          have hmem : position ∈ s.handled ++ [position] :=
            List.mem_append_right _ (List.mem_singleton.mpr rfl)
          have hreached : ∀ n, s.Reached cfg n →
              Reached cfg { s with handled := s.handled ++ [position] } n :=
            fun n hn => hn.congr rfl rfl hsubset
          refine h.proceed hi hengaged ?_ ?_ ?_ ?_ (h.kept.handle hfits.reached.2 hwanted)
            (processEmitted_spec (hreached _ (h.cursor (hengaged.held hi)))
              ((hreached _ hfits.reached).succ fun _ => hmem) hfits.within) hlast <;> rfl
        · simp only [if_neg hwanted]
          exact h.proceed hi hengaged rfl rfl rfl rfl h.kept
            (processEmitted_spec (h.cursor (hengaged.held hi))
              (hfits.reached.succ fun hw => absurd hw hwanted) hfits.within) hlast
      · split at hnext
        · obtain rfl := Option.some.inj hnext
          exact h.giveUp hi hengaged
        · cases hnext
    · cases hnext

theorem Sound.save (h : Sound cfg s) {ok : Bool} (hnext : s.save cfg i ok = some s') :
    Sound cfg s' := by
  unfold Subscriber.save at hnext
  split at hnext
  · cases hnext
  · rename_i t hi
    split at hnext
    · rename_i token position rest hpending
      have hengaged : Engaged t := Or.inl (busy_eq hpending)
      have hfits := h.pending t (List.mem_of_getElem? hi) _ hpending
      obtain ⟨htoken, hcursor⟩ := hfits.saving token position rest rfl
      split at hnext
      · obtain rfl := Option.some.inj hnext
        have hposition := position_token htoken
        have hreached : s.Reached cfg (cfg.history.position (some token)) := by
          rw [hposition]
          exact hfits.reached
        -- The stored cursor is now the cursor itself.
        have hafter : Reached cfg { s with stored := some token, saved := s.saved ++ [token] }
            (position + 1) := by
          refine ⟨Nat.le_of_eq hposition, ?_⟩
          exact hfits.reached.2
        refine h.proceed hi hengaged ?_ ?_ ?_ ?_ (h.kept.save hreached)
          (processFrom_spec ?_ hafter hfits.within) fun pending hp => ?_
        · rfl
        · rfl
        · rfl
        · rfl
        · show Reached cfg _ (cfg.history.position s.cursor)
          rw [hcursor, hposition]
          exact hafter
        · rw [hpending] at hp
          obtain rfl := Option.some.inj hp
          rfl
      · obtain rfl := Option.some.inj hnext
        exact h.giveUp hi hengaged
    · cases hnext

theorem Sound.fetched (h : Sound cfg s) {reply : Option Nat}
    (hnext : s.fetched cfg i reply = some s') : Sound cfg s' := by
  unfold Subscriber.fetched at hnext
  split at hnext
  · rename_i asked hi
    have hengaged : Engaged (.loop (.fetching asked)) := Or.inr ⟨asked, rfl⟩
    split at hnext
    · obtain rfl := Option.some.inj hnext
      exact h.giveUp hi hengaged
    · dsimp only at hnext
      split at hnext
      · rename_i hwithin
        obtain rfl := Option.some.inj hnext
        obtain ⟨hreached, -⟩ := h.fetching asked (List.mem_of_getElem? hi)
        exact h.proceed hi hengaged rfl rfl rfl rfl h.kept
          (processFrom_spec (h.cursor (hengaged.held hi)) hreached hwithin) nofun
      · cases hnext
  · cases hnext

/-! ## Steps of a loop -/

/-- The task is as it was, or a loop that goes on and processes nothing goes on otherwise. -/
def Turns (u u' : SubscriberTask) : Prop :=
  u' = u ∨ Subscriber.live u = some () ∧ pendingOf u = none ∧ pendingOf u' = none ∧
    ∀ k phase, u' ≠ .message k phase

theorem Turns.pending {u u' : SubscriberTask} (h : Turns u u') {pending : Pending}
    (hp : pendingOf u' = some pending) : u' = u := by
  rcases h with rfl | ⟨_, _, hnone, _⟩
  · rfl
  · rw [hnone] at hp
    cases hp

/-- Loops go on while the batches stay as they are. -/
theorem Sound.turn (h : Sound cfg s) (hstored : s'.stored = s.stored)
    (hinitial : s'.initial = s.initial) (hhandled : s'.handled = s.handled)
    (hsaved : s'.saved = s.saved) (hfirst : s'.first = s.first) (hcursor : s'.cursor = s.cursor)
    (hstop : s.stopRequested = true → s'.stopRequested = true)
    (htasks : ∀ (j : Nat) u', s'.tasks[j]? = some u' → ∃ u, s.tasks[j]? = some u ∧ Turns u u')
    (hmessages : ∀ k phase, .message k phase ∈ s.tasks → .message k phase ∈ s'.tasks)
    (hsockets : cfg.webSocket = false → s'.sockets = [])
    (hfetching : ∀ cursor, .loop (.fetching cursor) ∈ s'.tasks →
      .loop (.fetching cursor) ∈ s.tasks ∨ cursor = s.cursor ∧ s.Free)
    (hconnected : ∀ (k : Nat), s'.sockets[k]? = some .connecting ∨
      (∃ position, s'.sockets[k]? = some (.opened position)) → .loop (.connected k) ∈ s'.tasks)
    (hopened : ∀ (k : Nat) position, s'.sockets[k]? = some (.opened position) →
      s.sockets[k]? = some (.opened position)) : Sound cfg s' := by
  have hback : ∀ u' ∈ s'.tasks, ∃ u ∈ s.tasks, Turns u u' := by
    intro u' hu'
    obtain ⟨j, hj⟩ := List.getElem?_of_mem hu'
    obtain ⟨u, hu, hturns⟩ := htasks j u' hj
    exact ⟨u, List.mem_of_getElem? hu, hturns⟩
  have hlive : ∀ {u u'}, Turns u u' → Subscriber.live u' = some () →
      Subscriber.live u = some () := by
    rintro u u' (rfl | ⟨hlive, -⟩) hnew
    · exact hnew
    · exact hlive
  have hbusy : Tasks.Held Subscriber.busy s'.tasks () → Tasks.Held Subscriber.busy s.tasks () := by
    rintro ⟨u', hu', hb⟩
    obtain ⟨u, hu, hturns⟩ := hback u' hu'
    obtain ⟨pending, hp⟩ := exists_pending hb
    obtain rfl := hturns.pending hp
    exact ⟨u', hu, hb⟩
  have hreached : ∀ n, s.Reached cfg n → s'.Reached cfg n := fun n hn =>
    hn.congr hstored hinitial (hhandled ▸ List.Subset.refl _)
  have hgone : Tasks.Held Subscriber.live s'.tasks () ∨ Tasks.Held Subscriber.busy s'.tasks () →
      s.Reached cfg (cfg.history.position s.cursor) := by
    rintro (⟨u', hu', hl⟩ | hb)
    · obtain ⟨u, hu, hturns⟩ := hback u' hu'
      exact h.cursor (Or.inl ⟨u, hu, hlive hturns hl⟩)
    · exact h.cursor (Or.inr (hbusy hb))
  constructor
  · exact h.kept.congr hstored hinitial hhandled hsaved hfirst
  · intro hnone
    obtain ⟨hnil, hempty⟩ := h.fresh (hinitial ▸ hnone)
    refine ⟨List.eq_nil_iff_forall_not_mem.mpr fun u' hu' => ?_, hhandled ▸ hempty⟩
    obtain ⟨u, hu, -⟩ := hback u' hu'
    rw [hnil] at hu
    exact absurd hu List.not_mem_nil
  · intro x y a b k hx hy ha hb
    obtain ⟨a', hxa, hta⟩ := htasks x a hx
    obtain ⟨b', hyb, htb⟩ := htasks y b hy
    obtain ⟨pa, hpa⟩ := exists_pending ha
    obtain ⟨pb, hpb⟩ := exists_pending hb
    obtain rfl := hta.pending hpa
    obtain rfl := htb.pending hpb
    exact h.busy x y a b k hxa hyb ha hb
  · intro x y a b k hx hy ha hb
    obtain ⟨a', hxa, hta⟩ := htasks x a hx
    obtain ⟨b', hyb, htb⟩ := htasks y b hy
    exact h.live x y a' b' () hxa hyb (hlive hta ha) (hlive htb hb)
  · intro hmode
    refine ⟨hsockets hmode, fun k phase hmem => ?_⟩
    obtain ⟨u, hu, rfl | ⟨_, _, _, hne⟩⟩ := hback _ hmem
    · exact (h.polling hmode).2 k phase hu
    · exact hne k phase rfl
  · rw [hcursor]
    exact fun hheld => hreached _ (hgone hheld)
  · intro u' hu' pending hp
    obtain ⟨u, hu, hturns⟩ := hback u' hu'
    obtain rfl := hturns.pending hp
    exact (h.pending u' hu pending hp).congr hstored hinitial hhandled hcursor
  · intro cursor hmem
    have hfree : s.Free → s'.Free := fun hfree hb => hfree (hbusy hb)
    rcases hfetching cursor hmem with hold | ⟨rfl, hnobody⟩
    · exact ⟨hreached _ (h.fetching cursor hold).1, hfree (h.fetching cursor hold).2⟩
    · exact ⟨hreached _ (hgone (Or.inl ⟨_, hmem, rfl⟩)), hfree hnobody⟩
  · exact hconnected
  · intro k position hk
    rcases h.follows k position (hopened k position hk) with hstopped | hfailed | ⟨hfree, hpend⟩
    · exact Or.inl (hstop hstopped)
    · exact Or.inr (Or.inl (hmessages k _ hfailed))
    · refine Or.inr (Or.inr ⟨fun hnobody => ?_, fun u' hu' pending hp => ?_⟩)
      · refine hreached _ (hfree fun hb => ?_)
        obtain ⟨u, hu, hub⟩ := hb
        obtain ⟨pending, hp⟩ := exists_pending hub
        obtain ⟨rfl, -⟩ := hpend u hu pending hp
        exact hnobody ⟨_, hmessages k _ hu, rfl⟩
      · obtain ⟨u, hu, hturns⟩ := hback u' hu'
        obtain rfl := hturns.pending hp
        exact hpend u' hu pending hp

/-- A sleeping loop goes on; in polling mode nobody else is at work. -/
theorem Sound.wake (h : Sound cfg s) (hnext : s.wake cfg i = some s') : Sound cfg s' := by
  unfold Subscriber.wake at hnext
  split at hnext
  · rename_i hi
    have hset : ∀ phase, pendingOf (.loop phase) = none → ∀ (j : Nat) u',
        (s.tasks.set i (.loop phase))[j]? = some u' → ∃ u, s.tasks[j]? = some u ∧ Turns u u' := by
      intro phase hnone j u' hj
      rcases getElem?_set_cases hj with ⟨rfl, rfl⟩ | ⟨_, hold⟩
      · exact ⟨_, hi, Or.inr ⟨rfl, rfl, hnone, nofun⟩⟩
      · exact ⟨u', hold, Or.inl rfl⟩
    have hmessages : ∀ task k phase, .message k phase ∈ s.tasks →
        .message k phase ∈ s.tasks.set i task :=
      fun task k phase hmem => mem_set_of_ne hmem hi nofun
    have hloops : ∀ task k, .loop (.connected k) ∈ s.tasks →
        .loop (.connected k) ∈ s.tasks.set i task := fun task k hmem => mem_set_of_ne hmem hi nofun
    have hfetching : ∀ task cursor, .loop (.fetching cursor) ∈ s.tasks.set i task →
        task = .loop (.fetching cursor) ∨ .loop (.fetching cursor) ∈ s.tasks := by
      intro task cursor hmem
      rcases mem_set_cases hmem with heq | ⟨j, _, hj⟩
      · exact Or.inl heq.symm
      · exact Or.inr (List.mem_of_getElem? hj)
    split at hnext
    · obtain rfl := Option.some.inj hnext
      refine h.turn rfl rfl rfl rfl rfl rfl (fun hstop => hstop) (hset _ rfl) (hmessages _)
        (fun hmode => (h.polling hmode).1) (fun cursor hmem => ?_)
        (fun k hk => hloops _ k (h.connected k hk)) fun k position hk => hk
      rcases hfetching _ cursor hmem with heq | hold
      · cases heq
      · exact Or.inl hold
    · by_cases hmode : cfg.webSocket = true
      · rw [iterate, if_pos hmode] at hnext
        obtain rfl := Option.some.inj hnext
        refine h.turn rfl rfl rfl rfl rfl rfl (fun hstop => hstop) (hset _ rfl) (hmessages _)
          (fun hpoll => absurd (hmode.symm.trans hpoll) nofun) (fun cursor hmem => ?_)
          (fun k hk => ?_) fun k position hk => ?_
        · rcases hfetching _ cursor hmem with heq | hold
          · cases heq
          · exact Or.inl hold
        · show _ ∈ s.tasks.set i _
          rcases hk with hk | ⟨position, hk⟩
          · rcases getElem?_snoc hk with hk | ⟨rfl, _⟩
            · exact hloops _ k (h.connected k (Or.inl hk))
            · exact mem_set_self hi
          · rcases getElem?_snoc hk with hk | ⟨_, heq⟩
            · exact hloops _ k (h.connected k (Or.inr ⟨position, hk⟩))
            · cases heq
        · rcases getElem?_snoc hk with hk | ⟨_, heq⟩
          · exact hk
          · cases heq
      · rw [iterate, if_neg hmode] at hnext
        obtain rfl := Option.some.inj hnext
        refine h.turn rfl rfl rfl rfl rfl rfl (fun hstop => hstop) (hset _ rfl) (hmessages _)
          (fun hpoll => (h.polling hpoll).1) (fun cursor hmem => ?_)
          (fun k hk => hloops _ k (h.connected k hk)) fun k position hk => hk
        rcases hfetching _ cursor hmem with heq | hold
        · obtain rfl := LoopPhase.fetching.inj (SubscriberTask.loop.inj heq)
          refine Or.inr ⟨rfl, ?_⟩
          -- Whoever processes a batch would be another loop that goes on.
          rintro ⟨u, hu, hb⟩
          obtain ⟨pending, hp⟩ := exists_pending hb
          obtain ⟨j, hj⟩ := List.getElem?_of_mem hu
          cases u with
          | loop phase =>
            have hl : Subscriber.live (.loop phase) = some () := by
              cases phase with
              | ended => cases hp
              | _ => rfl
            obtain rfl := h.live i j _ _ () hi hj rfl hl
            rw [hi] at hj
            cases hj
            cases hp
          | message k phase =>
            exact (h.polling (Bool.eq_false_of_not_eq_true hmode)).2 k phase hu
        · exact Or.inl hold
  · cases hnext

theorem live_eq {phase : LoopPhase} (h : phase ≠ .ended) :
    Subscriber.live (.loop phase) = some () := by
  cases phase with
  | ended => exact absurd rfl h
  | _ => rfl

/-- The socket `k` is done with, and the loop that waited for it goes on. -/
theorem Sound.settle (h : Sound cfg s) {k : Nat} {socket : Socket}
    (hsocket : ∀ position, socket ≠ .opened position) (hdone : socket ≠ .connecting) :
    Sound cfg (s.settle k socket) := by
  have hafter : ∀ k' phase, (.loop s.afterIteration : SubscriberTask) ≠ .message k' phase := nofun
  have hother : ∀ (k' : Nat) x, (s.sockets.set k socket)[k']? = some x →
      x = .connecting ∨ (∃ position, x = .opened position) → k' ≠ k ∧ s.sockets[k']? = some x := by
    intro k' x hx hkind
    rcases getElem?_set_cases hx with ⟨_, rfl⟩ | hold
    · rcases hkind with rfl | ⟨position, rfl⟩
      · exact absurd rfl hdone
      · exact absurd rfl (hsocket position)
    · exact hold
  refine h.turn rfl rfl rfl rfl rfl rfl (fun hstop => hstop) (fun j u' hj => ?_)
    (fun k' phase hmem => ?_) (fun hmode => ?_) (fun cursor hmem => ?_) (fun k' hk' => ?_)
    fun k' position hk' => ?_
  · obtain ⟨u, hu, rfl⟩ := Option.map_eq_some_iff.mp (List.getElem?_map ▸ hj)
    refine ⟨u, hu, ?_⟩
    split
    · rename_i heq
      subst heq
      exact Or.inr ⟨rfl, rfl, s.pendingOf_afterIteration, hafter⟩
    · exact Or.inl rfl
  · refine List.mem_map.mpr ⟨_, hmem, if_neg nofun⟩
  · show s.sockets.set k socket = []
    rw [(h.polling hmode).1]
    rfl
  · obtain ⟨u, hu, heq⟩ := List.mem_map.mp hmem
    split at heq
    · unfold afterIteration at heq
      split at heq <;> cases heq
    · exact Or.inl (heq ▸ hu)
  · have hold : k' ≠ k ∧ .loop (.connected k') ∈ s.tasks := by
      rcases hk' with hk' | ⟨position, hk'⟩
      · obtain ⟨hne, hold⟩ := hother k' _ hk' (Or.inl rfl)
        exact ⟨hne, h.connected k' (Or.inl hold)⟩
      · obtain ⟨hne, hold⟩ := hother k' _ hk' (Or.inr ⟨position, rfl⟩)
        exact ⟨hne, h.connected k' (Or.inr ⟨position, hold⟩)⟩
    refine List.mem_map.mpr ⟨_, hold.2, if_neg fun heq => hold.1 ?_⟩
    exact LoopPhase.connected.inj (SubscriberTask.loop.inj heq)
  · exact (hother k' _ hk' (Or.inr ⟨position, rfl⟩)).2

theorem Sound.errored (h : Sound cfg s) {k : Nat} (hnext : s.errored k = some s') :
    Sound cfg s' := by
  unfold Subscriber.errored at hnext
  split at hnext
  · rename_i hk
    obtain rfl := Option.some.inj hnext
    exact h.settle nofun nofun
  · cases hnext

theorem Sound.closed (h : Sound cfg s) {k : Nat} (hnext : s.closed k = some s') :
    Sound cfg s' := by
  unfold Subscriber.closed at hnext
  split at hnext
  · cases hnext
  · cases hnext
  · rename_i hk
    obtain rfl := Option.some.inj hnext
    exact h.settle nofun nofun

/-! ## Starting and stopping -/

/-- The initial cursor is set by the first start. -/
theorem HandledUpTo.begin (h : s.HandledUpTo cfg n) {c : Nat} (hfirst : s.initial = none → n ≤ c) :
    HandledUpTo cfg { s with initial := s.initial.or (some c) } n := by
  intro initial hinitial j hj hle hwanted
  cases hs : s.initial with
  | none =>
    have heq : s.initial.or (some c) = some initial := hinitial
    rw [hs] at heq
    obtain rfl := Option.some.inj heq
    have hn := hfirst hs
    omega
  | some first =>
    have heq : s.initial.or (some c) = some initial := hinitial
    rw [hs] at heq
    exact h initial (hs.trans heq) j hj hle hwanted

theorem Kept.begin (h : Kept cfg s) (hfresh : s.initial = none → s.handled = []) {c : Nat}
    (hc : cfg.history.position s.stored ≤ c) :
    Kept cfg { s with initial := s.initial.or (some c) } := by
  have hempty : ∀ j ∈ s.handled, s.initial ≠ none := by
    intro j hj hnone
    rw [hfresh hnone] at hj
    exact absurd hj List.not_mem_nil
  have hsome : ∀ initial, s.initial.or (some c) = some initial → s.initial ≠ none →
      s.initial = some initial := by
    intro initial hi hne
    obtain ⟨first, hfirst⟩ := Option.ne_none_iff_exists'.mp hne
    rw [hfirst] at hi ⊢
    exact hi
  constructor
  · exact h.stored.begin fun _ => hc
  · intro initial hi j hj hle
    have hne := hempty j hj
    exact (h.before initial (hsome initial hi hne) j hj hle).begin fun hnone => absurd hnone hne
  · intro initial hi x y hle hlt hx hy
    exact h.inOrder initial (hsome initial hi (hempty x hx)) x y hle hlt hx hy
  · intro token htoken
    have hmem : cfg.history.position (some token) ∈ s.positions cfg :=
      List.mem_map_of_mem (List.mem_cons_of_mem _ (List.mem_map_of_mem htoken))
    exact (h.saved token htoken).begin fun _ => Nat.le_trans (h.latest _ hmem) hc
  · exact h.forwards
  · exact h.latest

theorem iterate_eq (cfg : SubscriberConfig) (s : Subscriber) : ∃ sockets phase,
    s.iterate cfg = ({ s with sockets }, phase) ∧
      (cfg.webSocket = true ∧ sockets = s.sockets ++ [.connecting] ∧
          phase = .connected s.sockets.length ∨
        cfg.webSocket = false ∧ sockets = s.sockets ∧ phase = .fetching s.cursor) := by
  unfold iterate
  split
  · rename_i hmode
    exact ⟨_, _, rfl, Or.inl ⟨hmode, rfl, rfl⟩⟩
  · rename_i hmode
    exact ⟨_, _, rfl, Or.inr ⟨Bool.eq_false_of_not_eq_true hmode, rfl, rfl⟩⟩

/-- A new loop, when no other goes on and no batch is processed. -/
theorem Sound.launch (h : Sound cfg s) (hover : s.Over) {cursor : Option String}
    (hcursor : s.Reached cfg (cfg.history.position cursor)) : Sound cfg (s.launch cfg cursor) := by
  obtain ⟨hlive, hfree⟩ := hover
  have hnoSocket : ∀ (k : Nat) x, s.sockets[k]? = some x →
      x ≠ .connecting ∧ ∀ position, x ≠ .opened position := by
    intro k x hx
    constructor
    · rintro rfl
      exact hlive ⟨_, h.connected k (Or.inl hx), rfl⟩
    · rintro position rfl
      exact hlive ⟨_, h.connected k (Or.inr ⟨position, hx⟩), rfl⟩
  have hkept := h.kept.begin (fun hnone => (h.fresh hnone).2) hcursor.1
  have hreached : Reached cfg
      { s with initial := s.initial.or (some (cfg.history.position cursor)) }
      (cfg.history.position cursor) :=
    ⟨hcursor.1, hcursor.2.begin fun _ => Nat.le_refl _⟩
  obtain ⟨sockets, phase, hiterate, hcases⟩ := iterate_eq cfg
    { s with
      cursor
      running := true
      stopRequested := false
      initial := s.initial.or (some (cfg.history.position cursor)) }
  have hgoes : phase ≠ .ended ∧ pendingOf (.loop phase) = none := by
    rcases hcases with ⟨-, -, rfl⟩ | ⟨-, -, rfl⟩
    · exact ⟨nofun, rfl⟩
    · exact ⟨nofun, rfl⟩
  have hnobody : ∀ u ∈ s.tasks ++ [.loop phase], pendingOf u = none := by
    intro u hu
    rcases List.mem_append.mp hu with hold | hnew
    · by_contra hsome
      obtain ⟨pending, hp⟩ := Option.ne_none_iff_exists'.mp hsome
      exact hfree ⟨u, hold, busy_eq hp⟩
    · obtain rfl := List.mem_singleton.mp hnew
      exact hgoes.2
  unfold Subscriber.launch
  simp only [hiterate]
  constructor
  · exact hkept.congr rfl rfl rfl rfl rfl
  · intro hnone
    have heq : s.initial.or (some (cfg.history.position cursor)) = none := hnone
    cases hs : s.initial <;> rw [hs] at heq <;> cases heq
  · refine h.busy.append fun _ hb => ?_
    obtain ⟨pending, hp⟩ := exists_pending hb
    rw [hgoes.2] at hp
    cases hp
  · exact h.live.append fun _ _ => hlive
  · intro hmode
    rcases hcases with ⟨hws, -, -⟩ | ⟨-, rfl, -⟩
    · rw [hmode] at hws
      cases hws
    · refine ⟨(h.polling hmode).1, fun k phase' hmem => ?_⟩
      rcases List.mem_append.mp hmem with hold | hnew
      · exact (h.polling hmode).2 k phase' hold
      · cases List.mem_singleton.mp hnew
  · exact fun _ => hreached
  · intro u hu pending hp
    rw [hnobody u hu] at hp
    cases hp
  · intro asked hmem
    have hfree' : ¬ Tasks.Held Subscriber.busy (s.tasks ++ [.loop phase]) () := by
      rintro ⟨u, hu, hb⟩
      obtain ⟨pending, hp⟩ := exists_pending hb
      rw [hnobody u hu] at hp
      cases hp
    rcases List.mem_append.mp hmem with hold | hnew
    · exact absurd ⟨_, hold, rfl⟩ hlive
    · rcases hcases with ⟨-, -, rfl⟩ | ⟨-, -, rfl⟩
      · cases List.mem_singleton.mp hnew
      · obtain rfl := LoopPhase.fetching.inj (SubscriberTask.loop.inj (List.mem_singleton.mp hnew))
        exact ⟨hreached, hfree'⟩
  · intro k hk
    rcases hcases with ⟨-, rfl, rfl⟩ | ⟨-, rfl, -⟩
    · rcases hk with hk | ⟨position, hk⟩
      · rcases getElem?_snoc hk with hk | ⟨rfl, _⟩
        · exact absurd rfl (hnoSocket k _ hk).1
        · exact List.mem_append_right _ (List.mem_singleton.mpr rfl)
      · rcases getElem?_snoc hk with hk | ⟨_, heq⟩
        · exact absurd rfl ((hnoSocket k _ hk).2 position)
        · cases heq
    · rcases hk with hk | ⟨position, hk⟩
      · exact absurd rfl (hnoSocket k _ hk).1
      · exact absurd rfl ((hnoSocket k _ hk).2 position)
  · intro k position hk
    rcases hcases with ⟨-, rfl, rfl⟩ | ⟨-, rfl, -⟩
    · rcases getElem?_snoc hk with hk | ⟨_, heq⟩
      · exact absurd rfl ((hnoSocket k _ hk).2 position)
      · cases heq
    · exact absurd rfl ((hnoSocket k _ hk).2 position)

/-- The flags and the number of pending starts say nothing of what is delivered. -/
theorem Sound.flags (h : Sound cfg s) (running stopRequested : Bool) (starting : Nat)
    (hstop : s.stopRequested = true → stopRequested = true) :
    Sound cfg { s with running, stopRequested, starting } :=
  h.turn rfl rfl rfl rfl rfl rfl hstop (fun _ u hu => ⟨u, hu, Or.inl rfl⟩) (fun _ _ hmem => hmem)
    (fun hmode => (h.polling hmode).1) (fun _ hmem => Or.inl hmem) h.connected fun _ _ hk => hk

theorem Sound.start (h : Sound cfg s) {fromCursor : Option String}
    (hcareful : s.Careful cfg (.start fromCursor)) : Sound cfg (s.start cfg fromCursor) := by
  unfold Subscriber.start
  split
  · exact h
  · rename_i hrunning
    split
    · obtain ⟨hover, hreached⟩ := hcareful (Bool.eq_false_of_not_eq_true hrunning)
      exact h.launch hover hreached
    · exact h.flags _ _ _ fun hstop => hstop

theorem Sound.started (h : Sound cfg s) {ok : Bool} (hover : ok = true → s.Over)
    (hnext : s.started cfg ok = some s') : Sound cfg s' := by
  unfold Subscriber.started at hnext
  split at hnext
  · cases hnext
  · have hflags := h.flags s.running s.stopRequested (s.starting - 1) fun hstop => hstop
    dsimp only at hnext
    split at hnext
    · rename_i hok
      obtain rfl := Option.some.inj hnext
      exact hflags.launch (hover hok) ⟨Nat.le_refl _, h.kept.stored⟩
    · obtain rfl := Option.some.inj hnext
      exact hflags

/-! ## Steps of a socket -/

/-- The cursor is announced while no batch is processed. -/
theorem Sound.opened (h : Sound cfg s) {k : Nat} (hfree : s.Free)
    (hnext : s.opened cfg k = some s') : Sound cfg s' := by
  unfold Subscriber.opened at hnext
  split at hnext
  · rename_i hk
    obtain rfl := Option.some.inj hnext
    have hloop := h.connected k (Or.inl hk)
    have hreached := h.cursor (Or.inl ⟨_, hloop, rfl⟩)
    have hother : ∀ (k' : Nat) x, (s.sockets.set k (.opened (cfg.history.position s.cursor)))[k']? =
        some x → k' = k ∧ x = .opened (cfg.history.position s.cursor) ∨ s.sockets[k']? = some x :=
      fun k' x hx => (getElem?_set_cases hx).imp_right fun hold => hold.2
    refine ⟨h.kept.congr rfl rfl rfl rfl rfl, h.fresh, h.busy, h.live, fun hmode => ?_,
      fun hheld => h.cursor hheld, fun u hu pending hp =>
        (h.pending u hu pending hp).congr rfl rfl rfl rfl,
      fun cursor hmem => h.fetching cursor hmem,
      fun k' hk' => ?_, fun k' position hk' => ?_⟩
    · rw [(h.polling hmode).1] at hk
      cases hk
    · rcases hk' with hk' | ⟨position, hk'⟩
      · rcases hother k' _ hk' with ⟨-, heq⟩ | hold
        · cases heq
        · exact h.connected k' (Or.inl hold)
      · rcases hother k' _ hk' with ⟨rfl, -⟩ | hold
        · exact hloop
        · exact h.connected k' (Or.inr ⟨position, hold⟩)
    · rcases hother k' _ hk' with ⟨rfl, heq⟩ | hold
      · obtain rfl := Socket.opened.inj heq
        refine Or.inr (Or.inr ⟨fun _ => hreached, fun u hu pending hp => ?_⟩)
        exact absurd ⟨u, hu, busy_eq hp⟩ hfree
      · exact h.follows k' position hold
  · cases hnext

theorem processFrom_nothing {stop : Bool} {cursor : Option String} {i count : Nat}
    (h : stop = true ∨ count = 0) : processFrom cfg stop cursor i count = (cursor, none) := by
  cases count with
  | zero => rfl
  | succ rest =>
    rcases h with hstop | hzero
    · rw [processFrom, if_pos hstop]
    · cases hzero

/-- A message comes, with a batch that goes on where the one before it ended. -/
theorem Sound.receive (h : Sound cfg s) {k position count : Nat}
    (hk : s.sockets[k]? = some (.opened position))
    (hwithin : position + count ≤ cfg.history.events.length)
    (hcareful : s.stopRequested = false → count ≠ 0 → s.Free ∧ .message k .failed ∉ s.tasks) :
    Sound cfg { s with
      cursor := (processFrom cfg s.stopRequested s.cursor position count).1
      sockets := s.sockets.set k (.opened (position + count))
      tasks := s.tasks ++ [s.goOn (.message k .done)
        (processFrom cfg s.stopRequested s.cursor position count).2] } := by
  obtain ⟨x, hx⟩ := List.getElem?_of_mem (h.connected k (Or.inr ⟨position, hk⟩))
  have hloop := List.mem_of_getElem? hx
  have hcursor := h.cursor (Or.inl ⟨_, hloop, rfl⟩)
  -- The loop that goes on waits for the socket, so that there is no other socket and no request.
  have honly : ∀ phase, phase ≠ .ended → .loop phase ∈ s.tasks → phase = .connected k := by
    intro phase hne hmem
    obtain ⟨y, hy⟩ := List.getElem?_of_mem hmem
    obtain rfl := h.live x y _ _ () hx hy rfl (live_eq hne)
    exact SubscriberTask.loop.inj (Option.some.inj (hy.symm.trans hx))
  have hsocket : ∀ (k' : Nat) y, (s.sockets.set k (.opened (position + count)))[k']? = some y →
      k' = k ∧ y = .opened (position + count) ∨ k' ≠ k ∧ s.sockets[k']? = some y :=
    fun _ _ hy => getElem?_set_cases hy
  generalize hresult : processFrom cfg s.stopRequested s.cursor position count = result
  -- Either nothing is done, or the batch is the only one and goes on from what was handled.
  have hcases : result = (s.cursor, none) ∧ (s.stopRequested = true ∨ count = 0) ∨
      Proceeds cfg s (position + count) result ∧ s.Free := by
    by_cases hidle : s.stopRequested = true ∨ count = 0
    · exact Or.inl ⟨hresult ▸ processFrom_nothing hidle, hidle⟩
    · rw [not_or] at hidle
      have hgoing := Bool.eq_false_of_not_eq_true hidle.1
      obtain ⟨hfree, hunfailed⟩ := hcareful hgoing hidle.2
      rcases h.follows k position hk with hstopped | hfailed | ⟨hreached, -⟩
      · exact absurd hstopped hidle.1
      · exact absurd hfailed hunfailed
      · exact Or.inr ⟨hresult ▸ processFrom_spec hcursor (hreached hfree) hwithin, hfree⟩
  have hidle : s.Free → ∀ u ∈ s.tasks, pendingOf u = none := by
    intro hfree u hu
    by_contra hsome
    obtain ⟨pending, hp⟩ := Option.ne_none_iff_exists'.mp hsome
    exact hfree ⟨u, hu, busy_eq hp⟩
  have hold : ∀ u ∈ s.tasks, ∀ pending, pendingOf u = some pending → result = (s.cursor, none) := by
    intro u hu pending hp
    rcases hcases with ⟨heq, -⟩ | ⟨-, hfree⟩
    · exact heq
    · rw [hidle hfree u hu] at hp
      cases hp
  constructor
  · exact h.kept.congr rfl rfl rfl rfl rfl
  · intro hnone
    rw [(h.fresh hnone).1] at hloop
    exact absurd hloop List.not_mem_nil
  · refine h.busy.append fun _ hb => ?_
    obtain ⟨pending, hp⟩ := exists_pending hb
    rw [pendingOf_goOn] at hp
    rcases hcases with ⟨rfl, -⟩ | ⟨-, hfree⟩
    · cases hp
    · exact hfree
  · refine h.live.append fun _ hl => ?_
    revert hl
    rcases result.2 with _ | pending <;> exact nofun
  · intro hmode
    rw [(h.polling hmode).1] at hk
    cases hk
  · intro _
    rcases hcases with ⟨rfl, -⟩ | ⟨hproceeds, -⟩
    · exact hcursor
    · exact hproceeds.cursor
  · intro u hu pending hp
    rcases List.mem_append.mp hu with hmem | hnew
    · have heq := hold u hmem pending hp
      exact (h.pending u hmem pending hp).congr rfl rfl rfl (by rw [heq])
    · obtain rfl := List.mem_singleton.mp hnew
      rw [pendingOf_goOn] at hp
      rcases hcases with ⟨rfl, -⟩ | ⟨hproceeds, -⟩
      · cases hp
      · exact (hproceeds.pending pending hp).1.congr rfl rfl rfl rfl
  · intro asked hmem
    rcases List.mem_append.mp hmem with hmem | hnew
    · cases honly (.fetching asked) nofun hmem
    · have heq := List.mem_singleton.mp hnew
      rcases hr : result.2 with _ | pending <;> rw [hr] at heq <;> cases heq
  · intro k' hk'
    refine List.mem_append_left _ ?_
    rcases hk' with hk' | ⟨position', hk'⟩
    · rcases hsocket k' _ hk' with ⟨rfl, -⟩ | ⟨-, hsame⟩
      · exact hloop
      · exact h.connected k' (Or.inl hsame)
    · rcases hsocket k' _ hk' with ⟨rfl, -⟩ | ⟨-, hsame⟩
      · exact hloop
      · exact h.connected k' (Or.inr ⟨position', hsame⟩)
  · intro k' position' hk'
    rcases hsocket k' _ hk' with ⟨rfl, heq⟩ | ⟨hne, hsame⟩
    · obtain rfl := Socket.opened.inj heq
      rcases hcases with ⟨rfl, hstopped | rfl⟩ | ⟨hproceeds, hfree⟩
      · exact Or.inl hstopped
      · rcases h.follows k' position hk with hstopped | hfailed | ⟨hreached, hpend⟩
        · exact Or.inl hstopped
        · exact Or.inr (Or.inl (List.mem_append_left _ hfailed))
        · refine Or.inr (Or.inr ⟨fun hfree => ?_, fun u hu pending hp => ?_⟩)
          · refine hreached fun ⟨u, hu, hb⟩ => hfree ⟨u, List.mem_append_left _ hu, hb⟩
          · rcases List.mem_append.mp hu with hmem | hnew
            · exact hpend u hmem pending hp
            · obtain rfl := List.mem_singleton.mp hnew
              cases hp
      · rcases hr : result.2 with _ | pending
        · rcases hproceeds.finished hr with hstopped | hreached
          · exact Or.inl hstopped
          · refine Or.inr (Or.inr ⟨fun _ => hreached, fun u hu pending hp => ?_⟩)
            rcases List.mem_append.mp hu with hmem | hnew
            · rw [hidle hfree u hmem] at hp
              cases hp
            · obtain rfl := List.mem_singleton.mp hnew
              cases hp
        · refine Or.inr (Or.inr ⟨fun hfree' => ?_, fun u hu pending' hp => ?_⟩)
          · exact absurd ⟨_, List.mem_append_right _ List.mem_cons_self, rfl⟩ hfree'
          · rcases List.mem_append.mp hu with hmem | hnew
            · rw [hidle hfree u hmem] at hp
              cases hp
            · obtain rfl := List.mem_singleton.mp hnew
              obtain rfl := Option.some.inj hp
              exact ⟨rfl, (hproceeds.pending pending hr).2⟩
    · have heq := honly (.connected k') nofun (h.connected k' (Or.inr ⟨position', hsame⟩))
      exact absurd (LoopPhase.connected.inj heq) hne

theorem Sound.message (h : Sound cfg s) {k count : Nat}
    (hcareful : s.stopRequested = false → count ≠ 0 → s.Free ∧ .message k .failed ∉ s.tasks)
    (hnext : s.message cfg k count = some s') : Sound cfg s' := by
  unfold Subscriber.message at hnext
  split at hnext
  · rename_i position hk
    split at hnext
    · rename_i hwithin
      obtain rfl := Option.some.inj hnext
      exact h.receive hk hwithin hcareful
    · cases hnext
  · cases hnext

/-! ## Runs -/

theorem Sound.new (stored : Option String) : Sound cfg (new stored) where
  kept := by
    refine ⟨nofun, nofun, nofun, nofun, List.pairwise_singleton _ _, fun n hn => ?_⟩
    exact Nat.le_of_eq (List.mem_singleton.mp hn)
  fresh _ := ⟨rfl, rfl⟩
  busy := Tasks.Exclusive.nil
  live := Tasks.Exclusive.nil
  polling _ := ⟨rfl, fun _ _ => List.not_mem_nil⟩
  cursor := by
    rintro (⟨u, hu, -⟩ | ⟨u, hu, -⟩) <;> exact absurd hu List.not_mem_nil
  pending u hu := absurd hu List.not_mem_nil
  fetching _ hmem := absurd hmem List.not_mem_nil
  connected := by
    rintro k (hk | ⟨_, hk⟩) <;> cases hk
  follows k _ hk := by cases hk

theorem Sound.next (h : Sound cfg s) {a : SubscriberAction} (hcareful : s.Careful cfg a)
    (hnext : s.next cfg a = some s') : Sound cfg s' := by
  cases a with
  | start fromCursor => exact Option.some.inj hnext ▸ h.start hcareful
  | started ok => exact h.started hcareful hnext
  | stop => exact Option.some.inj hnext ▸ h.flags false true s.starting fun _ => rfl
  | wake i => exact h.wake hnext
  | fetched i reply => exact h.fetched hnext
  | opened k => exact h.opened hcareful hnext
  | errored k => exact h.errored hnext
  | closed k => exact h.closed hnext
  | message k count => exact h.message hcareful hnext
  | emitted i ok => exact h.emitted hnext
  | saved i ok => exact h.save hnext

end Facts

theorem delivers_in_order (cfg : SubscriberConfig) (stored : Option String)
    {actions : List SubscriberAction} {s : Subscriber}
    (h : Run (Run.Guarded (StepOf (next cfg)) (Careful cfg)) (new stored) actions s) :
    s.Delivers cfg :=
  (h.invariant (fun _ _ _ hx hl => hx.next hl.2 hl.1) (Sound.new stored)).kept.delivers

/-! ## Two events -/

def followEvent (token : String) : SorobanEvent where
  topics := [.symbol "follow"]
  data := [("follower", .string "alice"), ("followee", .string "bob")]
  pagingToken := some token

def twoFollows : SubscriberConfig where
  history := ⟨[followEvent "1", followEvent "2"], by decide⟩
  handlers := ["follow"]
  webSocket := true

/-- The second handler fails, and the socket is opened again. -/
def reconnected : List SubscriberAction :=
  [.start none, .started true, .opened 0, .message 0 1, .emitted 1 true, .saved 1 true,
    .message 0 1, .emitted 2 false, .closed 0, .wake 0, .opened 1, .message 1 1, .emitted 3 true,
    .saved 3 true]

theorem delivers_in_order_reconnected : ∃ s,
    Run (StepOf (next twoFollows)) (new none) reconnected s ∧ s.handled = [0, 1] ∧
    s.stored = some "2" ∧ s.Delivers twoFollows := by
  have hsome : (walk (restrict (next twoFollows) (Careful twoFollows)) reconnected (new none)).map
      (fun s => (s.handled, s.stored)) = some ([0, 1], some "2") := by
    decide
  obtain ⟨s, hs, heq⟩ := Option.map_eq_some_iff.mp hsome
  obtain ⟨hhandled, hstored⟩ := Prod.mk.inj heq
  have hg := guarded_of_walk hs
  exact ⟨s, hg.of_guarded, hhandled, hstored, delivers_in_order _ _ hg⟩

/-- The second message comes while the first handler is at work. -/
def overtaken : List SubscriberAction :=
  [.start none, .started true, .opened 0, .message 0 1, .message 0 1, .emitted 2 true,
    .saved 2 true]

/-- The cursor is stored past the first event, which is handled after the second, and then moves
back. -/
theorem cursor_overtakes_handler :
    (∃ s, Run (StepOf (next twoFollows)) (new none) overtaken s ∧
      s.stored = some "2" ∧ ¬ s.HandledUpTo twoFollows (twoFollows.history.position s.stored)) ∧
    ∃ s, Run (StepOf (next twoFollows)) (new none)
        (overtaken ++ [.emitted 1 true, .saved 1 true]) s ∧
      s.handled = [1, 0] ∧ s.positions twoFollows = [0, 2, 1] ∧ ¬ s.Delivers twoFollows := by
  constructor
  · have hsome : (walk (next twoFollows) overtaken (new none)).map (fun s => decide
        (s.stored = some "2" ∧
          ¬ s.HandledUpTo twoFollows (twoFollows.history.position s.stored))) = some true := by
      decide
    obtain ⟨s, hs, hall⟩ := Option.map_eq_some_iff.mp hsome
    obtain ⟨hstored, hunhandled⟩ := of_decide_eq_true hall
    exact ⟨s, run_of_walk hs, hstored, hunhandled⟩
  · have hsome : (walk (next twoFollows) (overtaken ++ [.emitted 1 true, .saved 1 true])
        (new none)).map (fun s => (s.handled, s.positions twoFollows)) =
          some ([1, 0], [0, 2, 1]) := by
      decide
    obtain ⟨s, hs, heq⟩ := Option.map_eq_some_iff.mp hsome
    obtain ⟨hhandled, hpositions⟩ := Prod.mk.inj heq
    refine ⟨s, run_of_walk hs, hhandled, hpositions, fun hdelivers => ?_⟩
    have hforwards := hdelivers.forwards
    rw [hpositions] at hforwards
    exact absurd hforwards (by decide)

end Subscriber
end Sdk
end Linkora
