import Linkora.Mobile.DmThread

/-!
# Syncing a thread

A call of `reconcileDmThread` takes what lies beyond the cursor it has read, and leaves the
cursor at the newest message it has merged.  So a message is passed over for good when it
reaches the relay with a timestamp that the cursor has passed, or is about to pass: messages
of one second may come in one by one, and messages from another device may come late.
-/

namespace Linkora
namespace Mobile

/-- A message is stored, and only once. -/
def World.Stored (w : World) (x : String × DmSourceMessage) : Prop :=
  DmMessage.ofIncoming x.1 (toIncoming x.2) ∈ w.rows ∧
    w.rows.countP (fun row => row.id = x.2.id) = 1

/-- A message arrives with a timestamp beyond the cursor of its conversation, and beyond all
that a call under way has fetched. -/
def World.OnTime (w : World) : Label → Prop
  | .arrive c m =>
    getDmSyncCursor w.cursors c < m.timestamp ∧
      ∀ k all todo newest, w.calls k = some ⟨c, .merging all todo newest⟩ →
        ∀ y ∈ all, y.timestamp < m.timestamp
  | _ => True

namespace World

theorem Sound.stored {w : World} (h : w.Sound) {x : String × DmSourceMessage}
    (hx : x ∈ w.merged) : w.Stored x :=
  ⟨h.merged_stored x hx, h.keyed.countP_key (h.merged_stored x hx)⟩

theorem withCall_eq_some {w : World} {k j : Nat} {o : Option Call} {call : Call}
    (h : (w.withCall k o).calls j = some call) : o = some call ∨ w.calls j = some call := by
  have h' : Function.update w.calls k o j = some call := h
  by_cases hjk : j = k
  · subst hjk
    rw [Function.update_self] at h'
    exact Or.inl h'
  · rw [Function.update_of_ne hjk] at h'
    exact Or.inr h'

/-! ## The cursor -/

theorem le_setDmSyncCursor {cursors : Cursors} {c : String} {t : Int} (ht : 0 ≤ t) (d : String) :
    getDmSyncCursor cursors d ≤ getDmSyncCursor (setDmSyncCursor cursors c t) d := by
  unfold getDmSyncCursor setDmSyncCursor
  by_cases hdc : d = c
  · subst hdc
    rw [Function.update_self]
    cases cursors d with
    | none => exact ht
    | some old => exact le_max_left old t
  · rw [Function.update_of_ne hdc]

theorem setDmSyncCursor_eq_some {cursors : Cursors} {c d : String} {t t' : Int}
    (h : setDmSyncCursor cursors c t d = some t') : (d = c ∧ t ≤ t') ∨ cursors d = some t' := by
  unfold setDmSyncCursor at h
  by_cases hdc : d = c
  · subst hdc
    rw [Function.update_self] at h
    refine Or.inl ⟨rfl, ?_⟩
    cases hold : cursors d with
    | none =>
      rw [hold] at h
      exact (Option.some.inj h).le
    | some old =>
      rw [hold] at h
      have hmax : max old t = t' := Option.some.inj h
      exact hmax ▸ le_max_right old t
  · rw [Function.update_of_ne hdc] at h
    exact Or.inr h

/-- What the new cursor has passed, the old one had passed or is as old as `t`. -/
theorem le_of_le_setDmSyncCursor {cursors : Cursors} {c d : String} {s t : Int}
    (h : s ≤ getDmSyncCursor (setDmSyncCursor cursors c t) d) :
    s ≤ getDmSyncCursor cursors d ∨ (d = c ∧ s ≤ t) := by
  unfold getDmSyncCursor setDmSyncCursor at h
  by_cases hdc : d = c
  · subst hdc
    rw [Function.update_self] at h
    cases hold : cursors d with
    | none =>
      rw [hold] at h
      exact Or.inr ⟨rfl, h⟩
    | some old =>
      rw [hold] at h
      unfold getDmSyncCursor
      rw [hold]
      exact (le_max_iff.mp h).imp id fun h => ⟨rfl, h⟩
  · rw [Function.update_of_ne hdc] at h
    exact Or.inl h

theorem newer_eq_some {newest : Option Int} {msg : IncomingDmMessage} {t : Int}
    (h : newer newest msg = some t) : t = msg.timestamp ∨ newest = some t := by
  cases newest with
  | none => exact Or.inl (Option.some.inj h).symm
  | some t₀ =>
    have h' : (if t₀ < msg.timestamp then some msg.timestamp else some t₀) = some t := h
    split at h'
    · exact Or.inl (Option.some.inj h').symm
    · exact Or.inr h'

/-- The timestamps that a call can leave behind are positive. -/
structure Clocked (w : World) : Prop where
  cursors : ∀ c t, w.cursors c = some t → 0 ≤ t
  asked : ∀ k c cursor, w.calls k = some ⟨c, .asked cursor⟩ →
    0 ≤ cursor ∧ cursor ≤ getDmSyncCursor w.cursors c
  todo : ∀ k c all todo newest, w.calls k = some ⟨c, .merging all todo newest⟩ →
    ∀ y ∈ todo, y ∈ all ∧ 0 < y.timestamp
  newest : ∀ k c all todo t, w.calls k = some ⟨c, .merging all todo (some t)⟩ →
    0 < t ∧ ∃ y ∈ all, y.timestamp = t

namespace Clocked

variable {w w' : World} {l : Label}

theorem empty : World.empty.Clocked := ⟨nofun, nofun, nofun, nofun⟩

theorem cursor_nonneg (h : w.Clocked) (c : String) : 0 ≤ getDmSyncCursor w.cursors c := by
  unfold getDmSyncCursor
  cases hc : w.cursors c with
  | none => exact le_rfl
  | some t => exact h.cursors c t hc

/-- The table and the logs are not read. -/
theorem congr (h : w.Clocked) (hcursors : w'.cursors = w.cursors) (hcalls : w'.calls = w.calls) :
    w'.Clocked := by
  obtain ⟨h1, h2, h3, h4⟩ := h
  rw [← hcursors] at h1 h2
  rw [← hcalls] at h2 h3 h4
  exact ⟨h1, h2, h3, h4⟩

theorem withCall (h : w.Clocked) {k : Nat} {o : Option Call}
    (hasked : ∀ c cursor, o = some ⟨c, .asked cursor⟩ →
      0 ≤ cursor ∧ cursor ≤ getDmSyncCursor w.cursors c)
    (htodo : ∀ c all todo newest, o = some ⟨c, .merging all todo newest⟩ →
      ∀ y ∈ todo, y ∈ all ∧ 0 < y.timestamp)
    (hnewest : ∀ c all todo t, o = some ⟨c, .merging all todo (some t)⟩ →
      0 < t ∧ ∃ y ∈ all, y.timestamp = t) : (w.withCall k o).Clocked where
  cursors := h.cursors
  asked := fun j c cursor hj => (withCall_eq_some hj).elim (hasked c cursor) (h.asked j c cursor)
  todo := fun j c all todo newest hj =>
    (withCall_eq_some hj).elim (htodo c all todo newest) (h.todo j c all todo newest)
  newest := fun j c all todo t hj =>
    (withCall_eq_some hj).elim (hnewest c all todo t) (h.newest j c all todo t)

theorem step (h : w.Clocked) (hl : Step w l w') : w'.Clocked := by
  cases hl with
  | arrive hacc => exact h.congr rfl rfl
  | @ask k c hk =>
    refine h.withCall (fun d cursor heq => ?_) nofun nofun
    cases heq
    exact ⟨h.cursor_nonneg c, le_rfl⟩
  | @fetch k c cursor all hk hall =>
    have hcursor := (h.asked k c cursor hk).1
    split
    · exact (h.withCall (o := none) nofun nofun nofun).congr rfl rfl
    · refine h.withCall nofun (fun d all' todo newest heq => ?_) nofun
      cases heq
      intro y hy
      obtain ⟨hy, hlt⟩ := List.mem_filter.mp hy
      have hlt' : cursor < y.timestamp := by simpa using hlt
      exact ⟨hy, by omega⟩
  | fetchFails hk => exact h.withCall nofun nofun nofun
  | @merge k c all todo m newest hk =>
    have htodo := h.todo k c all (m :: todo) newest hk
    refine Clocked.congr (w := w.withCall k _) (h.withCall (fun d cursor heq => ?_)
      (fun d all' todo' newest' heq => ?_) fun d all' todo' t heq => ?_) rfl rfl
    · cases heq
    · cases heq
      exact fun y hy => htodo y (List.mem_cons_of_mem _ hy)
    · obtain ⟨rfl, rfl, rfl, ht⟩ : c = d ∧ all = all' ∧ todo = todo' ∧
          newer newest (toIncoming m) = some t := by simpa using heq
      rcases newer_eq_some ht with rfl | rfl
      · obtain ⟨hm, hpos⟩ := htodo m List.mem_cons_self
        exact ⟨hpos, m, hm, rfl⟩
      · exact h.newest k c all (m :: todo) t hk
  | @advance k c all newest hk =>
    have hclear : (w.withCall k none).Clocked := h.withCall nofun nofun nofun
    cases newest with
    | none => exact hclear.congr rfl rfl
    | some t =>
      have ht := (h.newest k c all [] t hk).1
      constructor
      case cursors =>
        intro d t' hd
        rcases setDmSyncCursor_eq_some hd with ⟨_, hle⟩ | hold
        · omega
        · exact h.cursors d t' hold
      case asked =>
        intro j d cursor hj
        obtain ⟨hpos, hle⟩ := hclear.asked j d cursor hj
        exact ⟨hpos, hle.trans (le_setDmSyncCursor ht.le d)⟩
      case todo => exact hclear.todo
      case newest => exact hclear.newest
  | compose hadd => exact h.congr rfl rfl
  | reject hn => exact h.congr rfl rfl

theorem of_run {ls : List Label} (h : Run Step World.empty ls w) : w.Clocked :=
  h.invariant (fun _ _ _ hi hl => hi.step hl) empty

theorem cursor_le (h : w.Clocked) (hl : Step w l w') (d : String) :
    getDmSyncCursor w.cursors d ≤ getDmSyncCursor w'.cursors d := by
  cases hl with
  | @fetch k c cursor all hk hall =>
    split
    · exact le_rfl
    · exact le_rfl
  | @advance k c all newest hk =>
    cases newest with
    | none => exact le_rfl
    | some t => exact le_setDmSyncCursor (h.newest k c all [] t hk).1.le d
  | arrive | ask | fetchFails | merge | compose | reject => exact le_rfl

end Clocked

/-! ## Messages on time -/

/-- What the cursors have passed and what the calls have fetched is merged, or about to be. -/
structure Caught (w : World) : Prop where
  passed : ∀ x ∈ w.relay, x.2.timestamp ≤ getDmSyncCursor w.cursors x.1 → x ∈ w.merged
  fetched : ∀ k c all todo newest, w.calls k = some ⟨c, .merging all todo newest⟩ →
    ∀ m ∈ all, m ∈ todo ∨ (c, m) ∈ w.merged
  later : ∀ k c all todo newest, w.calls k = some ⟨c, .merging all todo newest⟩ →
    ∀ m, (c, m) ∈ w.relay → m ∈ all ∨ ∀ y ∈ all, y.timestamp < m.timestamp
  returned : ∀ x ∈ w.returned, x ∈ w.merged

namespace Caught

variable {w w' : World} {l : Label}

theorem empty : World.empty.Caught := ⟨List.forall_mem_nil _, nofun, nofun, List.forall_mem_nil _⟩

theorem withCall (h : w.Caught) {k : Nat} {o : Option Call}
    (hfetched : ∀ c all todo newest, o = some ⟨c, .merging all todo newest⟩ →
      ∀ m ∈ all, m ∈ todo ∨ (c, m) ∈ w.merged)
    (hlater : ∀ c all todo newest, o = some ⟨c, .merging all todo newest⟩ →
      ∀ m, (c, m) ∈ w.relay → m ∈ all ∨ ∀ y ∈ all, y.timestamp < m.timestamp) :
    (w.withCall k o).Caught where
  passed := h.passed
  fetched := fun j c all todo newest hj =>
    (withCall_eq_some hj).elim (hfetched c all todo newest) (h.fetched j c all todo newest)
  later := fun j c all todo newest hj =>
    (withCall_eq_some hj).elim (hlater c all todo newest) (h.later j c all todo newest)
  returned := h.returned

theorem finish (h : w.Caught) (k : Nat) {c : String} {all : List DmSourceMessage}
    (hall : ∀ m ∈ all, (c, m) ∈ w.merged) : (w.finish k c all).Caught := by
  have hclear : (w.withCall k none).Caught := h.withCall nofun nofun
  refine ⟨hclear.passed, hclear.fetched, hclear.later, fun x hx => ?_⟩
  rcases List.mem_append.mp hx with hx | hx
  · exact h.returned x hx
  · obtain ⟨m, hm, rfl⟩ := List.mem_map.mp hx
    exact hall m hm

/-- The rows and the sends are not read. -/
theorem congr (h : w.Caught) (rows : List DmMessage) (sends : List Send) :
    World.Caught { w with rows, sends } := ⟨h.passed, h.fetched, h.later, h.returned⟩

theorem arrive (h : w.Caught) {c : String} {m : DmSourceMessage} (hon : w.OnTime (.arrive c m)) :
    World.Caught { w with relay := w.relay ++ [(c, m)] } where
  passed := by
    intro x hx hle
    rcases List.mem_append.mp hx with hx | hx
    · exact h.passed x hx hle
    · obtain rfl := List.mem_singleton.mp hx
      exact absurd hle (not_le.mpr hon.1)
  fetched := h.fetched
  later := by
    intro k d all todo newest hk y hy
    rcases List.mem_append.mp hy with hy | hy
    · exact h.later k d all todo newest hk y hy
    · obtain ⟨rfl, rfl⟩ : d = c ∧ y = m := by simpa using hy
      exact Or.inr (hon.2 k all todo newest hk)
  returned := h.returned

theorem step (h : w.Caught) (hclock : w.Clocked) (hon : w.OnTime l) (hl : Step w l w') :
    w'.Caught := by
  cases hl with
  | arrive hacc => exact h.arrive hon
  | ask hk => exact h.withCall nofun nofun
  | @fetch k c cursor all hk hall =>
    have hcursor := (hclock.asked k c cursor hk).2
    -- What is not beyond the cursor that was read is not beyond the one there is.
    have hdone : ∀ m ∈ all, m ∈ all.filter (cursor < ·.timestamp) ∨ (c, m) ∈ w.merged := by
      intro m hm
      by_cases hlt : cursor < m.timestamp
      · exact Or.inl (List.mem_filter.mpr ⟨hm, by simpa using hlt⟩)
      · refine Or.inr (h.passed (c, m) (mem_messagesOf.mp (hall.mem_iff.mp hm)) ?_)
        show m.timestamp ≤ getDmSyncCursor w.cursors c
        omega
    split
    · rename_i hnil
      refine h.finish k fun m hm => (hdone m hm).resolve_left ?_
      rw [hnil]
      exact List.not_mem_nil
    · refine h.withCall (fun d all' todo newest heq => ?_) fun d all' todo newest heq m hm => ?_
      · cases heq
        exact hdone
      · obtain ⟨rfl, rfl, _⟩ : c = d ∧ all = all' ∧ _ := by simpa using heq
        exact Or.inl (hall.mem_iff.mpr (mem_messagesOf.mpr hm))
  | fetchFails hk => exact h.withCall nofun nofun
  | @merge k c all todo m newest hk =>
    constructor
    case passed => exact fun x hx hle => mem_mergeOne_merged.mpr (Or.inl (h.passed x hx hle))
    case fetched =>
      intro j d all' todo' newest' hj y hy
      rcases withCall_eq_some hj with heq | hj
      · obtain ⟨rfl, rfl, rfl, _⟩ : c = d ∧ all = all' ∧ todo = todo' ∧ _ := by simpa using heq
        rcases h.fetched k c all (m :: todo) newest hk y hy with hy | hy
        · rcases List.mem_cons.mp hy with rfl | hy
          · exact Or.inr (mem_mergeOne_merged.mpr (Or.inr rfl))
          · exact Or.inl hy
        · exact Or.inr (mem_mergeOne_merged.mpr (Or.inl hy))
      · exact (h.fetched j d all' todo' newest' hj y hy).imp id fun hy =>
          mem_mergeOne_merged.mpr (Or.inl hy)
    case later =>
      intro j d all' todo' newest' hj
      rcases withCall_eq_some hj with heq | hj
      · obtain ⟨rfl, rfl, _⟩ : c = d ∧ all = all' ∧ _ := by simpa using heq
        exact h.later k c all (m :: todo) newest hk
      · exact h.later j d all' todo' newest' hj
    case returned => exact fun x hx => mem_mergeOne_merged.mpr (Or.inl (h.returned x hx))
  | @advance k c all newest hk =>
    have hall : ∀ m ∈ all, (c, m) ∈ w.merged := fun m hm =>
      (h.fetched k c all [] newest hk m hm).resolve_left List.not_mem_nil
    have hdone := h.finish k hall
    cases newest with
    | none => exact hdone
    | some t =>
      obtain ⟨_, y, hy, rfl⟩ := hclock.newest k c all [] t hk
      refine ⟨fun x hx hle => ?_, hdone.fetched, hdone.later, hdone.returned⟩
      rcases le_of_le_setDmSyncCursor hle with hold | ⟨hxc, hnew⟩
      · exact h.passed x hx hold
      · -- The newest of the merged messages is not older, so this one was fetched as well.
        obtain ⟨d, m⟩ := x
        obtain rfl : d = c := hxc
        rcases h.later k d all [] _ hk m hx with hm | hlater
        · exact hall m hm
        · exact absurd (hlater y hy) (not_lt.mpr hnew)
  | compose hadd => exact h.congr _ _
  | reject hn => exact h.congr _ _

end Caught

/-- The cursors that have been read have passed the message, and it has not been merged. -/
structure Missed (c : String) (m : DmSourceMessage) (w : World) : Prop where
  relay : (c, m) ∈ w.relay
  passed : m.timestamp ≤ getDmSyncCursor w.cursors c
  asked : ∀ k cursor, w.calls k = some ⟨c, .asked cursor⟩ → m.timestamp ≤ cursor
  todo : ∀ k all todo newest, w.calls k = some ⟨c, .merging all todo newest⟩ → m ∉ todo
  merged : (c, m) ∉ w.merged

namespace Missed

variable {c : String} {m : DmSourceMessage} {w w' : World} {l : Label}

theorem withCall (h : Missed c m w) {k : Nat} {o : Option Call}
    (hasked : ∀ cursor, o = some ⟨c, .asked cursor⟩ → m.timestamp ≤ cursor)
    (htodo : ∀ all todo newest, o = some ⟨c, .merging all todo newest⟩ → m ∉ todo) :
    Missed c m (w.withCall k o) where
  relay := h.relay
  passed := h.passed
  asked := fun j cursor hj => (withCall_eq_some hj).elim (hasked cursor) (h.asked j cursor)
  todo := fun j all todo newest hj =>
    (withCall_eq_some hj).elim (htodo all todo newest) (h.todo j all todo newest)
  merged := h.merged

theorem step (h : Missed c m w) (hclock : w.Clocked) (hl : Step w l w') : Missed c m w' := by
  have hle := hclock.cursor_le hl c
  cases hl with
  | arrive hacc =>
    exact ⟨List.mem_append_left _ h.relay, h.passed, h.asked, h.todo, h.merged⟩
  | @ask k d hk =>
    refine h.withCall (fun cursor heq => ?_) nofun
    cases heq
    exact h.passed
  | @fetch k d cursor all hk hall =>
    split
    · obtain ⟨h1, h2, h3, h4, h5⟩ := h.withCall (k := k) (o := none) nofun nofun
      exact ⟨h1, h2, h3, h4, h5⟩
    · refine h.withCall nofun fun all' todo newest heq hm => ?_
      cases heq
      have hlt : cursor < m.timestamp := by simpa using (List.mem_filter.mp hm).2
      have := h.asked k cursor hk
      omega
  | fetchFails hk => exact h.withCall nofun nofun
  | @merge k d all todo y newest hk =>
    -- What is merged is another message.
    have hne : (c, m) ≠ (d, y) := by
      intro heq
      cases heq
      exact h.todo k all (m :: todo) newest hk List.mem_cons_self
    have hcalls : Missed c m (w.withCall k (some ⟨d, .merging all todo
        (newer newest (toIncoming y))⟩)) := by
      refine h.withCall (fun cursor heq => ?_) fun all' todo' newest' heq hm => ?_
      · cases heq
      · obtain ⟨rfl, rfl, rfl, _⟩ : d = c ∧ all = all' ∧ todo = todo' ∧ _ := by simpa using heq
        exact h.todo k all (y :: todo) newest hk (List.mem_cons_of_mem _ hm)
    refine ⟨hcalls.relay, hcalls.passed, hcalls.asked, hcalls.todo, ?_⟩
    exact fun hin => (mem_mergeOne_merged.mp hin).elim h.merged hne
  | @advance k d all newest hk =>
    obtain ⟨h1, h2, h3, h4, h5⟩ := h.withCall (k := k) (o := none) nofun nofun
    exact ⟨h1, h2.trans hle, h3, h4, h5⟩
  | compose hadd => exact ⟨h.relay, h.passed, h.asked, h.todo, h.merged⟩
  | reject hn => exact ⟨h.relay, h.passed, h.asked, h.todo, h.merged⟩

end Missed

end World

/-- Sent in the same second. -/
def again : DmSourceMessage := ⟨"m2", "bob", "alice", "are you there?", none, 1700000000, none⟩

/-- Sent a second later. -/
def later : DmSourceMessage := ⟨"m3", "bob", "alice", "are you there?", none, 1700000001, none⟩

end Mobile
end Linkora
