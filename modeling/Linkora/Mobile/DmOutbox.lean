import Linkora.Mobile.DmThread

/-!
# The outbox

A merged message takes away the outbox rows of its conversation that carry its content hash.
That is the row of the send the message stems from, and no other, only if the hash tells
the sends apart.
-/

namespace Linkora
namespace Mobile

/-- How many messages the thread shows of a sender. -/
def World.shown (w : World) (c s : String) : Nat :=
  w.rows.countP fun row => row.conversationId == c && row.sender == s

/-- How many the sender composed here. -/
def World.composed (w : World) (c s : String) : Nat :=
  w.sends.countP fun send => send.conversationId == c && send.sender == s

/-- How many came from elsewhere. -/
def World.received (w : World) (c s : String) : Nat :=
  w.merged.countP fun x => (x.1 == c && x.2.sender == s) && x.2.origin.isNone

/-- The send has a row in the outbox. -/
def World.Waiting (w : World) (n : Nat) : Prop :=
  ∃ row ∈ w.rows, row.isOutbox = true ∧ row.origin = some n

/-- The relay's message of the send has been merged. -/
def World.Confirmed (w : World) (n : Nat) : Prop := ∃ x ∈ w.merged, x.2.origin = some n

/-- Of the rows in the outbox, the merged message matches the one of its own send. -/
def World.Matched (w : World) : Label → Prop
  | .merge k => ∀ c all m todo newest, w.calls k = some ⟨c, .merging all (m :: todo) newest⟩ →
    ∀ row ∈ w.rows, row.isOutbox = true →
      (row.conversationId = c ∧ row.ciphertextHash = ciphertextHashOf m ↔ row.origin = m.origin)
  | _ => True

/-! ## The merge of one message -/

theorem mergeDelta_eq_of_new {c : String} {rows : List DmMessage} {msg : IncomingDmMessage}
    (hnew : ∀ row ∈ rows, row.id ≠ msg.id) :
    mergeDelta c rows msg =
      (rows.filter fun row => !row.matches c msg) ++ [.ofIncoming c msg] := by
  have hid : (DmMessage.ofIncoming c msg).id ∉ rows.map DmMessage.id := by
    intro hmem
    obtain ⟨row, hrow, heq⟩ := List.mem_map.mp hmem
    exact hnew row hrow heq
  rw [mergeDelta, Rows.upsert, if_neg hid, List.filter_append]
  congr 1
  simp [DmMessage.matches, DmMessage.ofIncoming_synced]

theorem mergeDelta_eq_of_old {c : String} {rows : List DmMessage} {msg : IncomingDmMessage}
    (hmem : DmMessage.ofIncoming c msg ∈ rows)
    (hold : ∀ row ∈ rows, row.id = msg.id → row = .ofIncoming c msg) :
    mergeDelta c rows msg = rows.filter fun row => !row.matches c msg := by
  have hid : (DmMessage.ofIncoming c msg).id ∈ rows.map DmMessage.id := List.mem_map_of_mem hmem
  rw [mergeDelta, Rows.upsert, if_pos hid, Rows.updateAt_eq_self]
  intro row hrow hrowid
  rw [hold row hrow hrowid, DmMessage.confirm_ofIncoming]

namespace World

/-- A send has one row in the outbox and one message at the relay at most, and they are of
its conversation and its sender. -/
structure Sent (w : World) : Prop where
  relay : ∀ x ∈ w.relay, ∀ n, x.2.origin = some n → ∃ send, w.sends[n]? = some send ∧
    send.conversationId = x.1 ∧ send.sender = x.2.sender
  relay_unique : ∀ x ∈ w.relay, ∀ y ∈ w.relay, ∀ n, x.2.origin = some n →
    y.2.origin = some n → x = y
  row_unique : ∀ row ∈ w.rows, ∀ row' ∈ w.rows, row.isOutbox = true → row'.isOutbox = true →
    row.origin = row'.origin → row = row'

/-- What a rejected send changes in the rows. -/
theorem Sound.reject_eq_map {w : World} (h : w.Sound) {send : Send} (hsend : send ∈ w.sends)
    (e : String) : ∃ f : DmMessage → DmMessage,
      markDmMessageFailed w.rows send.localId e = w.rows.map f ∧
      ∀ row ∈ w.rows, (f row).isOutbox = row.isOutbox ∧ (f row).origin = row.origin ∧
        (f row).conversationId = row.conversationId ∧ (f row).sender = row.sender := by
  refine ⟨_, rfl, fun row hrow => ?_⟩
  by_cases hid : row.id = send.localId
  · rw [if_pos hid]
    exact ⟨(h.isOutbox_of_localId hsend hrow hid).symm, rfl, rfl, rfl⟩
  · rw [if_neg hid]
    exact ⟨rfl, rfl, rfl, rfl⟩

namespace Sent

variable {w w' : World} {l : Label}

theorem empty : World.empty.Sent := ⟨List.forall_mem_nil _, List.forall_mem_nil _, List.forall_mem_nil _⟩

theorem lt_length (h : w.Sent) {x : String × DmSourceMessage} (hx : x ∈ w.relay) {n : Nat}
    (hn : x.2.origin = some n) : n < w.sends.length := by
  obtain ⟨send, hsend, _⟩ := h.relay x hx n hn
  exact (List.getElem?_eq_some_iff.mp hsend).1

theorem step (h : w.Sent) (hsound : w.Sound) (hl : Step w l w') : w'.Sent := by
  cases hl with
  | @arrive c m hacc =>
    obtain ⟨_, _, horigin⟩ := hacc
    refine ⟨fun x hx n hn => ?_, fun x hx y hy n hxn hyn => ?_, h.row_unique⟩
    · rcases List.mem_append.mp hx with hx | hx
      · exact h.relay x hx n hn
      · obtain rfl := List.mem_singleton.mp hx
        obtain ⟨send, hsend, hc, hs, _⟩ := (horigin n hn).1
        exact ⟨send, hsend, hc, hs⟩
    · rcases List.mem_append.mp hx with hx | hx <;> rcases List.mem_append.mp hy with hy | hy
      · exact h.relay_unique x hx y hy n hxn hyn
      · obtain rfl := List.mem_singleton.mp hy
        exact absurd hxn ((horigin n hyn).2 x hx)
      · obtain rfl := List.mem_singleton.mp hx
        exact absurd hyn ((horigin n hxn).2 y hy)
      · rw [List.mem_singleton.mp hx, List.mem_singleton.mp hy]
  | ask hk => exact ⟨h.relay, h.relay_unique, h.row_unique⟩
  | fetch hk hall =>
    split
    · exact ⟨h.relay, h.relay_unique, h.row_unique⟩
    · exact ⟨h.relay, h.relay_unique, h.row_unique⟩
  | fetchFails hk => exact ⟨h.relay, h.relay_unique, h.row_unique⟩
  | @merge k c all todo m newest hk =>
    obtain ⟨hrelay, htodo⟩ := hsound.fetched k c all (m :: todo) newest hk
    have hm : (c, m) ∈ w.relay := hrelay m (htodo List.mem_cons_self)
    -- A row of the outbox was there before.
    have hrow_of : ∀ row ∈ mergeDelta c w.rows (toIncoming m), row.isOutbox = true →
        row ∈ w.rows := by
      intro row hrow hout
      rcases of_mem_mergeDelta (fun row hrow hid => (hsound.row_of_id hm hrow hid).2) hrow
        with rfl | ⟨hrow, _⟩
      · cases hout
      · exact hrow
    refine ⟨h.relay, h.relay_unique, fun row hrow row' hrow' hout hout' horigin => ?_⟩
    exact h.row_unique row (hrow_of row hrow hout) row' (hrow_of row' hrow' hout') hout hout'
      horigin
  | advance hk => exact ⟨h.relay, h.relay_unique, h.row_unique⟩
  | @compose c sender recipient content now random rows hadd =>
    obtain ⟨_, rfl⟩ := Rows.insert_eq_some.mp hadd
    -- The new row is of a send that no row is of.
    have hlt : ∀ row ∈ w.rows, row.isOutbox = true → row.origin ≠ some w.sends.length := by
      intro row hrow hout horigin
      obtain ⟨_, n, send, hn, hsend, _⟩ := hsound.outbox row hrow hout
      have := (List.getElem?_eq_some_iff.mp hsend).1
      rw [horigin] at hn
      obtain rfl := Option.some.inj hn
      omega
    refine ⟨fun x hx n hn => ?_, h.relay_unique, fun row hrow row' hrow' hout hout' horigin => ?_⟩
    · obtain ⟨send, hsend, hof⟩ := h.relay x hx n hn
      refine ⟨send, ?_, hof⟩
      show (w.sends ++ _)[n]? = some send
      rw [List.getElem?_append_left (h.lt_length hx hn)]
      exact hsend
    · rcases List.mem_append.mp hrow with hrow | hrow <;>
        rcases List.mem_append.mp hrow' with hrow' | hrow'
      · exact h.row_unique row hrow row' hrow' hout hout' horigin
      · rw [List.mem_singleton.mp hrow'] at horigin
        exact absurd horigin (hlt row hrow hout)
      · rw [List.mem_singleton.mp hrow] at horigin
        exact absurd horigin.symm (hlt row' hrow' hout')
      · rw [List.mem_singleton.mp hrow, List.mem_singleton.mp hrow']
  | @reject n send e hn =>
    obtain ⟨f, hf, hsame⟩ := hsound.reject_eq_map (List.mem_of_getElem? hn) e
    refine ⟨h.relay, h.relay_unique, ?_⟩
    show ∀ row ∈ markDmMessageFailed w.rows send.localId e, _
    rw [hf]
    intro row hrow row' hrow' hout hout' horigin
    obtain ⟨y, hy, rfl⟩ := List.mem_map.mp hrow
    obtain ⟨y', hy', rfl⟩ := List.mem_map.mp hrow'
    obtain ⟨ho, hor, _⟩ := hsame y hy
    obtain ⟨ho', hor', _⟩ := hsame y' hy'
    rw [h.row_unique y hy y' hy' (ho ▸ hout) (ho' ▸ hout') (hor ▸ hor' ▸ horigin)]

end Sent

theorem Sound.outbox_lt {w : World} (h : w.Sound) {row : DmMessage} (hrow : row ∈ w.rows)
    (hout : row.isOutbox = true) : ∃ n < w.sends.length, row.origin = some n := by
  obtain ⟨_, n, send, hn, hsend, _⟩ := h.outbox row hrow hout
  exact ⟨n, (List.getElem?_eq_some_iff.mp hsend).1, hn⟩

theorem Sound.matches_iff {w : World} (h : w.Sound) {c : String} {m : DmSourceMessage}
    (hm : (c, m) ∈ w.relay) {row : DmMessage} (hrow : row ∈ w.rows) :
    row.matches c (toIncoming m) = true ↔ row.isOutbox = true ∧ row.conversationId = c ∧
      row.ciphertextHash = ciphertextHashOf m := by
  have hid : row.isOutbox = true → row.id ≠ m.id := by
    intro hout heq
    have hlocal := (h.outbox row hrow hout).1
    rw [heq, h.relayIds_notLocal _ hm] at hlocal
    cases hlocal
  simp only [DmMessage.matches, toIncoming, Bool.and_eq_true, beq_iff_eq, bne_iff_ne]
  constructor
  · rintro ⟨⟨⟨hc, hout⟩, hhash⟩, _⟩
    exact ⟨hout, hc, hhash⟩
  · rintro ⟨hout, hc, hhash⟩
    exact ⟨⟨⟨hc, hout⟩, hhash⟩, hid hout⟩

/-- A send waits in the outbox until its message is merged, and no longer. -/
structure Settled (w : World) : Prop where
  waiting : ∀ n < w.sends.length, w.Waiting n ↔ ¬w.Confirmed n
  shown : ∀ c s, w.shown c s = w.composed c s + w.received c s

namespace Settled

variable {w w' : World} {l : Label}

theorem empty : World.empty.Settled := ⟨nofun, fun _ _ => rfl⟩

/-- Only the rows, the sends and the log of merged messages are read. -/
theorem congr (h : w.Settled) (hrows : w'.rows = w.rows) (hsends : w'.sends = w.sends)
    (hmerged : w'.merged = w.merged) : w'.Settled := by
  obtain ⟨hwaiting, hshown⟩ := h
  unfold Waiting Confirmed at hwaiting
  unfold World.shown composed received at hshown
  rw [← hrows, ← hsends, ← hmerged] at hwaiting hshown
  exact ⟨hwaiting, hshown⟩

section Merge

variable {c : String} {m : DmSourceMessage}

/-- A message that has been merged takes nothing away. -/
theorem rows_mergeOne_of_merged (hsound : w.Sound) (hm : (c, m) ∈ w.merged)
    (hnone : ∀ row ∈ w.rows, row.matches c (toIncoming m) = false) :
    (w.mergeOne c m).rows = w.rows := by
  have hrelay := hsound.merged_relay _ hm
  show mergeDelta c w.rows (toIncoming m) = w.rows
  rw [mergeDelta_eq_of_old (hsound.merged_stored _ hm)
    fun row hrow hid => (hsound.row_of_id hrelay hrow hid).2]
  apply List.filter_eq_self.mpr
  intro row hrow
  rw [hnone row hrow]
  rfl

theorem rows_mergeOne_of_new (hsound : w.Sound) (hrelay : (c, m) ∈ w.relay)
    (hm : (c, m) ∉ w.merged) : (w.mergeOne c m).rows =
      (w.rows.filter fun row => !row.matches c (toIncoming m)) ++ [.ofIncoming c (toIncoming m)] :=
  mergeDelta_eq_of_new fun _ hrow hid => hm (hsound.row_of_id hrelay hrow hid).1

theorem merged_mergeOne_of_new (hm : (c, m) ∉ w.merged) :
    (w.mergeOne c m).merged = w.merged ++ [(c, m)] :=
  if_neg hm

theorem confirmed_mergeOne (n : Nat) :
    (w.mergeOne c m).Confirmed n ↔ w.Confirmed n ∨ m.origin = some n := by
  constructor
  · rintro ⟨x, hx, hn⟩
    rcases mem_mergeOne_merged.mp hx with hx | rfl
    · exact Or.inl ⟨x, hx, hn⟩
    · exact Or.inr hn
  · rintro (⟨x, hx, hn⟩ | hn)
    · exact ⟨x, mem_mergeOne_merged.mpr (Or.inl hx), hn⟩
    · exact ⟨(c, m), mem_mergeOne_merged.mpr (Or.inr rfl), hn⟩

theorem waiting_mergeOne (hsound : w.Sound) (hrelay : (c, m) ∈ w.relay) (n : Nat) :
    (w.mergeOne c m).Waiting n ↔ ∃ row ∈ w.rows, row.isOutbox = true ∧ row.origin = some n ∧
      row.matches c (toIncoming m) = false := by
  constructor
  · rintro ⟨row, hrow, hout, hn⟩
    rcases of_mem_mergeDelta (fun row hrow hid => (hsound.row_of_id hrelay hrow hid).2) hrow
      with rfl | ⟨hrow, hmatch⟩
    · cases hout
    · exact ⟨row, hrow, hout, hn, hmatch⟩
  · rintro ⟨row, hrow, hout, hn, hmatch⟩
    refine ⟨row, mem_mergeDelta_of_ne hrow (fun hid => ?_) hmatch, hout, hn⟩
    rw [(hsound.row_of_id hrelay hrow hid).2] at hout
    cases hout

theorem received_mergeOne_of_new (hm : (c, m) ∉ w.merged) (d s : String) :
    (w.mergeOne c m).received d s = w.received d s +
      if ((c == d && m.sender == s) && m.origin.isNone) = true then 1 else 0 := by
  unfold received
  rw [merged_mergeOne_of_new hm, List.countP_append, List.countP_singleton]

theorem mergeOne (h : w.Settled) (hsound : w.Sound) (hsent : w.Sent) (hrelay : (c, m) ∈ w.relay)
    (hmatch : ∀ row ∈ w.rows, row.matches c (toIncoming m) = true ↔
      row.isOutbox = true ∧ row.origin = m.origin) : (w.mergeOne c m).Settled where
  waiting := by
    intro n hn
    rw [confirmed_mergeOne, waiting_mergeOne hsound hrelay]
    constructor
    · rintro ⟨row, hrow, hout, horigin, hnot⟩ hor
      rcases hor with hconf | hmn
      · exact (h.waiting n hn).mp ⟨row, hrow, hout, horigin⟩ hconf
      · rw [(hmatch row hrow).mpr ⟨hout, horigin.trans hmn.symm⟩] at hnot
        cases hnot
    · intro hor
      obtain ⟨row, hrow, hout, horigin⟩ := (h.waiting n hn).mpr fun hconf => hor (Or.inl hconf)
      refine ⟨row, hrow, hout, horigin, Bool.eq_false_of_not_eq_true fun hyes => hor (Or.inr ?_)⟩
      exact (((hmatch row hrow).mp hyes).2.symm.trans horigin)
  shown := by
    intro d s
    show (w.mergeOne c m).shown d s = w.composed d s + (w.mergeOne c m).received d s
    by_cases hm : (c, m) ∈ w.merged
    · -- Its send, if it has one, is not waiting any more.
      have hnone : ∀ row ∈ w.rows, row.matches c (toIncoming m) = false := by
        intro row hrow
        apply Bool.eq_false_of_not_eq_true
        intro hyes
        obtain ⟨hout, horigin⟩ := (hmatch row hrow).mp hyes
        obtain ⟨n, hn, hrown⟩ := hsound.outbox_lt hrow hout
        exact (h.waiting n hn).mp ⟨row, hrow, hout, hrown⟩
          ⟨(c, m), hm, horigin.symm.trans hrown⟩
      have hmerged : (w.mergeOne c m).merged = w.merged := if_pos hm
      unfold World.shown received
      rw [rows_mergeOne_of_merged hsound hm hnone, hmerged]
      exact h.shown d s
    · have hrows := rows_mergeOne_of_new hsound hrelay hm
      have hold := h.shown d s
      rw [received_mergeOne_of_new hm]
      unfold World.shown at hold ⊢
      rw [hrows, List.countP_append, List.countP_singleton]
      show _ + (if (c == d && m.sender == s) = true then 1 else 0) = _
      cases horigin : m.origin with
      | none =>
        -- Nothing is taken away, for every row of the outbox is of a send.
        have hself : (w.rows.filter fun row => !row.matches c (toIncoming m)) = w.rows := by
          apply List.filter_eq_self.mpr
          intro row hrow
          rw [Bool.not_eq_true']
          apply Bool.eq_false_of_not_eq_true
          intro hyes
          obtain ⟨hout, hrown⟩ := (hmatch row hrow).mp hyes
          obtain ⟨n, _, hn⟩ := hsound.outbox_lt hrow hout
          rw [hn, horigin] at hrown
          cases hrown
        rw [hself, hold, Option.isNone_none, Bool.and_true]
        omega
      | some n =>
        obtain ⟨send, hsend, hc, hs⟩ := hsent.relay _ hrelay n horigin
        have hn : n < w.sends.length := (List.getElem?_eq_some_iff.mp hsend).1
        have hnot : ¬w.Confirmed n := by
          rintro ⟨x, hx, hxn⟩
          rw [hsent.relay_unique x (hsound.merged_relay x hx) _ hrelay n hxn horigin] at hx
          exact hm hx
        obtain ⟨row, hrow, hout, hrown⟩ := (h.waiting n hn).mpr hnot
        -- The row is of the same conversation and the same sender.
        obtain ⟨_, n', send', hn', hsend', hc', hs'⟩ := hsound.outbox row hrow hout
        obtain rfl : n = n' := Option.some.inj (hrown.symm.trans hn')
        obtain rfl : send = send' := Option.some.inj (hsend.symm.trans hsend')
        have hone : ∀ y ∈ w.rows, y.matches c (toIncoming m) = true ↔ y = row := by
          intro y hy
          rw [hmatch y hy, horigin]
          constructor
          · rintro ⟨hyout, hyn⟩
            exact hsent.row_unique y hy row hrow hyout hout (hyn.trans hrown.symm)
          · rintro rfl
            exact ⟨hout, hrown⟩
        have hcount := hsound.keyed.countP_filter_not hrow hone
          fun row => row.conversationId == d && row.sender == s
        have hsame : (row.conversationId == d && row.sender == s) = (c == d && m.sender == s) := by
          rw [← hc', ← hs', hc, hs]
        rw [hsame] at hcount
        simp only [Option.isNone_some, Bool.and_false, Bool.false_eq_true, if_false]
        omega

end Merge

theorem compose (h : w.Settled) (hsound : w.Sound) (hsent : w.Sent)
    {c sender recipient content hash : String} {now random : Nat} {rows : List DmMessage}
    (hadd : addOutboxDmMessage w.rows c sender recipient content hash now random
      w.sends.length = some rows) :
    World.Settled { w with
      rows
      sends := w.sends ++ [⟨localId now random, c, sender, recipient, content⟩] } := by
  obtain ⟨_, rfl⟩ := Rows.insert_eq_some.mp hadd
  constructor
  · intro n hn
    have hn' : n < w.sends.length ∨ n = w.sends.length := by
      have hlen : n < (w.sends ++ [_]).length := hn
      rw [List.length_append, List.length_singleton] at hlen
      omega
    show (∃ row ∈ w.rows ++ [_], _) ↔ ¬w.Confirmed n
    rcases hn' with hn' | rfl
    · rw [← h.waiting n hn']
      constructor
      · rintro ⟨row, hrow, hout, horigin⟩
        rcases List.mem_append.mp hrow with hrow | hrow
        · exact ⟨row, hrow, hout, horigin⟩
        · rw [List.mem_singleton.mp hrow] at horigin
          have := Option.some.inj horigin
          omega
      · rintro ⟨row, hrow, hof⟩
        exact ⟨row, List.mem_append_left _ hrow, hof⟩
    · constructor
      · rintro _ ⟨x, hx, hn⟩
        have := hsent.lt_length (hsound.merged_relay x hx) hn
        omega
      · intro _
        exact ⟨_, List.mem_append_right _ (List.mem_singleton_self _), rfl, rfl⟩
  · intro d s
    have hold : w.rows.countP _ = w.composed d s + w.received d s := h.shown d s
    have hone : ∀ b : Bool, w.composed d s + w.received d s + (if b = true then 1 else 0) =
        w.composed d s + (if b = true then 1 else 0) + w.received d s := fun b => by omega
    show (w.rows ++ [_]).countP _ = (w.sends ++ [_]).countP _ + w.received d s
    rw [List.countP_append, List.countP_append, List.countP_singleton, List.countP_singleton, hold]
    exact hone (c == d && sender == s)

theorem reject (h : w.Settled) (hsound : w.Sound) {send : Send} (hsend : send ∈ w.sends)
    (e : String) : World.Settled { w with rows := markDmMessageFailed w.rows send.localId e } := by
  obtain ⟨f, hf, hsame⟩ := hsound.reject_eq_map hsend e
  rw [hf]
  constructor
  · intro n hn
    show (∃ row ∈ w.rows.map f, _) ↔ ¬w.Confirmed n
    rw [← h.waiting n hn]
    constructor
    · rintro ⟨_, himage, hout, horigin⟩
      obtain ⟨row, hrow, rfl⟩ := List.mem_map.mp himage
      obtain ⟨ho, hor, _⟩ := hsame row hrow
      exact ⟨row, hrow, ho ▸ hout, hor ▸ horigin⟩
    · rintro ⟨row, hrow, hout, horigin⟩
      obtain ⟨ho, hor, _⟩ := hsame row hrow
      exact ⟨f row, List.mem_map_of_mem hrow, ho.trans hout, hor.trans horigin⟩
  · intro d s
    show (w.rows.map f).countP _ = w.composed d s + w.received d s
    rw [← h.shown d s, List.countP_map]
    apply List.countP_congr
    intro row hrow
    obtain ⟨_, _, hc, hs⟩ := hsame row hrow
    show ((f row).conversationId == d && (f row).sender == s) = true ↔ _
    rw [hc, hs]

theorem step (h : w.Settled) (hsound : w.Sound) (hsent : w.Sent) (hmatched : w.Matched l)
    (hl : Step w l w') : w'.Settled := by
  cases hl with
  | arrive hacc => exact h.congr rfl rfl rfl
  | ask hk => exact h.congr rfl rfl rfl
  | fetch hk hall =>
    split
    · exact h.congr rfl rfl rfl
    · exact h.congr rfl rfl rfl
  | fetchFails hk => exact h.congr rfl rfl rfl
  | @merge k c all todo m newest hk =>
    obtain ⟨hrelay, htodo⟩ := hsound.fetched k c all (m :: todo) newest hk
    have hm : (c, m) ∈ w.relay := hrelay m (htodo List.mem_cons_self)
    have hmatch : ∀ row ∈ w.rows, row.matches c (toIncoming m) = true ↔
        row.isOutbox = true ∧ row.origin = m.origin := by
      intro row hrow
      rw [hsound.matches_iff hm hrow]
      exact and_congr_right fun hout => hmatched c all m todo newest hk row hrow hout
    exact (h.mergeOne hsound hsent hm hmatch).congr rfl rfl rfl
  | advance hk => exact h.congr rfl rfl rfl
  | compose hadd => exact h.compose hsound hsent hadd
  | reject hn => exact h.reject hsound (List.mem_of_getElem? hn) _

end Settled

theorem Settled.of_run {w : World} {ls : List Label}
    (h : Run (Run.Guarded Step Matched) World.empty ls w) : w.Settled := by
  have hinv : w.Sound ∧ w.Sent ∧ w.Settled :=
    h.invariant (I := fun w => w.Sound ∧ w.Sent ∧ w.Settled)
      (fun _ _ _ hi hl => ⟨hi.1.step hl.1, hi.2.1.step hi.1 hl.1,
        hi.2.2.step hi.1 hi.2.1 hl.2 hl.1⟩)
      ⟨Sound.empty, Sent.empty, Settled.empty⟩
  exact hinv.2.2

theorem Sent.of_run {w : World} {ls : List Label} (h : Run Step World.empty ls w) : w.Sent := by
  have hinv : w.Sound ∧ w.Sent :=
    h.invariant (I := fun w => w.Sound ∧ w.Sent)
      (fun _ _ _ hi hl => ⟨hi.1.step hl, hi.2.step hi.1 hl⟩) ⟨Sound.empty, Sent.empty⟩
  exact hinv.2

end World

end Mobile
end Linkora
