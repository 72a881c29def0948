import Linkora.Lib.Replay
import Linkora.Indexer.Tables

/-!
# Projecting events again

Which lists of events can be projected a second time without effect.  Each group of tables is
looked at on its own; a row of a table depends on the events that name its key.
-/

namespace Linkora
namespace Indexer

open Linkora.Replay

/-- What an event is about, where a creation event comes first. -/
inductive Subject where
  | post (id : Nat)
  | pool (id : String)
deriving DecidableEq, Repr

namespace EventBody

def subject : EventBody → Option Subject
  | .tip _ postId _ _ => some (.post postId)
  | .like _ postId => some (.post postId)
  | .postCreated id _ _ => some (.post id)
  | .postDeleted postId => some (.post postId)
  | .postRemovedByModeration postId => some (.post postId)
  | .poolCreated poolId _ _ _ => some (.pool poolId)
  | .poolDeposit poolId _ => some (.pool poolId)
  | .poolWithdraw poolId _ => some (.pool poolId)
  | .poolAdminAdded poolId _ => some (.pool poolId)
  | .poolAdminRemoved poolId _ => some (.pool poolId)
  | _ => none

def isCreation : EventBody → Bool
  | .postCreated _ _ _ => true
  | .poolCreated _ _ _ _ => true
  | _ => false

/-- Events that add to a balance. -/
def isTransfer : EventBody → Bool
  | .poolDeposit _ _ => true
  | .poolWithdraw _ _ => true
  | _ => false

/-- Events that delete a post. -/
def isDeletion : EventBody → Bool
  | .postDeleted _ => true
  | .postRemovedByModeration _ => true
  | _ => false

/-- Events that add to a counter of a post. -/
def isReaction : EventBody → Bool
  | .tip _ _ _ _ => true
  | .like _ _ => true
  | _ => false

/-- Events whose handler writes through the pool of connections. -/
def viaPool : EventBody → Bool
  | .follow _ _ => false
  | .unfollow _ _ => false
  | .tip _ _ _ _ => false
  | .like _ _ => false
  | .block _ _ => false
  | .unblock _ _ => false
  | .dmKeyPublished _ _ => false
  | .other => false
  | _ => true

end EventBody

/-- A post or a pool is created before any other event about it, and once. -/
def ChainOrder (t : List IngestEvent) : Prop :=
  t.Pairwise fun x e => e.body.isCreation = true → x.body.subject ≠ e.body.subject

instance : DecidablePred ChainOrder := fun t => inferInstanceAs (Decidable (t.Pairwise _))

namespace ChainOrder

theorem left {t u : List IngestEvent} (h : ChainOrder (t ++ u)) : ChainOrder t :=
  (List.pairwise_append.mp h).1

theorem right {t u : List IngestEvent} (h : ChainOrder (t ++ u)) : ChainOrder u :=
  (List.pairwise_append.mp h).2.1

theorem ne_before {before after : List IngestEvent} {e : IngestEvent}
    (h : ChainOrder (before ++ e :: after)) (he : e.body.isCreation = true) :
    ∀ x ∈ before, x.body.subject ≠ e.body.subject :=
  fun x hx => (List.pairwise_append.mp h).2.2 x hx e List.mem_cons_self he

/-- What follows an event in chain order does not create its post or pool. -/
theorem not_created_after {before after : List IngestEvent} {e : IngestEvent}
    (h : ChainOrder (before ++ e :: after)) : ∀ x ∈ after,
      ¬ (x.body.isCreation = true ∧ x.body.subject = e.body.subject) :=
  fun x hx hx' => (List.pairwise_cons.mp h.right).1 x hx hx'.1 hx'.2.symm

end ChainOrder

/-- No post is deleted after it was tipped or liked in the same list. -/
def NoLateDeletion (u : List IngestEvent) : Prop :=
  u.Pairwise fun e x => e.body.isReaction = true → x.body.isDeletion = true →
    x.body.subject ≠ e.body.subject

instance : DecidablePred NoLateDeletion := fun u => inferInstanceAs (Decidable (u.Pairwise _))

/-! ## Rows of follows, profiles, blocks and keys -/

namespace Db

/-- The follow of a pair after an event. -/
def followCell (k : String × String) (c : Option Nat) (e : IngestEvent) : Option Nat :=
  match e.body with
  | .follow follower followee =>
    if k = (follower, followee) then some (c.getD e.ledgerSequence) else c
  | .unfollow follower followee => if k = (follower, followee) then none else c
  | _ => c

theorem lookup_writeFollows (t : Table (String × String) Nat) (k : String × String)
    (e : IngestEvent) : (writeFollows t e).lookup k = followCell k (t.lookup k) e := by
  obtain ⟨ledger, tx, body⟩ := e
  cases body with
  | follow follower followee =>
    show (Table.insertNew t (follower, followee) ledger).lookup k =
      if k = (follower, followee) then some ((t.lookup k).getD ledger) else t.lookup k
    rw [Table.lookup_insertNew]
    by_cases h : k = (follower, followee)
    · rw [if_pos h, if_pos h, h]
    · rw [if_neg h, if_neg h]
  | unfollow follower followee => exact Table.lookup_erase t _ k
  | _ => rfl

theorem settling_followCell (k : String × String) (e : IngestEvent) :
    Settling (followCell k · e) := by
  obtain ⟨ledger, tx, body⟩ := e
  cases body with
  | follow follower followee => exact .fill (k = (follower, followee)) ledger
  | unfollow follower followee => exact .write (k = (follower, followee)) none
  | _ => exact Or.inl fun c => rfl

theorem follows_idem (t : List IngestEvent) (s : Table (String × String) Nat) :
    t.foldl writeFollows (t.foldl writeFollows s) = t.foldl writeFollows s :=
  Table.foldl_idem_of_cells lookup_writeFollows
    (fun k c => foldl_idem_of_settling (settling_followCell k) t c) s

/-- The profile of an address after an event. -/
def profileCell (k : String) (c : Option ProfileRow) (e : IngestEvent) : Option ProfileRow :=
  match e.body with
  | .profileSet user username creatorToken =>
    if k = user then some { username, creatorToken, updatedLedger := e.ledgerSequence } else c
  | .profileDeleted user => if k = user then none else c
  | _ => c

theorem lookup_writeProfiles (t : Table String ProfileRow) (k : String) (e : IngestEvent) :
    (writeProfiles t e).lookup k = profileCell k (t.lookup k) e := by
  obtain ⟨ledger, tx, body⟩ := e
  cases body with
  | profileSet user username creatorToken => exact Table.lookup_insert t _ k _
  | profileDeleted user => exact Table.lookup_erase t _ k
  | _ => rfl

theorem settling_profileCell (k : String) (e : IngestEvent) : Settling (profileCell k · e) := by
  obtain ⟨ledger, tx, body⟩ := e
  cases body with
  | profileSet user username creatorToken => exact .write (k = user) _
  | profileDeleted user => exact .write (k = user) none
  | _ => exact Or.inl fun c => rfl

theorem profiles_idem (t : List IngestEvent) (s : Table String ProfileRow) :
    t.foldl writeProfiles (t.foldl writeProfiles s) = t.foldl writeProfiles s :=
  Table.foldl_idem_of_cells lookup_writeProfiles
    (fun k c => foldl_idem_of_settling (settling_profileCell k) t c) s

/-- The block of a pair after an event. -/
def blockCell (k : String × String) (c : Option Unit) (e : IngestEvent) : Option Unit :=
  match e.body with
  | .block blocker blocked => if k = (blocker, blocked) then some (c.getD ()) else c
  | .unblock blocker blocked => if k = (blocker, blocked) then none else c
  | _ => c

theorem lookup_writeBlocks (t : Table (String × String) Unit) (k : String × String)
    (e : IngestEvent) : (writeBlocks t e).lookup k = blockCell k (t.lookup k) e := by
  obtain ⟨ledger, tx, body⟩ := e
  cases body with
  | block blocker blocked =>
    show (Table.insertNew t (blocker, blocked) ()).lookup k =
      if k = (blocker, blocked) then some ((t.lookup k).getD ()) else t.lookup k
    rw [Table.lookup_insertNew]
  | unblock blocker blocked => exact Table.lookup_erase t _ k
  | _ => rfl

theorem settling_blockCell (k : String × String) (e : IngestEvent) :
    Settling (blockCell k · e) := by
  obtain ⟨ledger, tx, body⟩ := e
  cases body with
  | block blocker blocked => exact .fill (k = (blocker, blocked)) ()
  | unblock blocker blocked => exact .write (k = (blocker, blocked)) none
  | _ => exact Or.inl fun c => rfl

theorem blocks_idem (t : List IngestEvent) (s : Table (String × String) Unit) :
    t.foldl writeBlocks (t.foldl writeBlocks s) = t.foldl writeBlocks s :=
  Table.foldl_idem_of_cells lookup_writeBlocks
    (fun k c => foldl_idem_of_settling (settling_blockCell k) t c) s

/-- The key of a user after an event. -/
def dmKeyCell (k : String) (c : Option String) (e : IngestEvent) : Option String :=
  match e.body with
  | .dmKeyPublished user publicKey => if k = user then some publicKey else c
  | _ => c

theorem lookup_writeDmKeys (t : Table String String) (k : String) (e : IngestEvent) :
    (writeDmKeys t e).lookup k = dmKeyCell k (t.lookup k) e := by
  obtain ⟨ledger, tx, body⟩ := e
  cases body with
  | dmKeyPublished user publicKey => exact Table.lookup_insert t _ k _
  | _ => rfl

theorem settling_dmKeyCell (k : String) (e : IngestEvent) : Settling (dmKeyCell k · e) := by
  obtain ⟨ledger, tx, body⟩ := e
  cases body with
  | dmKeyPublished user publicKey => exact .write (k = user) _
  | _ => exact Or.inl fun c => rfl

theorem dmKeys_idem (t : List IngestEvent) (s : Table String String) :
    t.foldl writeDmKeys (t.foldl writeDmKeys s) = t.foldl writeDmKeys s :=
  Table.foldl_idem_of_cells lookup_writeDmKeys
    (fun k c => foldl_idem_of_settling (settling_dmKeyCell k) t c) s

end Db

/-! ## Admins of a pool -/

/-- Sorted without repetition: what `jsonb_agg(DISTINCT …)` makes of a list. -/
def canonical (l : List String) : List String := l.dedup.insertionSort (· ≤ ·)

theorem mem_canonical {l : List String} {x : String} : x ∈ canonical l ↔ x ∈ l := by
  rw [canonical, List.mem_insertionSort, List.mem_dedup]

theorem pairwise_canonical (l : List String) : (canonical l).Pairwise (· ≤ ·) :=
  List.pairwise_insertionSort _ _

theorem nodup_canonical (l : List String) : (canonical l).Nodup :=
  (List.perm_insertionSort _ _).nodup_iff.mpr (List.nodup_dedup l)

/-- Two sorted lists without repetition are equal when they have the same members. -/
theorem eq_of_sorted {l l' : List String} (hs : l.Pairwise (· ≤ ·)) (hs' : l'.Pairwise (· ≤ ·))
    (hn : l.Nodup) (hn' : l'.Nodup) (h : ∀ x, x ∈ l ↔ x ∈ l') : l = l' :=
  List.Perm.eq_of_pairwise' hs hs' ((List.perm_ext_iff_of_nodup hn hn').mpr h)

theorem canonical_congr {l l' : List String} (h : ∀ x, x ∈ l ↔ x ∈ l') :
    canonical l = canonical l' := by
  apply eq_of_sorted (pairwise_canonical l) (pairwise_canonical l') (nodup_canonical l)
    (nodup_canonical l')
  intro x
  rw [mem_canonical, mem_canonical]
  exact h x

theorem filter_canonical (p : String → Bool) (l : List String) :
    (canonical l).filter p = canonical (l.filter p) := by
  apply eq_of_sorted ((pairwise_canonical l).filter p) (pairwise_canonical _)
    ((nodup_canonical l).filter p) (nodup_canonical _)
  intro x
  rw [List.mem_filter, mem_canonical, mem_canonical, List.mem_filter]

/-- A change of the list of admins. -/
inductive AdminOp where
  | add (admin : String)
  | remove (admin : String)

def AdminOp.apply : AdminOp → List String → List String
  | .add admin, admins => addAdmin admins admin
  | .remove admin, admins => removeAdmin admins admin

namespace AdminOp

theorem apply_apply (a : AdminOp) (l : List String) : a.apply (a.apply l) = a.apply l := by
  cases a with
  | add x =>
    show canonical (canonical (l ++ [x]) ++ [x]) = canonical (l ++ [x])
    apply canonical_congr
    intro z
    simp only [List.mem_append, mem_canonical, List.mem_singleton]
    tauto
  | remove x =>
    show (l.filter (· ≠ x)).filter (· ≠ x) = l.filter (· ≠ x)
    rw [List.filter_filter]
    simp only [Bool.and_self]

/-- An earlier change is absorbed by the same change made later. -/
theorem apply_absorb (a b : AdminOp) (l : List String) :
    a.apply (b.apply (a.apply l)) = a.apply (b.apply l) := by
  cases a with
  | add x =>
    cases b with
    | add y =>
      show canonical (canonical (canonical (l ++ [x]) ++ [y]) ++ [x]) =
        canonical (canonical (l ++ [y]) ++ [x])
      apply canonical_congr
      intro z
      simp only [List.mem_append, mem_canonical, List.mem_singleton]
      tauto
    | remove y =>
      show canonical ((canonical (l ++ [x])).filter (· ≠ y) ++ [x]) =
        canonical (l.filter (· ≠ y) ++ [x])
      apply canonical_congr
      intro z
      simp only [List.mem_append, List.mem_filter, mem_canonical, List.mem_singleton]
      tauto
  | remove x =>
    cases b with
    | add y =>
      show (canonical (l.filter (· ≠ x) ++ [y])).filter (· ≠ x) =
        (canonical (l ++ [y])).filter (· ≠ x)
      rw [filter_canonical, filter_canonical]
      apply canonical_congr
      intro z
      simp only [List.mem_append, List.mem_filter, List.mem_singleton]
      tauto
    | remove y =>
      show ((l.filter (· ≠ x)).filter (· ≠ y)).filter (· ≠ x) =
        (l.filter (· ≠ y)).filter (· ≠ x)
      simp only [List.filter_filter]
      apply List.filter_congr
      intro z _
      cases decide (z ≠ x) <;> cases decide (z ≠ y) <;> rfl

end AdminOp

namespace Db

/-- A change of the admins of a pool, in a ledger. -/
def adminRow (op : AdminOp) (ledger : Nat) (row : PoolRow) : PoolRow :=
  { row with admins := op.apply row.admins, updatedLedger := ledger }

/-- A transfer into a pool, or out of it. -/
def transferRow (amount : Int) (ledger : Nat) (row : PoolRow) : PoolRow :=
  { row with balance := row.balance + amount, updatedLedger := ledger }

/-- The pool of an id after an event. -/
def poolCell (k : String) (c : Option PoolRow) (e : IngestEvent) : Option PoolRow :=
  match e.body with
  | .poolCreated poolId token admins threshold =>
    if k = poolId then
      some (c.getD ⟨token, 0, admins, threshold, e.ledgerSequence, e.ledgerSequence⟩)
    else
      c
  | .poolDeposit poolId amount =>
    if k = poolId then c.map (transferRow amount e.ledgerSequence) else c
  | .poolWithdraw poolId amount =>
    if k = poolId then c.map (transferRow (-amount) e.ledgerSequence) else c
  | .poolAdminAdded poolId newAdmin =>
    if k = poolId then c.map (adminRow (.add newAdmin) e.ledgerSequence) else c
  | .poolAdminRemoved poolId removedAdmin =>
    if k = poolId then c.map (adminRow (.remove removedAdmin) e.ledgerSequence) else c
  | _ => c

theorem lookup_writePools (t : Table String PoolRow) (k : String) (e : IngestEvent) :
    (writePools t e).lookup k = poolCell k (t.lookup k) e := by
  obtain ⟨ledger, tx, body⟩ := e
  have hupdate : ∀ (poolId : String) (f : PoolRow → PoolRow),
      (Table.update t poolId f).lookup k =
        if k = poolId then (t.lookup k).map f else t.lookup k := by
    intro poolId f
    rw [Table.lookup_update]
    by_cases h : k = poolId
    · rw [if_pos h, if_pos h, h]
    · rw [if_neg h, if_neg h]
  cases body with
  | poolCreated poolId token admins threshold =>
    show (Table.insertNew t poolId _).lookup k = if k = poolId then some _ else t.lookup k
    rw [Table.lookup_insertNew]
    by_cases h : k = poolId
    · rw [if_pos h, if_pos h, h]
    · rw [if_neg h, if_neg h]
  | poolDeposit poolId amount => exact hupdate poolId _
  | poolWithdraw poolId amount => exact hupdate poolId _
  | poolAdminAdded poolId newAdmin => exact hupdate poolId _
  | poolAdminRemoved poolId removedAdmin => exact hupdate poolId _
  | _ => rfl

/-- What an event that transfers nothing does to a pool. -/
theorem poolCell_cases (k : String) {e : IngestEvent} (h : e.body.isTransfer = false) :
    (∀ c, poolCell k c e = c) ∨
    (∃ op ledger, ∀ c, poolCell k c e = c.map (adminRow op ledger)) ∨
    (e.body.isCreation = true ∧ e.body.subject = some (.pool k)) := by
  obtain ⟨ledger, tx, body⟩ := e
  cases body with
  | poolCreated poolId token admins threshold =>
    by_cases hk : k = poolId
    · exact Or.inr (Or.inr ⟨rfl, by rw [hk]; rfl⟩)
    · exact Or.inl fun c => if_neg hk
  | poolDeposit poolId amount => exact Bool.noConfusion h
  | poolWithdraw poolId amount => exact Bool.noConfusion h
  | poolAdminAdded poolId newAdmin =>
    by_cases hk : k = poolId
    · exact Or.inr (Or.inl ⟨.add newAdmin, ledger, fun c => if_pos hk⟩)
    · exact Or.inl fun c => if_neg hk
  | poolAdminRemoved poolId removedAdmin =>
    by_cases hk : k = poolId
    · exact Or.inr (Or.inl ⟨.remove removedAdmin, ledger, fun c => if_pos hk⟩)
    · exact Or.inl fun c => if_neg hk
  | _ => exact Or.inl fun c => rfl

/-- An event about something else leaves the pool. -/
theorem poolCell_of_subject (k : String) {e : IngestEvent}
    (h : e.body.subject ≠ some (.pool k)) (c : Option PoolRow) : poolCell k c e = c := by
  obtain ⟨ledger, tx, body⟩ := e
  have hne : ∀ poolId, some (Subject.pool poolId) ≠ some (Subject.pool k) → k ≠ poolId := by
    intro poolId hs hk
    exact hs (by rw [hk])
  cases body with
  | poolCreated poolId token admins threshold => exact if_neg (hne poolId h)
  | poolDeposit poolId amount => exact if_neg (hne poolId h)
  | poolWithdraw poolId amount => exact if_neg (hne poolId h)
  | poolAdminAdded poolId newAdmin => exact if_neg (hne poolId h)
  | poolAdminRemoved poolId removedAdmin => exact if_neg (hne poolId h)
  | _ => rfl

/-- An event that changes no balance and does not create the pool. -/
def Administers (k : String) (e : IngestEvent) : Prop :=
  e.body.isTransfer = false ∧ ¬ (e.body.isCreation = true ∧ e.body.subject = some (.pool k))

theorem administers_cases {k : String} {e : IngestEvent} (h : Administers k e) :
    (∀ c, poolCell k c e = c) ∨ ∃ op ledger, ∀ c, poolCell k c e = c.map (adminRow op ledger) := by
  rcases poolCell_cases k h.1 with hid | hop | hcreation
  · exact Or.inl hid
  · exact Or.inr hop
  · exact absurd hcreation h.2

theorem administered_idem {k : String} {t : List IngestEvent} (h : ∀ e ∈ t, Administers k e)
    (c : Option PoolRow) :
    t.foldl (poolCell k) (t.foldl (poolCell k) c) = t.foldl (poolCell k) c := by
  apply foldl_idem_of_absorb (Q := Administers k) _ _ h
  · intro c a ha
    rcases administers_cases ha with hid | ⟨op, ledger, hop⟩
    · rw [hid]
    · rw [hop, hop]
      cases c with
      | none => rfl
      | some row =>
        show some (adminRow op ledger (adminRow op ledger row)) = some (adminRow op ledger row)
        simp only [adminRow, op.apply_apply]
  · intro c a b ha hb
    rcases administers_cases ha with hid | ⟨op, ledger, hop⟩
    · simp only [hid]
    · rcases administers_cases hb with hid' | ⟨op', ledger', hop'⟩
      · rw [hid', hid', hop, hop]
        cases c with
        | none => rfl
        | some row =>
          show some (adminRow op ledger (adminRow op ledger row)) = some (adminRow op ledger row)
          simp only [adminRow, op.apply_apply]
      · rw [hop, hop', hop, hop', hop]
        cases c with
        | none => rfl
        | some row =>
          show some (adminRow op ledger (adminRow op' ledger' (adminRow op ledger row))) =
            some (adminRow op ledger (adminRow op' ledger' row))
          simp only [adminRow, op.apply_absorb op']

theorem poolCell_isSome {k : String} {c : Option PoolRow} (h : c.isSome = true)
    (e : IngestEvent) : (poolCell k c e).isSome = true := by
  obtain ⟨row, rfl⟩ := Option.isSome_iff_exists.mp h
  obtain ⟨ledger, tx, body⟩ := e
  have hite : ∀ (p : Prop) [Decidable p] (row' : PoolRow),
      (if p then some row' else some row).isSome = true := by
    intro p _ row'
    by_cases hp : p
    · rw [if_pos hp]
      rfl
    · rw [if_neg hp]
      rfl
  cases body with
  | poolCreated poolId token admins threshold => exact hite _ _
  | poolDeposit poolId amount => exact hite _ _
  | poolWithdraw poolId amount => exact hite _ _
  | poolAdminAdded poolId newAdmin => exact hite _ _
  | poolAdminRemoved poolId removedAdmin => exact hite _ _
  | _ => rfl

theorem poolCell_of_creation {k : String} {e : IngestEvent} (hc : e.body.isCreation = true)
    (hs : e.body.subject = some (.pool k)) : ∃ row, ∀ c, poolCell k c e = some (c.getD row) := by
  obtain ⟨ledger, tx, body⟩ := e
  cases body with
  | poolCreated poolId token admins threshold =>
    have hk : k = poolId := (Subject.pool.inj (Option.some.inj hs)).symm
    exact ⟨_, fun c => if_pos hk⟩
  | postCreated id author content => exact Subject.noConfusion (Option.some.inj hs)
  | _ => exact Bool.noConfusion hc

theorem poolCell_idem {t : List IngestEvent} (hchain : ChainOrder t)
    (htransfer : ∀ e ∈ t, e.body.isTransfer = false) (k : String) (c : Option PoolRow) :
    t.foldl (poolCell k) (t.foldl (poolCell k) c) = t.foldl (poolCell k) c := by
  by_cases hcreated : ∃ e ∈ t, e.body.isCreation = true ∧ e.body.subject = some (.pool k)
  · obtain ⟨e, he, hc, hs⟩ := hcreated
    obtain ⟨before, after, rfl⟩ := List.append_of_mem he
    -- The pool's own events all stand after its creation.
    have hbefore : ∀ c, before.foldl (poolCell k) c = c := by
      intro c
      apply foldl_of_fixed
      intro x hx
      exact poolCell_of_subject k (by rw [← hs]; exact hchain.ne_before hc x hx) c
    have hafter : ∀ x ∈ after, Administers k x := by
      intro x hx
      refine ⟨htransfer x (List.mem_append_right before (List.mem_cons_of_mem e hx)), ?_⟩
      rw [← hs]
      exact hchain.not_created_after x hx
    obtain ⟨row, hrow⟩ := poolCell_of_creation hc hs
    have hfold : ∀ c, (before ++ e :: after).foldl (poolCell k) c =
        after.foldl (poolCell k) (some (c.getD row)) := by
      intro c
      rw [List.foldl_append, hbefore, List.foldl_cons, hrow]
    obtain ⟨row', hrow'⟩ : ∃ row', after.foldl (poolCell k) (some (c.getD row)) = some row' :=
      Option.isSome_iff_exists.mp
        (foldl_invariant (P := fun c : Option PoolRow => c.isSome = true)
          (fun c e _ h => poolCell_isSome h e) rfl)
    rw [hfold, hfold, hrow', Option.getD_some, ← hrow', administered_idem hafter]
  · apply administered_idem
    intro e he
    exact ⟨htransfer e he, fun h => hcreated ⟨e, he, h⟩⟩

theorem pools_idem {t : List IngestEvent} (hchain : ChainOrder t)
    (htransfer : ∀ e ∈ t, e.body.isTransfer = false) (s : Table String PoolRow) :
    t.foldl writePools (t.foldl writePools s) = t.foldl writePools s :=
  Table.foldl_idem_of_cells lookup_writePools (poolCell_idem hchain htransfer) s

end Db

end Indexer
end Linkora
