import Mathlib.Logic.Function.Basic
import Linkora.Lib.Run
import Linkora.Lib.Text

/-!
# The optimistic store

The web client shows the outcome of a transaction before it is confirmed.  The store keeps one
snapshot for each key to go back to, while any number of transactions may be on their way.
-/

namespace Linkora
namespace Web

/-! ## The store -/

inductive Kind where
  | follow
  | like
  | tip
  deriving DecidableEq

structure FollowState where
  isFollowing : Bool
  followersCount : Int
  followingCount : Int
  deriving DecidableEq

structure LikeState where
  isLiked : Bool
  likeCount : Int
  deriving DecidableEq

structure TipState where
  tipTotal : Int
  deriving DecidableEq

def Kind.State : Kind → Type
  | .follow => FollowState
  | .like => LikeState
  | .tip => TipState

/-- The state map and the snapshot map of one kind; a snapshot may be of no state. -/
structure Slots (V : Type) where
  states : String → Option V
  snapshots : String → Option (Option V)

namespace Slots

variable {V : Type}

def setState (s : Slots V) (key : String) (state : V) : Slots V :=
  { s with states := Function.update s.states key (some state) }

def clearState (s : Slots V) (key : String) : Slots V :=
  ⟨Function.update s.states key none, Function.update s.snapshots key none⟩

def snapshotState (s : Slots V) (key : String) : Slots V :=
  { s with snapshots := Function.update s.snapshots key (some (s.states key)) }

/-- True if there was a snapshot; the listeners are told so then. -/
def rollbackState (s : Slots V) (key : String) : Bool × Slots V :=
  match s.snapshots key with
  | none => (false, { s with snapshots := Function.update s.snapshots key none })
  | some snapshot =>
    (true, ⟨Function.update s.states key snapshot, Function.update s.snapshots key none⟩)

def commitState (s : Slots V) (key : String) : Slots V :=
  { s with snapshots := Function.update s.snapshots key none }

/-- Delete what is stored under the keys that are gone. -/
def prune (s : Slots V) (gone : String → Bool) : Slots V where
  states key := if gone key = true then none else s.states key
  snapshots key :=
    if (s.states key).isSome = true ∧ gone key = true then none else s.snapshots key

end Slots

abbrev OptimisticStore := (kind : Kind) → Slots kind.State

namespace OptimisticStore

/-- Work on the maps of one kind. -/
def on (store : OptimisticStore) (kind : Kind) (f : Slots kind.State → Slots kind.State) :
    OptimisticStore :=
  Function.update store kind (f (store kind))

def setState (store : OptimisticStore) (kind : Kind) (key : String) (state : kind.State) :
    OptimisticStore :=
  store.on kind (·.setState key state)

def clearState (store : OptimisticStore) (kind : Kind) (key : String) : OptimisticStore :=
  store.on kind (·.clearState key)

def snapshotState (store : OptimisticStore) (kind : Kind) (key : String) : OptimisticStore :=
  store.on kind (·.snapshotState key)

def rollbackState (store : OptimisticStore) (kind : Kind) (key : String) :
    Bool × OptimisticStore :=
  (((store kind).rollbackState key).1, store.on kind fun s => (s.rollbackState key).2)

def commitState (store : OptimisticStore) (kind : Kind) (key : String) : OptimisticStore :=
  store.on kind (·.commitState key)

variable (store : OptimisticStore) (key : String)

def setFollowState (state : FollowState) : OptimisticStore := store.setState .follow key state
def getFollowState : Option FollowState := (store .follow).states key
def clearFollowState : OptimisticStore := store.clearState .follow key
def snapshotFollowState : OptimisticStore := store.snapshotState .follow key
def rollbackFollowState : Bool × OptimisticStore := store.rollbackState .follow key
def commitFollowState : OptimisticStore := store.commitState .follow key

def setLikeState (state : LikeState) : OptimisticStore := store.setState .like key state
def getLikeState : Option LikeState := (store .like).states key
def clearLikeState : OptimisticStore := store.clearState .like key
def snapshotLikeState : OptimisticStore := store.snapshotState .like key
def rollbackLikeState : Bool × OptimisticStore := store.rollbackState .like key
def commitLikeState : OptimisticStore := store.commitState .like key

def setTipState (state : TipState) : OptimisticStore := store.setState .tip key state
def getTipState : Option TipState := (store .tip).states key
def clearTipState : OptimisticStore := store.clearState .tip key
def snapshotTipState : OptimisticStore := store.snapshotState .tip key
def rollbackTipState : Bool × OptimisticStore := store.rollbackState .tip key
def commitTipState : OptimisticStore := store.commitState .tip key

end OptimisticStore

/-- The like keys of a user's posts that are not in the list; what stands before the first
colon is the user, and what stands between it and the next the post. -/
def likeGone (user : String) (liveIds : List String) (key : String) : Bool :=
  match Text.split ':' key with
  | keyUser :: postId :: _ => keyUser == user && !liveIds.contains postId
  | [keyUser] => keyUser == user
  | [] => false

/-- `reconcileFeed`, with the ids of the posts as texts. -/
def OptimisticStore.reconcileFeed (store : OptimisticStore) (user : Option String)
    (liveIds : List String) : OptimisticStore :=
  match user with
  | none => store
  | some user =>
    if user = "" then store
    else
      (store.on .like (·.prune (likeGone user liveIds))).on .tip
        (·.prune fun key => !liveIds.contains key)

/-- Key format: `${followerAddress}:${followeeAddress}`, and so for a user's post. -/
def pairKey (user other : String) : String := user ++ ":" ++ other

/-! ## Mutations -/

/-- A transaction on its way, with the state that it shows. -/
structure Mutation where
  kind : Kind
  key : String
  state : kind.State

/-- The store, the mutations in flight, with whether they have set their state yet, and for
each key the state that the last confirmed mutation has set, or else the one at the
beginning. -/
structure World where
  store : OptimisticStore
  mutations : Nat → Option (Mutation × Bool)
  truth : (kind : Kind) → String → Option kind.State

inductive Label where
  | snapshot (i : Nat) (m : Mutation)
  | set (i : Nat)
  | commit (i : Nat)
  | rollback (i : Nat)
  | reconcile (user : Option String) (liveIds : List String)

namespace World

def start (store : OptimisticStore) : World where
  store := store
  mutations _ := none
  truth kind key := (store kind).states key

/-! What the steps of a mutation make of the world. -/

def snapshotted (w : World) (i : Nat) (m : Mutation) : World :=
  { w with
    store := w.store.snapshotState m.kind m.key
    mutations := Function.update w.mutations i (some (m, false)) }

def shown (w : World) (i : Nat) (m : Mutation) : World :=
  { w with
    store := w.store.setState m.kind m.key m.state
    mutations := Function.update w.mutations i (some (m, true)) }

def confirmed (w : World) (i : Nat) (m : Mutation) : World where
  store := w.store.commitState m.kind m.key
  mutations := Function.update w.mutations i none
  truth := Function.update w.truth m.kind
    (Function.update (w.truth m.kind) m.key (some m.state))

def rolledBack (w : World) (i : Nat) (m : Mutation) : World :=
  { w with
    store := (w.store.rollbackState m.kind m.key).2
    mutations := Function.update w.mutations i none }

def reconciled (w : World) (user : Option String) (liveIds : List String) : World :=
  { w with store := w.store.reconcileFeed user liveIds }

def next (w : World) : Label → Option World
  | .snapshot i m =>
    match w.mutations i with
    | none => some (w.snapshotted i m)
    | some _ => none
  | .set i =>
    match w.mutations i with
    | some (m, false) => some (w.shown i m)
    | _ => none
  | .commit i =>
    match w.mutations i with
    | some (m, true) => some (w.confirmed i m)
    | _ => none
  | .rollback i =>
    match w.mutations i with
    | some (m, true) => some (w.rolledBack i m)
    | _ => none
  | .reconcile user liveIds => some (w.reconciled user liveIds)

/-- What a step does. -/
theorem next_cases {w w' : World} {l : Label} (h : w.next l = some w') :
    (∃ i m, l = .snapshot i m ∧ w.mutations i = none ∧ w' = w.snapshotted i m) ∨
    (∃ i m, l = .set i ∧ w.mutations i = some (m, false) ∧ w' = w.shown i m) ∨
    (∃ i m, l = .commit i ∧ w.mutations i = some (m, true) ∧ w' = w.confirmed i m) ∨
    (∃ i m, l = .rollback i ∧ w.mutations i = some (m, true) ∧ w' = w.rolledBack i m) ∨
    ∃ user liveIds, l = .reconcile user liveIds ∧ w' = w.reconciled user liveIds := by
  cases l with
  | snapshot i m =>
    simp only [next] at h
    split at h
    · rename_i hi
      exact .inl ⟨i, m, rfl, hi, (Option.some.inj h).symm⟩
    · cases h
  | set i =>
    simp only [next] at h
    split at h
    · rename_i m hi
      exact .inr (.inl ⟨i, m, rfl, hi, (Option.some.inj h).symm⟩)
    · cases h
  | commit i =>
    simp only [next] at h
    split at h
    · rename_i m hi
      exact .inr (.inr (.inl ⟨i, m, rfl, hi, (Option.some.inj h).symm⟩))
    · cases h
  | rollback i =>
    simp only [next] at h
    split at h
    · rename_i m hi
      exact .inr (.inr (.inr (.inl ⟨i, m, rfl, hi, (Option.some.inj h).symm⟩)))
    · cases h
  | reconcile user liveIds =>
    exact .inr (.inr (.inr (.inr ⟨user, liveIds, rfl, (Option.some.inj h).symm⟩)))

variable {w : World} {i : Nat} {m : Mutation}

theorem next_snapshot (h : w.mutations i = none) :
    w.next (.snapshot i m) = some (w.snapshotted i m) := by
  rw [next, h]

theorem next_set (h : w.mutations i = some (m, false)) :
    w.next (.set i) = some (w.shown i m) := by
  rw [next, h]

theorem next_commit (h : w.mutations i = some (m, true)) :
    w.next (.commit i) = some (w.confirmed i m) := by
  rw [next, h]

theorem next_rollback (h : w.mutations i = some (m, true)) :
    w.next (.rollback i) = some (w.rolledBack i m) := by
  rw [next, h]

/-- The mutation is one of the key. -/
def InFlight (w : World) (kind : Kind) (key : String) (i : Nat) : Prop :=
  ∃ v b, w.mutations i = some (⟨kind, key, v⟩, b)

def Quiet (w : World) (kind : Kind) (key : String) : Prop := ∀ i, ¬w.InFlight kind key i

def stored (w : World) (kind : Kind) (key : String) : Option kind.State :=
  (w.store kind).states key

end World

/-- The feed has the post of the key. -/
def Shows (kind : Kind) (key : String) (liveIds : List String) : Prop :=
  match kind with
  | .follow => True
  | .like => ∃ user post, ':' ∉ user.toList ∧ ':' ∉ post.toList ∧ key = pairKey user post ∧
      post ∈ liveIds
  | .tip => key ∈ liveIds

/-- Feeds have the post of the key, and no snapshot of the key is taken while a mutation of it
is in flight. -/
def Alone (kind : Kind) (key : String) (w : World) : Label → Prop
  | .snapshot _ m => m.kind = kind → m.key = key → w.Quiet kind key
  | .reconcile _ liveIds => Shows kind key liveIds
  | _ => True

/-! ## What a call changes -/

/-- The two stores have the same under a key. -/
def SameAt (kind : Kind) (key : String) (a b : OptimisticStore) : Prop :=
  (a kind).states key = (b kind).states key ∧ (a kind).snapshots key = (b kind).snapshots key

namespace OptimisticStore

variable {store : OptimisticStore} {kind kind' : Kind} {key key' : String}

theorem on_self (f : Slots kind.State → Slots kind.State) :
    store.on kind f kind = f (store kind) := Function.update_self _ _ _

theorem on_of_ne (h : kind ≠ kind') (f : Slots kind'.State → Slots kind'.State) :
    store.on kind' f kind = store kind := Function.update_of_ne h _ _

/-- What changes the maps of a kind under one key only leaves all other keys as they are. -/
theorem sameAt_on {f : Slots kind'.State → Slots kind'.State}
    (hf : ∀ s k, k ≠ key' → (f s).states k = s.states k ∧ (f s).snapshots k = s.snapshots k)
    (h : ¬(kind' = kind ∧ key' = key)) : SameAt kind key (store.on kind' f) store := by
  by_cases hkind : kind' = kind
  · subst hkind
    have hkey : key ≠ key' := fun heq => h ⟨rfl, heq.symm⟩
    rw [SameAt, on_self]
    exact hf _ key hkey
  · rw [SameAt, on_of_ne (Ne.symm hkind)]
    exact ⟨rfl, rfl⟩

theorem sameAt_setState (h : ¬(kind' = kind ∧ key' = key)) (state : kind'.State) :
    SameAt kind key (store.setState kind' key' state) store :=
  sameAt_on (fun _ _ hk => ⟨Function.update_of_ne hk _ _, rfl⟩) h

theorem sameAt_clearState (h : ¬(kind' = kind ∧ key' = key)) :
    SameAt kind key (store.clearState kind' key') store :=
  sameAt_on (fun _ _ hk => ⟨Function.update_of_ne hk _ _, Function.update_of_ne hk _ _⟩) h

theorem sameAt_snapshotState (h : ¬(kind' = kind ∧ key' = key)) :
    SameAt kind key (store.snapshotState kind' key') store :=
  sameAt_on (fun _ _ hk => ⟨rfl, Function.update_of_ne hk _ _⟩) h

theorem sameAt_commitState (h : ¬(kind' = kind ∧ key' = key)) :
    SameAt kind key (store.commitState kind' key') store :=
  sameAt_on (fun _ _ hk => ⟨rfl, Function.update_of_ne hk _ _⟩) h

theorem sameAt_rollbackState (h : ¬(kind' = kind ∧ key' = key)) :
    SameAt kind key (store.rollbackState kind' key').2 store := by
  refine sameAt_on (fun s k hk => ?_) h
  simp only [Slots.rollbackState]
  cases s.snapshots key' with
  | none => exact ⟨rfl, Function.update_of_ne hk _ _⟩
  | some snapshot => exact ⟨Function.update_of_ne hk _ _, Function.update_of_ne hk _ _⟩

/-! At the key itself. -/

theorem setState_self (state : kind.State) :
    ((store.setState kind key state) kind).states key = some state ∧
      ((store.setState kind key state) kind).snapshots key = (store kind).snapshots key := by
  rw [setState, on_self]
  exact ⟨Function.update_self _ _ _, rfl⟩

theorem snapshotState_self :
    ((store.snapshotState kind key) kind).states key = (store kind).states key ∧
      ((store.snapshotState kind key) kind).snapshots key = some ((store kind).states key) := by
  rw [snapshotState, on_self]
  exact ⟨rfl, Function.update_self _ _ _⟩

theorem commitState_self :
    ((store.commitState kind key) kind).states key = (store kind).states key ∧
      ((store.commitState kind key) kind).snapshots key = none := by
  rw [commitState, on_self]
  exact ⟨rfl, Function.update_self _ _ _⟩

theorem rollbackState_self :
    ((store.rollbackState kind key).2 kind).states key =
        ((store kind).snapshots key).getD ((store kind).states key) ∧
      ((store.rollbackState kind key).2 kind).snapshots key = none := by
  simp only [rollbackState, on_self, Slots.rollbackState]
  cases (store kind).snapshots key with
  | none => exact ⟨rfl, Function.update_self _ _ _⟩
  | some snapshot => exact ⟨Function.update_self _ _ _, Function.update_self _ _ _⟩

theorem likeGone_of_shows {user : String} {liveIds : List String}
    (h : Shows .like key liveIds) : likeGone user liveIds key = false := by
  obtain ⟨user', post, huser, hpost, rfl, hmem⟩ := h
  have hsplit : Text.split ':' (pairKey user' post) = [user', post] := by
    have hlist : (pairKey user' post).toList = user'.toList ++ ':' :: post.toList := by
      simp [pairKey]
    rw [Text.split, hlist, List.splitOn_append_cons_self_of_not_mem huser,
      List.splitOn_eq_singleton hpost]
    simp only [List.map_cons, List.map_nil, String.ofList_toList]
  rw [likeGone, hsplit]
  simp [hmem]

theorem prune_of_not_gone {V : Type} {s : Slots V} {gone : String → Bool}
    (h : gone key = false) :
    (s.prune gone).states key = s.states key ∧ (s.prune gone).snapshots key = s.snapshots key := by
  simp [Slots.prune, h]

/-- A feed that has the post of a key leaves the key as it is. -/
theorem sameAt_reconcileFeed {user : Option String} {liveIds : List String}
    (h : Shows kind key liveIds) : SameAt kind key (store.reconcileFeed user liveIds) store := by
  rw [reconcileFeed.eq_def]
  cases user with
  | none => exact ⟨rfl, rfl⟩
  | some user =>
    simp only
    split
    · exact ⟨rfl, rfl⟩
    · cases kind with
      | follow =>
        rw [SameAt, on_of_ne (by decide), on_of_ne (by decide)]
        exact ⟨rfl, rfl⟩
      | like =>
        rw [SameAt, on_of_ne (by decide), on_self]
        exact prune_of_not_gone (likeGone_of_shows h)
      | tip =>
        have hlive : (!liveIds.contains key) = false := by
          rw [Bool.not_eq_false', List.contains_iff_mem]
          exact h
        rw [SameAt, on_self, on_of_ne (by decide)]
        exact prune_of_not_gone hlive

end OptimisticStore

/-! ## Runs -/

namespace World

/-- What is known of a key if its mutations do not overlap. -/
structure Settled (w : World) (kind : Kind) (key : String) : Prop where
  alone : ∀ i j, w.InFlight kind key i → w.InFlight kind key j → i = j
  quiet : w.Quiet kind key → w.stored kind key = w.truth kind key
  taken : ∀ i v, w.mutations i = some (⟨kind, key, v⟩, false) →
    w.stored kind key = w.truth kind key ∧
      (w.store kind).snapshots key = some (w.truth kind key)
  shown : ∀ i v, w.mutations i = some (⟨kind, key, v⟩, true) →
    w.stored kind key = some v ∧ (w.store kind).snapshots key = some (w.truth kind key)

variable {w w' : World} {kind : Kind} {key : String}

/-- A step beside a key keeps what is known of it. -/
theorem Settled.frame (h : w.Settled kind key) (hstore : SameAt kind key w'.store w.store)
    (htruth : w'.truth kind key = w.truth kind key)
    (hmutations : ∀ i v b, w'.mutations i = some (⟨kind, key, v⟩, b) ↔
      w.mutations i = some (⟨kind, key, v⟩, b)) : w'.Settled kind key := by
  have hflight : ∀ i, w'.InFlight kind key i ↔ w.InFlight kind key i := fun i =>
    exists_congr fun v => exists_congr fun b => hmutations i v b
  refine ⟨fun i j hi hj => ?_, fun hquiet => ?_, fun i v hi => ?_, fun i v hi => ?_⟩
  · exact h.alone i j ((hflight i).mp hi) ((hflight j).mp hj)
  · rw [stored, hstore.1, htruth]
    exact h.quiet fun i hi => hquiet i ((hflight i).mpr hi)
  · rw [stored, hstore.1, hstore.2, htruth]
    exact h.taken i v ((hmutations i v false).mp hi)
  · rw [stored, hstore.1, hstore.2, htruth]
    exact h.shown i v ((hmutations i v true).mp hi)

/-- The mutation is not one of the key. -/
theorem update_mutations_iff {m : Mutation} (hm : ¬(m.kind = kind ∧ m.key = key)) {i : Nat}
    {x : Option (Mutation × Bool)} (hold : ∀ y, w.mutations i = some y → y.1 = m)
    (hnew : ∀ y, x = some y → y.1 = m) (j : Nat) (v : kind.State) (b : Bool) :
    Function.update w.mutations i x j = some (⟨kind, key, v⟩, b) ↔
      w.mutations j = some (⟨kind, key, v⟩, b) := by
  by_cases hij : j = i
  · subst hij
    rw [Function.update_self]
    constructor
    · intro h
      have heq := hnew _ h
      exact absurd ⟨by rw [← heq], by rw [← heq]⟩ hm
    · intro h
      have heq := hold _ h
      exact absurd ⟨by rw [← heq], by rw [← heq]⟩ hm
  · rw [Function.update_of_ne hij]

theorem settled_start (store : OptimisticStore) (kind : Kind) (key : String) :
    (start store).Settled kind key where
  alone i _ hi := by
    obtain ⟨v, b, h⟩ := hi
    cases h
  quiet _ := rfl
  taken _ _ h := nomatch h
  shown _ _ h := nomatch h

theorem settled_of_quiet (hquiet : w.Quiet kind key)
    (htruth : w.stored kind key = w.truth kind key) : w.Settled kind key where
  alone i _ hi := absurd hi (hquiet i)
  quiet _ := htruth
  taken i v h := absurd ⟨v, false, h⟩ (hquiet i)
  shown i v h := absurd ⟨v, true, h⟩ (hquiet i)

/-- When the only mutation of a key has come to its end, the key is quiet. -/
theorem Settled.quiet_of_ended (h : w.Settled kind key) {i : Nat} (hi : w.InFlight kind key i)
    (hmutations : w'.mutations = Function.update w.mutations i none) : w'.Quiet kind key := by
  intro j hj
  obtain ⟨v, b, hj⟩ := hj
  rw [hmutations] at hj
  by_cases hij : j = i
  · subst hij
    rw [Function.update_self] at hj
    cases hj
  · rw [Function.update_of_ne hij] at hj
    exact hij (h.alone j i ⟨v, b, hj⟩ hi)

theorem settled_snapshot {i : Nat} {m : Mutation} (h : w.Settled kind key)
    (hfree : w.mutations i = none) (hquiet : m.kind = kind → m.key = key → w.Quiet kind key) :
    (w.snapshotted i m).Settled kind key := by
  by_cases hm : m.kind = kind ∧ m.key = key
  · obtain ⟨kind', key', v⟩ := m
    obtain ⟨rfl, rfl⟩ := hm
    have hq := hquiet rfl rfl
    obtain ⟨hstates, hsnapshots⟩ :=
      @OptimisticStore.snapshotState_self w.store kind' key'
    have honly : ∀ j u b, Function.update w.mutations i (some (⟨kind', key', v⟩, false)) j =
        some (⟨kind', key', u⟩, b) → j = i ∧ b = false := by
      intro j u b hj
      by_cases hij : j = i
      · subst hij
        rw [Function.update_self] at hj
        exact ⟨rfl, (Prod.mk.inj (Option.some.inj hj)).2.symm⟩
      · rw [Function.update_of_ne hij] at hj
        exact absurd ⟨u, b, hj⟩ (hq j)
    refine ⟨fun j k hj hk => ?_, fun hno => ?_, fun j u hj => ?_, fun j u hj => ?_⟩
    · obtain ⟨_, _, hj⟩ := hj
      obtain ⟨_, _, hk⟩ := hk
      rw [(honly _ _ _ hj).1, (honly _ _ _ hk).1]
    · exact absurd ⟨v, false, Function.update_self _ _ _⟩ (hno i)
    · have htruth : (w.store kind').states key' = w.truth kind' key' := h.quiet hq
      exact ⟨hstates.trans htruth, hsnapshots.trans (congrArg some htruth)⟩
    · cases (honly _ _ _ hj).2
  · refine h.frame (OptimisticStore.sameAt_snapshotState hm) rfl
      (update_mutations_iff hm (fun y hy => ?_) fun y hy => ?_)
    · rw [hfree] at hy
      cases hy
    · rw [← Option.some.inj hy]

theorem settled_set {i : Nat} {m : Mutation} (h : w.Settled kind key)
    (hi : w.mutations i = some (m, false)) :
    (w.shown i m).Settled kind key := by
  by_cases hm : m.kind = kind ∧ m.key = key
  · obtain ⟨kind', key', v⟩ := m
    obtain ⟨rfl, rfl⟩ := hm
    obtain ⟨hstates, hsnapshots⟩ :=
      @OptimisticStore.setState_self w.store kind' key' v
    have honly : ∀ j u b, Function.update w.mutations i (some (⟨kind', key', v⟩, true)) j =
        some (⟨kind', key', u⟩, b) → j = i ∧ u = v ∧ b = true := by
      intro j u b hj
      by_cases hij : j = i
      · subst hij
        rw [Function.update_self] at hj
        cases hj
        exact ⟨rfl, rfl, rfl⟩
      · rw [Function.update_of_ne hij] at hj
        exact absurd (h.alone j i ⟨u, b, hj⟩ ⟨v, false, hi⟩) hij
    refine ⟨fun j k hj hk => ?_, fun hno => ?_, fun j u hj => ?_, fun j u hj => ?_⟩
    · obtain ⟨_, _, hj⟩ := hj
      obtain ⟨_, _, hk⟩ := hk
      rw [(honly _ _ _ hj).1, (honly _ _ _ hk).1]
    · exact absurd ⟨v, true, Function.update_self _ _ _⟩ (hno i)
    · cases (honly _ _ _ hj).2.2
    · rw [(honly _ _ _ hj).2.1]
      exact ⟨hstates, hsnapshots.trans (h.taken i v hi).2⟩
  · refine h.frame (OptimisticStore.sameAt_setState hm m.state) rfl
      (update_mutations_iff hm (fun y hy => ?_) fun y hy => ?_)
    · rw [hi] at hy
      rw [← Option.some.inj hy]
    · rw [← Option.some.inj hy]

theorem update_truth_of_not {m : Mutation} (hm : ¬(m.kind = kind ∧ m.key = key)) :
    Function.update w.truth m.kind (Function.update (w.truth m.kind) m.key (some m.state))
      kind key = w.truth kind key := by
  by_cases hkind : kind = m.kind
  · subst hkind
    rw [Function.update_self, Function.update_of_ne fun hkey => hm ⟨rfl, hkey.symm⟩]
  · rw [Function.update_of_ne hkind]

theorem settled_commit {i : Nat} {m : Mutation} (h : w.Settled kind key)
    (hi : w.mutations i = some (m, true)) :
    (w.confirmed i m).Settled kind key := by
  by_cases hm : m.kind = kind ∧ m.key = key
  · obtain ⟨kind', key', v⟩ := m
    obtain ⟨rfl, rfl⟩ := hm
    refine settled_of_quiet (h.quiet_of_ended ⟨v, true, hi⟩ rfl) ?_
    have htruth : (w.confirmed i ⟨kind', key', v⟩).truth kind' key' = some v := by
      simp only [confirmed, Function.update_self]
    exact (OptimisticStore.commitState_self.1.trans (h.shown i v hi).1).trans htruth.symm
  · refine h.frame (OptimisticStore.sameAt_commitState hm) (update_truth_of_not hm)
      (update_mutations_iff hm (fun y hy => ?_) fun y hy => by cases hy)
    rw [hi] at hy
    rw [← Option.some.inj hy]

theorem settled_rollback {i : Nat} {m : Mutation} (h : w.Settled kind key)
    (hi : w.mutations i = some (m, true)) :
    (w.rolledBack i m).Settled kind key := by
  by_cases hm : m.kind = kind ∧ m.key = key
  · obtain ⟨kind', key', v⟩ := m
    obtain ⟨rfl, rfl⟩ := hm
    refine settled_of_quiet (h.quiet_of_ended ⟨v, true, hi⟩ rfl) ?_
    refine OptimisticStore.rollbackState_self.1.trans ?_
    rw [(h.shown i v hi).2]
    rfl
  · refine h.frame (OptimisticStore.sameAt_rollbackState hm) rfl
      (update_mutations_iff hm (fun y hy => ?_) fun y hy => by cases hy)
    rw [hi] at hy
    rw [← Option.some.inj hy]

theorem settled_next {l : Label} (h : w.Settled kind key) (halone : Alone kind key w l)
    (hnext : w.next l = some w') : w'.Settled kind key := by
  rcases next_cases hnext with ⟨i, m, rfl, hi, rfl⟩ | ⟨i, m, rfl, hi, rfl⟩ | ⟨i, m, rfl, hi, rfl⟩ |
    ⟨i, m, rfl, hi, rfl⟩ | ⟨user, liveIds, rfl, rfl⟩
  · exact settled_snapshot h hi halone
  · exact settled_set h hi
  · exact settled_commit h hi
  · exact settled_rollback h hi
  · exact h.frame (OptimisticStore.sameAt_reconcileFeed halone) rfl fun _ _ _ => Iff.rfl

/-! ## Overlapping mutations -/

/-- If the older of two mutations is confirmed, the other one has no snapshot to go back to. -/
theorem overlap_ends {i j : Nat} {u v : kind.State} (hij : i ≠ j)
    (hi : w.mutations i = some (⟨kind, key, v⟩, true))
    (hj : w.mutations j = some (⟨kind, key, u⟩, false))
    (honly : ∀ k, w.InFlight kind key k → k = i ∨ k = j) :
    ∃ w', walk next [.set j, .commit i, .rollback j] w = some w' ∧ w'.Quiet kind key ∧
      w'.stored kind key = some u ∧ w'.truth kind key = some v := by
  have hcommit : (w.shown j ⟨kind, key, u⟩).mutations i = some (⟨kind, key, v⟩, true) :=
    (Function.update_of_ne hij _ _).trans hi
  have hrollback : ((w.shown j ⟨kind, key, u⟩).confirmed i ⟨kind, key, v⟩).mutations j =
      some (⟨kind, key, u⟩, true) :=
    (Function.update_of_ne hij.symm _ _).trans (Function.update_self _ _ _)
  refine ⟨((w.shown j ⟨kind, key, u⟩).confirmed i ⟨kind, key, v⟩).rolledBack j ⟨kind, key, u⟩,
    ?_, fun k hk => ?_, ?_, ?_⟩
  · rw [walk_cons (next_set hj), walk_cons (next_commit hcommit),
      walk_cons (next_rollback hrollback), walk]
  · obtain ⟨x, b, hk⟩ := hk
    simp only [rolledBack, confirmed, shown] at hk
    by_cases hkj : k = j
    · rw [hkj, Function.update_self] at hk
      cases hk
    rw [Function.update_of_ne hkj] at hk
    by_cases hki : k = i
    · rw [hki, Function.update_self] at hk
      cases hk
    rw [Function.update_of_ne hki, Function.update_of_ne hkj] at hk
    rcases honly k ⟨x, b, hk⟩ with heq | heq
    · exact hki heq
    · exact hkj heq
  · refine OptimisticStore.rollbackState_self.1.trans ?_
    simp only [confirmed]
    rw [OptimisticStore.commitState_self.2, Option.getD_none,
      OptimisticStore.commitState_self.1]
    exact (OptimisticStore.setState_self u).1
  · simp only [rolledBack, confirmed, Function.update_self]

/-- A snapshot that is taken while a mutation is in flight may leave the store wrong. -/
theorem overlap_fails {i j : Nat} {u v : kind.State} {b : Bool} (h : w.Settled kind key)
    (hi : w.mutations i = some (⟨kind, key, v⟩, b)) (hj : w.mutations j = none) (huv : u ≠ v) :
    ∃ ls w', Run (StepOf next) w (.snapshot j ⟨kind, key, u⟩ :: ls) w' ∧ w'.Quiet kind key ∧
      w'.stored kind key ≠ w'.truth kind key := by
  have hij : i ≠ j := by
    rintro rfl
    rw [hi] at hj
    cases hj
  have hflight : ∀ k, w.InFlight kind key k → k = i := fun k hk => h.alone k i hk ⟨v, b, hi⟩
  have hi₁ : (w.snapshotted j ⟨kind, key, u⟩).mutations i = some (⟨kind, key, v⟩, b) :=
    (Function.update_of_ne hij _ _).trans hi
  have hj₁ : (w.snapshotted j ⟨kind, key, u⟩).mutations j = some (⟨kind, key, u⟩, false) :=
    Function.update_self _ _ _
  have honly : ∀ k, (w.snapshotted j ⟨kind, key, u⟩).InFlight kind key k → k = i ∨ k = j := by
    intro k hk
    by_cases hkj : k = j
    · exact .inr hkj
    · obtain ⟨x, c, hk⟩ := hk
      exact .inl (hflight k ⟨x, c, (Function.update_of_ne hkj _ _).symm.trans hk⟩)
  have hne : some u ≠ some v := fun heq => huv (Option.some.inj heq)
  cases b with
  | true =>
    obtain ⟨w', hwalk, hquiet, hstored, htruth⟩ := overlap_ends hij hi₁ hj₁ honly
    refine ⟨[.set j, .commit i, .rollback j], w', run_of_walk ?_, hquiet, ?_⟩
    · rw [walk_cons (next_snapshot hj), hwalk]
    · rw [hstored, htruth]
      exact hne
  | false =>
    -- the older mutation has still to set its state
    have hi₂ : ((w.snapshotted j ⟨kind, key, u⟩).shown i ⟨kind, key, v⟩).mutations i =
        some (⟨kind, key, v⟩, true) := Function.update_self _ _ _
    have hj₂ : ((w.snapshotted j ⟨kind, key, u⟩).shown i ⟨kind, key, v⟩).mutations j =
        some (⟨kind, key, u⟩, false) := (Function.update_of_ne hij.symm _ _).trans hj₁
    have honly₂ : ∀ k, ((w.snapshotted j ⟨kind, key, u⟩).shown i ⟨kind, key, v⟩).InFlight
        kind key k → k = i ∨ k = j := by
      intro k hk
      by_cases hki : k = i
      · exact .inl hki
      · obtain ⟨x, c, hk⟩ := hk
        exact honly k ⟨x, c, (Function.update_of_ne hki _ _).symm.trans hk⟩
    obtain ⟨w', hwalk, hquiet, hstored, htruth⟩ := overlap_ends hij hi₂ hj₂ honly₂
    refine ⟨[.set i, .set j, .commit i, .rollback j], w', run_of_walk ?_, hquiet, ?_⟩
    · rw [walk_cons (next_snapshot hj), walk_cons (next_set hi₁), hwalk]
    · rw [hstored, htruth]
      exact hne

/-- The step is one of a mutation of the key, or deletes what is stored under it. -/
def Touches (kind : Kind) (key : String) (w : World) : Label → Prop
  | .snapshot _ m => m.kind = kind ∧ m.key = key
  | .set i | .commit i | .rollback i => w.InFlight kind key i
  | .reconcile _ liveIds => ¬Shows kind key liveIds

theorem sameAt_next {l : Label} (hnext : w.next l = some w') (h : ¬Touches kind key w l) :
    SameAt kind key w'.store w.store := by
  have hother : ∀ i m b, w.mutations i = some (m, b) → ¬w.InFlight kind key i →
      ¬(m.kind = kind ∧ m.key = key) := by
    intro i m b hi hflight hm
    obtain ⟨kind', key', v⟩ := m
    obtain ⟨rfl, rfl⟩ := hm
    exact hflight ⟨v, b, hi⟩
  rcases next_cases hnext with ⟨i, m, rfl, hi, rfl⟩ | ⟨i, m, rfl, hi, rfl⟩ | ⟨i, m, rfl, hi, rfl⟩ |
    ⟨i, m, rfl, hi, rfl⟩ | ⟨user, liveIds, rfl, rfl⟩
  · exact OptimisticStore.sameAt_snapshotState h
  · exact OptimisticStore.sameAt_setState (hother i m _ hi h) m.state
  · exact OptimisticStore.sameAt_commitState (hother i m _ hi h)
  · exact OptimisticStore.sameAt_rollbackState (hother i m _ hi h)
  · exact OptimisticStore.sameAt_reconcileFeed (not_not.mp h)

/-- Whatever the order, a key settles to the truth as long as no snapshot of it is taken while
a mutation of it is in flight; any snapshot that is may leave it wrong; and no step of another
key changes it. -/
theorem key_settles (store : OptimisticStore) (kind : Kind) (key : String) :
    (∀ ls w, Run (Run.Guarded (StepOf next) (Alone kind key)) (start store) ls w →
      (w.Quiet kind key → w.stored kind key = w.truth kind key) ∧
      ∀ i v b, w.mutations i = some (⟨kind, key, v⟩, b) →
        ∀ j, w.mutations j = none → ∀ u, u ≠ v →
          ∃ ls' w', Run (StepOf next) w (.snapshot j ⟨kind, key, u⟩ :: ls') w' ∧
            w'.Quiet kind key ∧ w'.stored kind key ≠ w'.truth kind key) ∧
    ∀ w l w', w.next l = some w' → ¬Touches kind key w l →
      SameAt kind key w'.store w.store := by
  refine ⟨fun ls w hrun => ?_, fun w l w' hnext h => sameAt_next hnext h⟩
  have hsettled : w.Settled kind key :=
    hrun.invariant (I := fun w => w.Settled kind key)
      (fun a l b ha hl => settled_next ha hl.2 hl.1) (settled_start store kind key)
  exact ⟨hsettled.quiet, fun i v b hi j hj u huv => overlap_fails hsettled hi hj huv⟩

/-- Nothing is shown yet. -/
def nothing : OptimisticStore := fun _ => ⟨fun _ => none, fun _ => none⟩

def likes : Mutation := ⟨.like, "u:1", (⟨true, 1⟩ : LikeState)⟩
def unlikes : Mutation := ⟨.like, "u:1", (⟨false, 0⟩ : LikeState)⟩

theorem quiet_of_none (h : ∀ i, w.mutations i = none) : w.Quiet kind key := by
  intro i hi
  obtain ⟨v, b, hi⟩ := hi
  rw [h i] at hi
  cases hi

/-- A like is shown and then rolled back, and a feed with the post arrives in between. -/
theorem key_settles_after_rollback :
    World.stored (World.rolledBack (World.reconciled (((start nothing).snapshotted 0 likes).shown
      0 likes) (some "u") ["1"]) 0 likes) .like "u:1" = none := by
  have hshows : Shows .like "u:1" ["1"] := ⟨"u", "1", by decide, by decide, rfl, by decide⟩
  have hsnapshot : Run (Run.Guarded (StepOf next) (Alone .like "u:1")) (start nothing)
      [.snapshot 0 likes] ((start nothing).snapshotted 0 likes) :=
    Run.single ⟨next_snapshot rfl, fun _ _ => quiet_of_none fun _ => rfl⟩
  have hset : StepOf next ((start nothing).snapshotted 0 likes) (.set 0)
      (((start nothing).snapshotted 0 likes).shown 0 likes) := next_set rfl
  have hreconcile : StepOf next (((start nothing).snapshotted 0 likes).shown 0 likes)
      (.reconcile (some "u") ["1"])
      ((((start nothing).snapshotted 0 likes).shown 0 likes).reconciled (some "u") ["1"]) := rfl
  have hrollback : StepOf next
      ((((start nothing).snapshotted 0 likes).shown 0 likes).reconciled (some "u") ["1"])
      (.rollback 0) (World.rolledBack
        ((((start nothing).snapshotted 0 likes).shown 0 likes).reconciled (some "u") ["1"])
        0 likes) := next_rollback rfl
  have hrun := ((hsnapshot.snoc ⟨hset, trivial⟩).snoc ⟨hreconcile, hshows⟩).snoc
    ⟨hrollback, trivial⟩
  refine (((key_settles nothing .like "u:1").1 _ _ hrun).1 (quiet_of_none fun i => ?_)).trans rfl
  cases i with
  | zero => rfl
  | succ i => rfl

/-- The like is confirmed and the later unlike is not, but the post is shown as not liked. -/
theorem unlike_survives_rollback :
    ∃ w, walk next [.snapshot 0 likes, .set 0, .snapshot 1 unlikes, .set 1, .commit 0,
        .rollback 1] (start nothing) = some w ∧ w.Quiet .like "u:1" ∧
      w.stored .like "u:1" = some (⟨false, 0⟩ : LikeState) ∧
      w.truth .like "u:1" = some (⟨true, 1⟩ : LikeState) := by
  refine ⟨_, rfl, quiet_of_none fun i => ?_, rfl, rfl⟩
  match i with
  | 0 => rfl
  | 1 => rfl
  | _ + 2 => rfl

end World

end Web
end Linkora
