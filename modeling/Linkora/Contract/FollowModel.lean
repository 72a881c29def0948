import Linkora.Contract.Registration

/-!
# Following and unfollowing as a set of edges

In a well-formed graph `follow` adds an edge and `unfollow` removes one, and the
lists that the contract returns show exactly the edges.  What can stand in the way
of a `follow` is its guard on the count entries of registered users: emptying a
list removes its count entry, and the guard takes the missing entry for an expired
one.
-/

namespace Linkora
namespace Contract

/-! ## The lists over all pages -/

def followingOf (s : State) (user : Address) : Set Address :=
  {v | ∃ offset limit page, getFollowing s user offset limit = .ok page ∧ v ∈ page}

def followersOf (s : State) (user : Address) : Set Address :=
  {v | ∃ offset limit page, getFollowers s user offset limit = .ok page ∧ v ∈ page}

/-- The graph is well formed and its sizes are `u32`. -/
structure GraphOk (g : Graph) : Prop where
  wellFormed : g.WellFormed
  compact : g.Compact

theorem Graph.mem_of_mem_page {g : Graph} {user v : Address} {isFollowing : Bool}
    {S : Set Address} (h : (g.side isFollowing).Enumerates user S) {offset limit : Nat}
    {page : List Address} (hpage : g.paginateIndex user offset limit isFollowing = .ok page)
    (hv : v ∈ page) : v ∈ S := by
  rw [Graph.paginateIndex] at hpage
  split at hpage
  · rw [Except.ok.injEq] at hpage
    subst hpage
    cases hv
  · simp only [Checked.bind_eq_ok, Checked.pure_eq_ok] at hpage
    obtain ⟨stop, -, rfl⟩ := hpage
    exact Index.mem_slice_mem h hv

theorem Graph.exists_page {g : Graph} {user v : Address} {isFollowing : Bool} {S : Set Address}
    (h : (g.side isFollowing).Enumerates user S)
    (hsize : (g.side isFollowing).size user ≤ U32_MAX) (hv : v ∈ S) :
    ∃ offset, g.paginateIndex user offset 1 isFollowing = .ok [v] := by
  obtain ⟨p, hp, hslot⟩ := h.exists_slot hv
  have hne : ¬(g.side isFollowing).size user ≤ p := by omega
  have hu32 : u32 (p + 1) = .ok (p + 1) := u32_eq_ok.mpr ⟨by omega, rfl⟩
  have hmin : min (p + 1) ((g.side isFollowing).size user) - p = 1 := by omega
  refine ⟨p, ?_⟩
  rw [Graph.paginateIndex, if_neg hne, hu32]
  show Except.ok ((g.side isFollowing).slice user p
    (min (p + 1) ((g.side isFollowing).size user) - p)) = .ok [v]
  rw [hmin]
  simp [Index.slice, List.range', hslot]

theorem getFollowing_ok {s : State} {user : Address} {offset limit : Nat} {page : List Address}
    (h : getFollowing s user offset limit = .ok page) :
    s.graph.paginateIndex user offset limit true = .ok page := by
  simp only [getFollowing, Checked.bind_eq_ok] at h
  obtain ⟨-, -, -, -, h⟩ := h
  exact h

theorem getFollowers_ok {s : State} {user : Address} {offset limit : Nat} {page : List Address}
    (h : getFollowers s user offset limit = .ok page) :
    s.graph.paginateIndex user offset limit false = .ok page := by
  simp only [getFollowers, Checked.bind_eq_ok] at h
  obtain ⟨-, -, -, -, h⟩ := h
  exact h

theorem mem_followingOf {s : State} (hok : GraphOk s.graph) {user v : Address}
    (hzero : isZeroAddress user = false) : v ∈ followingOf s user ↔ s.graph.Edges user v := by
  constructor
  · rintro ⟨offset, limit, page, hpage, hv⟩
    have hlists : (s.graph.side true).Enumerates user {v | s.graph.Edges user v} :=
      hok.wellFormed.following user
    exact Graph.mem_of_mem_page hlists (getFollowing_ok hpage) hv
  · intro hedge
    have hlists : (s.graph.side true).Enumerates user {v | s.graph.Edges user v} :=
      hok.wellFormed.following user
    obtain ⟨offset, hpage⟩ := Graph.exists_page hlists (hok.compact.following user).1 hedge
    refine ⟨offset, 1, [v], ?_, List.mem_singleton_self v⟩
    rw [getFollowing_eq hzero (by decide)]
    exact hpage

theorem mem_followersOf {s : State} (hok : GraphOk s.graph) {user v : Address}
    (hzero : isZeroAddress user = false) : v ∈ followersOf s user ↔ s.graph.Edges v user := by
  constructor
  · rintro ⟨offset, limit, page, hpage, hv⟩
    have hlists : (s.graph.side false).Enumerates user {v | s.graph.Edges v user} :=
      hok.wellFormed.followers user
    exact Graph.mem_of_mem_page hlists (getFollowers_ok hpage) hv
  · intro hedge
    have hlists : (s.graph.side false).Enumerates user {v | s.graph.Edges v user} :=
      hok.wellFormed.followers user
    obtain ⟨offset, hpage⟩ := Graph.exists_page hlists (hok.compact.followers user).1 hedge
    refine ⟨offset, 1, [v], ?_, List.mem_singleton_self v⟩
    rw [getFollowers_eq hzero (by decide)]
    exact hpage

/-! ## One call -/

/-- What a caller has to provide: `a` authorises, the two are distinct users
neither of whom has blocked the other, and the module is running. -/
structure Ready (env : Env) (s : State) (a b : Address) : Prop where
  ne : a ≠ b
  follower : isZeroAddress a = false
  followee : isZeroAddress b = false
  auth : env.auth a = true
  unblocked : blocks s a b = false
  unblocked' : blocks s b a = false
  running : Running s .social

instance (env : Env) (s : State) (a b : Address) : Decidable (Ready env s a b) :=
  decidable_of_iff (a ≠ b ∧ isZeroAddress a = false ∧ isZeroAddress b = false ∧
      env.auth a = true ∧ blocks s a b = false ∧ blocks s b a = false ∧
      isPaused s = false ∧ isModulePaused s .social = false)
    ⟨fun ⟨hne, ha, hb, hauth, hab, hba, hrun⟩ => ⟨hne, ha, hb, hauth, hab, hba, hrun⟩,
      fun h => ⟨h.ne, h.follower, h.followee, h.auth, h.unblocked, h.unblocked', h.running⟩⟩

/-- Both users, as far as they are registered, have their count entries, and a new
edge would not take a count out of range. -/
structure CanFollow (s : State) (a b : Address) : Prop where
  follower : GraphLive s a
  followee : GraphLive s b
  room : s.graph.Edges a b ∨
    (s.graph.following.size a < U32_MAX ∧ s.graph.followers.size b < U32_MAX)

theorem Graph.link_edges {g g' : Graph} {a b : Address} (h : g.link a b = .ok g')
    (u v : Address) : g'.Edges u v ↔ g.Edges u v ∨ (u = a ∧ v = b) := by
  rcases Graph.link_cases h with ⟨hab, rfl⟩ | ⟨-, h⟩
  · refine ⟨Or.inl, fun h => h.elim id ?_⟩
    rintro ⟨rfl, rfl⟩
    exact hab
  · obtain rfl := Graph.addEdge_ok h
    exact Graph.edges_set rfl u v

theorem Graph.exists_link_iff (g : Graph) (a b : Address) :
    (∃ g', g.link a b = .ok g') ↔
      g.Edges a b ∨ (g.following.size a < U32_MAX ∧ g.followers.size b < U32_MAX) := by
  by_cases hab : g.Edges a b
  · exact ⟨fun _ => Or.inl hab, fun _ => ⟨g, if_pos hab⟩⟩
  · have hlink : g.link a b = g.addEdge a b := if_neg hab
    rw [hlink]
    simp only [Graph.addEdge, Checked.bind_eq_ok, Checked.pure_eq_ok, u32_eq_ok]
    constructor
    · rintro ⟨-, -, ⟨h, -⟩, -, ⟨h', -⟩, -⟩
      exact Or.inr ⟨by omega, by omega⟩
    · intro h
      obtain ⟨h, h'⟩ := h.resolve_left hab
      exact ⟨_, _, ⟨by omega, rfl⟩, _, ⟨by omega, rfl⟩, rfl⟩

theorem exists_follow_iff {env : Env} {s : State} {a b : Address} (h : Ready env s a b) :
    (∃ s', follow env s a b = .ok s') ↔ CanFollow s a b := by
  constructor
  · rintro ⟨s', hs'⟩
    obtain ⟨-, -, -, -, -, -, -, hlive, hlive', graph, hgraph, -⟩ := follow_eq_ok.mp hs'
    exact ⟨hlive, hlive', (Graph.exists_link_iff s.graph a b).mp ⟨graph, hgraph⟩⟩
  · rintro ⟨hlive, hlive', hroom⟩
    obtain ⟨graph, hgraph⟩ := (Graph.exists_link_iff s.graph a b).mpr hroom
    exact ⟨_, follow_eq_ok.mpr ⟨h.auth, h.follower, h.followee, h.ne, h.running, h.unblocked',
      h.unblocked, hlive, hlive', graph, hgraph, rfl⟩⟩

/-- What a `follow` leaves: one edge more, and nothing else that the next call
reads. -/
theorem follow_effect {env : Env} {s s' : State} {a b : Address} (hok : GraphOk s.graph)
    (h : follow env s a b = .ok s') :
    GraphOk s'.graph ∧ (∀ u v, s'.graph.Edges u v ↔ s.graph.Edges u v ∨ (u = a ∧ v = b)) ∧
      s'.blocks = s.blocks ∧ s'.access = s.access := by
  obtain ⟨-, -, -, -, -, -, -, -, -, graph, hgraph, rfl⟩ := follow_eq_ok.mp h
  exact ⟨⟨hok.wellFormed.link hgraph, hok.compact.link hgraph⟩, Graph.link_edges hgraph, rfl, rfl⟩

/-- An `unfollow` always succeeds and leaves one edge less. -/
theorem unfollow_effect {env : Env} {s : State} {a b : Address} (hok : GraphOk s.graph)
    (h : Ready env s a b) :
    ∃ s', unfollow env s a b = .ok s' ∧ GraphOk s'.graph ∧
      (∀ u v, s'.graph.Edges u v ↔ s.graph.Edges u v ∧ ¬(u = a ∧ v = b)) ∧
      s'.blocks = s.blocks ∧ s'.access = s.access := by
  obtain ⟨graph, hgraph, hwf, hedges⟩ := hok.wellFormed.unlink a b
  exact ⟨_, unfollow_eq_ok.mpr ⟨h.auth, h.follower, h.followee, h.ne, h.running, graph, hgraph,
    rfl⟩, ⟨hwf, hok.compact.unlink hgraph⟩, hedges, rfl, rfl⟩

/-! ## Lists of choices -/

/-- A follow or an unfollow that somebody chooses to make. -/
structure Choice where
  env : Env
  isFollow : Bool
  follower : Address
  followee : Address

namespace Choice

def run (c : Choice) (s : State) : Except Panic State :=
  if c.isFollow then follow c.env s c.follower c.followee
  else unfollow c.env s c.follower c.followee

/-- The choice in the plain model, a set of edges. -/
def model (E : Set (Address × Address)) (c : Choice) : Set (Address × Address) :=
  if c.isFollow then insert (c.follower, c.followee) E else E \ {(c.follower, c.followee)}

variable {c : Choice}

theorem run_of_follow (hc : c.isFollow = true) (s : State) :
    c.run s = follow c.env s c.follower c.followee :=
  if_pos hc

theorem run_of_unfollow (hc : c.isFollow = false) (s : State) :
    c.run s = unfollow c.env s c.follower c.followee := by
  rw [run, hc, if_neg Bool.false_ne_true]

theorem mem_model_of_follow (hc : c.isFollow = true) {E : Set (Address × Address)}
    {u v : Address} :
    (u, v) ∈ model E c ↔ (u, v) ∈ E ∨ (u = c.follower ∧ v = c.followee) := by
  rw [model, if_pos hc, Set.mem_insert_iff, Prod.mk.injEq, or_comm]

theorem mem_model_of_unfollow (hc : c.isFollow = false) {E : Set (Address × Address)}
    {u v : Address} :
    (u, v) ∈ model E c ↔ (u, v) ∈ E ∧ ¬(u = c.follower ∧ v = c.followee) := by
  rw [model, hc, if_neg Bool.false_ne_true, Set.mem_sdiff, Set.mem_singleton_iff, Prod.mk.injEq]

end Choice

def runChoices (s : State) (choices : List Choice) : Except Panic State :=
  choices.foldlM (fun s c => c.run s) s

def edgeSet (s : State) : Set (Address × Address) := {p | s.graph.Edges p.1 p.2}

/-- Every follow of the list meets `CanFollow` in the state that it finds. -/
def FollowsMeet : State → List Choice → Prop
  | _, [] => True
  | s, c :: choices =>
    (c.isFollow = true → CanFollow s c.follower c.followee) ∧
      ∀ s', c.run s = .ok s' → FollowsMeet s' choices

/-- The lists of every user show the edges of `E`. -/
def Shows (s : State) (E : Set (Address × Address)) : Prop :=
  ∀ user, isZeroAddress user = false →
    followingOf s user = {v | (user, v) ∈ E} ∧ followersOf s user = {v | (v, user) ∈ E}

theorem shows_edgeSet {s : State} (hok : GraphOk s.graph) : Shows s (edgeSet s) := by
  intro user hzero
  constructor
  · ext v
    exact mem_followingOf hok hzero
  · ext v
    exact mem_followersOf hok hzero

theorem Ready.congr {env : Env} {s s' : State} {a b : Address} (h : Ready env s a b)
    (hblocks : s'.blocks = s.blocks) (haccess : s'.access = s.access) : Ready env s' a b := by
  refine ⟨h.ne, h.follower, h.followee, h.auth, ?_, ?_, ?_⟩
  · rw [blocks, hblocks]
    exact h.unblocked
  · rw [blocks, hblocks]
    exact h.unblocked'
  · rw [Running, isPaused, isModulePaused, getPauseMask, haccess]
    exact h.running

/-- What a choice that went through leaves behind. -/
theorem Choice.run_effect {c : Choice} {s s' : State} (hok : GraphOk s.graph)
    (hready : Ready c.env s c.follower c.followee) (h : c.run s = .ok s') :
    GraphOk s'.graph ∧ edgeSet s' = Choice.model (edgeSet s) c ∧
      s'.blocks = s.blocks ∧ s'.access = s.access := by
  cases hc : c.isFollow with
  | true =>
    rw [Choice.run_of_follow hc] at h
    obtain ⟨hok', hedges, hblocks, haccess⟩ := follow_effect hok h
    refine ⟨hok', ?_, hblocks, haccess⟩
    ext ⟨u, v⟩
    rw [Choice.mem_model_of_follow hc]
    exact hedges u v
  | false =>
    rw [Choice.run_of_unfollow hc] at h
    obtain ⟨t, ht, hok', hedges, hblocks, haccess⟩ := unfollow_effect hok hready
    obtain rfl := Except.ok.inj (ht.symm.trans h)
    refine ⟨hok', ?_, hblocks, haccess⟩
    ext ⟨u, v⟩
    rw [Choice.mem_model_of_unfollow hc]
    exact hedges u v

theorem Choice.exists_run_iff {c : Choice} {s : State} (hok : GraphOk s.graph)
    (hready : Ready c.env s c.follower c.followee) :
    (∃ s', c.run s = .ok s') ↔ (c.isFollow = true → CanFollow s c.follower c.followee) := by
  cases hc : c.isFollow with
  | true =>
    rw [Choice.run_of_follow hc, exists_follow_iff hready]
    exact ⟨fun h _ => h, fun h => h rfl⟩
  | false =>
    obtain ⟨s', hs', -⟩ := unfollow_effect hok hready
    refine ⟨fun _ h => absurd h Bool.false_ne_true, fun _ => ⟨s', ?_⟩⟩
    rw [Choice.run_of_unfollow hc]
    exact hs'

/-- A list of choices that goes through leads to the edges of the plain model. -/
theorem runChoices_effect {choices : List Choice} {s s' : State} (hok : GraphOk s.graph)
    (hready : ∀ c ∈ choices, Ready c.env s c.follower c.followee)
    (h : runChoices s choices = .ok s') :
    GraphOk s'.graph ∧ edgeSet s' = choices.foldl Choice.model (edgeSet s) := by
  induction choices generalizing s with
  | nil =>
    obtain rfl := Except.ok.inj h
    exact ⟨hok, rfl⟩
  | cons c choices ih =>
    rw [runChoices, List.foldlM_cons, Checked.bind_eq_ok] at h
    obtain ⟨t, ht, h⟩ := h
    obtain ⟨hokt, hedges, hblocks, haccess⟩ :=
      Choice.run_effect hok (hready c List.mem_cons_self) ht
    rw [List.foldl_cons, ← hedges]
    exact ih hokt (fun d hd => (hready d (List.mem_cons_of_mem c hd)).congr hblocks haccess) h

theorem exists_runChoices_iff {choices : List Choice} {s : State} (hok : GraphOk s.graph)
    (hready : ∀ c ∈ choices, Ready c.env s c.follower c.followee) :
    (∃ s', runChoices s choices = .ok s') ↔ FollowsMeet s choices := by
  induction choices generalizing s with
  | nil => exact ⟨fun _ => trivial, fun _ => ⟨s, rfl⟩⟩
  | cons c choices ih =>
    have hc := hready c List.mem_cons_self
    -- The rest of the list is run from the one state that the first choice leads to.
    have hrest : ∀ t, c.run s = .ok t →
        ((∃ s', runChoices t choices = .ok s') ↔ FollowsMeet t choices) := by
      intro t ht
      obtain ⟨hokt, -, hblocks, haccess⟩ := Choice.run_effect hok hc ht
      exact ih hokt fun d hd => (hready d (List.mem_cons_of_mem c hd)).congr hblocks haccess
    simp only [runChoices, List.foldlM_cons, Checked.bind_eq_ok]
    constructor
    · rintro ⟨s', t, ht, hs'⟩
      refine ⟨(Choice.exists_run_iff hok hc).mp ⟨t, ht⟩, fun t' ht' => ?_⟩
      obtain rfl := Except.ok.inj (ht.symm.trans ht')
      exact (hrest t ht).mp ⟨s', hs'⟩
    · rintro ⟨hfollow, hmeet⟩
      obtain ⟨t, ht⟩ := (Choice.exists_run_iff hok hc).mpr hfollow
      obtain ⟨s', hs'⟩ := (hrest t ht).mpr (hmeet t ht)
      exact ⟨s', t, ht, hs'⟩

/-! ## Runs -/

instance (s : State) (user : Address) : Decidable (RegistersQuietly s user) :=
  inferInstanceAs (Decidable (_ ∨ _))

/-- Nobody is registered who has edges already. -/
def QuietRegistrations : Condition := fun s _ c => ∀ user ∈ c.registers, RegistersQuietly s user

instance (s : State) (env : Env) (c : Call) : Decidable (QuietRegistrations s env c) :=
  inferInstanceAs (Decidable (∀ user ∈ c.registers, RegistersQuietly s user))

theorem GraphOk.of_reachable {σ : Type} {host : Host σ} {w : World σ}
    (h : ReachableUnder host QuietRegistrations w) : GraphOk w.store.graph := by
  refine ⟨?_, Graph.Compact.of_reachable h.reachable⟩
  refine h.store_invariant (I := fun s => s.graph.WellFormed) ?_ ?_
  · intro s env admin treasury feeBps hs
    obtain ⟨-, -, access, events, rfl⟩ := initializeContract_ok hs
    exact .empty
  · intro w env c w' hwf hc he
    refine (exec_graphStep he).wellFormed hwf fun user username creatorToken hcall hfresh => ?_
    have hquiet : RegistersQuietly w.store user := hc user (by rw [hcall]; rfl)
    obtain ⟨hfollowing, hfollowers⟩ :=
      hquiet.resolve_left (by rw [hfresh]; exact Bool.false_ne_true)
    exact (Graph.SameView.initCounts hfollowing hfollowers).wellFormed hwf

/-- In every state reached without the registration of a user who has edges, a
`follow` does what it is for exactly where its guard on the count entries and the
counts themselves allow it, an `unfollow` does it always, and a list of choices
leads to the lists of the plain model exactly where each of its follows is
allowed. -/
theorem follow_unfollow_iff {σ : Type} {host : Host σ} {w : World σ}
    (hw : ReachableUnder host QuietRegistrations w) :
    (∀ env a b, Ready env w.store a b →
      ((∃ s', follow env w.store a b = .ok s' ∧ b ∈ followingOf s' a ∧ a ∈ followersOf s' b) ↔
        CanFollow w.store a b) ∧
      ∃ s', unfollow env w.store a b = .ok s' ∧ b ∉ followingOf s' a ∧ a ∉ followersOf s' b) ∧
    ∀ choices : List Choice, (∀ c ∈ choices, Ready c.env w.store c.follower c.followee) →
      ((∃ s', runChoices w.store choices = .ok s' ∧
          Shows s' (choices.foldl Choice.model (edgeSet w.store))) ↔
        FollowsMeet w.store choices) := by
  have hok := GraphOk.of_reachable hw
  refine ⟨fun env a b hready => ⟨?_, ?_⟩, fun choices hready => ?_⟩
  · rw [← exists_follow_iff hready]
    constructor
    · rintro ⟨s', hs', -⟩
      exact ⟨s', hs'⟩
    · rintro ⟨s', hs'⟩
      obtain ⟨hok', hedges, -⟩ := follow_effect hok hs'
      have hab : s'.graph.Edges a b := (hedges a b).mpr (Or.inr ⟨rfl, rfl⟩)
      exact ⟨s', hs', (mem_followingOf hok' hready.follower).mpr hab,
        (mem_followersOf hok' hready.followee).mpr hab⟩
  · obtain ⟨s', hs', hok', hedges, -⟩ := unfollow_effect hok hready
    have hab : ¬s'.graph.Edges a b := fun h => ((hedges a b).mp h).2 ⟨rfl, rfl⟩
    exact ⟨s', hs', fun h => hab ((mem_followingOf hok' hready.follower).mp h),
      fun h => hab ((mem_followersOf hok' hready.followee).mp h)⟩
  · rw [← exists_runChoices_iff hok hready]
    constructor
    · rintro ⟨s', hs', -⟩
      exact ⟨s', hs'⟩
    · rintro ⟨s', hs'⟩
      obtain ⟨hok', hedges⟩ := runChoices_effect hok hready hs'
      exact ⟨s', hs', hedges ▸ shows_edgeSet hok'⟩

/-- Two registered users and a stranger, before any of them follows anybody. -/
theorem follow_unfollow_iff_of_registered :
    ∃ w : World Book, ReachableUnder (bookHost linkora) QuietRegistrations w ∧
      Ready (signedAt 4) w.store alice carol ∧ CanFollow w.store alice carol ∧
      (∃ s', follow (signedAt 4) w.store alice carol = .ok s' ∧ carol ∈ followingOf s' alice ∧
        alice ∈ followersOf s' carol) ∧
      ∃ s', runChoices w.store [⟨signedAt 4, true, alice, carol⟩, ⟨signedAt 5, true, bob, carol⟩,
          ⟨signedAt 6, false, alice, carol⟩] = .ok s' ∧
        Shows s' ((insert (bob, carol) (insert (alice, carol) (edgeSet w.store))) \
          {(alice, carol)}) := by
  have hdemo : (demo QuietRegistrations (fun _ _ => 0)
      [(signedAt 2, .setProfile alice (asciiBytes "alice") coin),
        (signedAt 3, .setProfile carol (asciiBytes "carol") coin)]).map
        (fun w => (decide (Ready (signedAt 4) w.store alice carol),
          decide (Ready (signedAt 5) w.store bob carol),
          decide (Ready (signedAt 6) w.store alice carol),
          (follow (signedAt 4) w.store alice carol).toOption.isSome,
          (runChoices w.store [⟨signedAt 4, true, alice, carol⟩, ⟨signedAt 5, true, bob, carol⟩,
            ⟨signedAt 6, false, alice, carol⟩]).toOption.isSome)) =
      some (true, true, true, true, true) := by decide
  obtain ⟨w, hw, hsee⟩ := reachable_demo hdemo
  simp only [Prod.mk.injEq, decide_eq_true_eq, Option.isSome_iff_exists, toOption_eq_some] at hsee
  obtain ⟨hready, hready', hready'', hfollow, hrun⟩ := hsee
  have hall : ∀ c ∈ [(⟨signedAt 4, true, alice, carol⟩ : Choice), ⟨signedAt 5, true, bob, carol⟩,
      ⟨signedAt 6, false, alice, carol⟩], Ready c.env w.store c.follower c.followee := by
    simp only [List.mem_cons, List.not_mem_nil, or_false, forall_eq_or_imp, forall_eq]
    exact ⟨hready, hready', hready''⟩
  have hcan := (exists_follow_iff hready).mp hfollow
  have hmeet := (exists_runChoices_iff (GraphOk.of_reachable hw) hall).mp hrun
  obtain ⟨hone, hlist⟩ := follow_unfollow_iff hw
  exact ⟨w, hw, hready, hcan, (hone _ _ _ hready).1.mpr hcan, (hlist _ hall).mpr hmeet⟩

/-- Two registered users who follow and unfollow once cannot follow again: the
counts that became zero are gone. -/
theorem follow_not_repeatable :
    ¬∀ (w : World Book) (env : Env) (a b : Address), Reachable (bookHost linkora) w →
      Ready env w.store a b → ∃ s', follow env w.store a b = .ok s' := by
  intro hclaim
  have hdemo : (demo (fun _ _ _ => True) (fun _ _ => 0)
      [(signedAt 2, .setProfile alice (asciiBytes "alice") coin),
        (signedAt 3, .setProfile carol (asciiBytes "carol") coin),
        (signedAt 4, .follow alice carol), (signedAt 5, .unfollow alice carol)]).map
        (fun w => (decide (Ready (signedAt 6) w.store alice carol),
          (follow (signedAt 6) w.store alice carol).toOption.isSome)) =
      some (true, false) := by decide
  obtain ⟨w, hw, hsee⟩ := reachable_demo hdemo
  simp only [Prod.mk.injEq, decide_eq_true_eq] at hsee
  obtain ⟨hready, hfails⟩ := hsee
  obtain ⟨s', hs'⟩ := hclaim w (signedAt 6) alice carol hw.reachable hready
  rw [hs'] at hfails
  cases hfails

end Contract
end Linkora
