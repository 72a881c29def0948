import Linkora.Contract.FollowModel

/-!
# Migrating the legacy lists

`migrate_follow_graph` turns the legacy lists of each user into edges, once, and
removes the lists.  Run by itself it makes the union of what was recorded with what
was there.  A relation that both of its users had recorded waits in two lists, and
only the lists of the user who is migrated are removed, so the other list can bring
an edge back that has been removed in between.
-/

namespace Linkora
namespace Contract
namespace Graph

/-- The users a legacy list says `user` follows. -/
def followingList (g : Graph) (user : Address) : List Address :=
  (g.legacyFollowing.get user).getD []

/-- The users a legacy list says follow `user`. -/
def followersList (g : Graph) (user : Address) : List Address :=
  (g.legacyFollowers.get user).getD []

variable {g g' : Graph} {a b user : Address}

instance (g : Graph) (u v : Address) : Decidable (g.Edges u v) :=
  inferInstanceAs (Decidable (g.edge.has (u, v) = true))

/-- The legacy lists and the migration flags are the same. -/
structure SameLegacy (g g' : Graph) : Prop where
  following : g'.legacyFollowing = g.legacyFollowing
  followers : g'.legacyFollowers = g.legacyFollowers
  migrated : g'.graphMigrated = g.graphMigrated

theorem SameLegacy.refl (g : Graph) : g.SameLegacy g := ⟨rfl, rfl, rfl⟩

theorem SameLegacy.trans {g'' : Graph} (h : g.SameLegacy g') (h' : g'.SameLegacy g'') :
    g.SameLegacy g'' :=
  ⟨h'.following.trans h.following, h'.followers.trans h.followers,
    h'.migrated.trans h.migrated⟩

theorem link_sameLegacy (h : g.link a b = .ok g') : g.SameLegacy g' := by
  rcases link_cases h with ⟨-, rfl⟩ | ⟨-, h⟩
  · exact .refl g'
  · obtain rfl := addEdge_ok h
    exact ⟨rfl, rfl, rfl⟩

/-- Linking a list of pairs adds the edges of the list. -/
theorem foldlM_link (pair : Address → Address × Address) {l : List Address}
    (h : l.foldlM (fun g x => g.link (pair x).1 (pair x).2) g = .ok g') :
    g.SameLegacy g' ∧ ∀ u v, g'.Edges u v ↔ g.Edges u v ∨ ∃ x ∈ l, (u, v) = pair x := by
  induction l generalizing g with
  | nil =>
    rw [List.foldlM_nil, Checked.pure_eq_ok] at h
    subst h
    exact ⟨.refl g, fun u v => by simp⟩
  | cons x l ih =>
    rw [List.foldlM_cons, Checked.bind_eq_ok] at h
    obtain ⟨g₁, hg₁, h⟩ := h
    obtain ⟨hlegacy, hedges⟩ := ih h
    refine ⟨(link_sameLegacy hg₁).trans hlegacy, fun u v => ?_⟩
    rw [hedges, link_edges hg₁, List.exists_mem_cons_iff, or_assoc, ← Prod.mk.injEq]

theorem migrateFollowingList_effect (h : g.migrateFollowingList user = .ok g') :
    (∀ u v, g'.Edges u v ↔ g.Edges u v ∨ (u = user ∧ v ∈ g.followingList user)) ∧
      g'.legacyFollowing = g.legacyFollowing.remove user ∧
      g'.legacyFollowers = g.legacyFollowers ∧ g'.graphMigrated = g.graphMigrated := by
  rw [migrateFollowingList] at h
  split at h
  · rename_i list hlist
    simp only [Checked.bind_eq_ok, Checked.pure_eq_ok] at h
    obtain ⟨g₁, hg₁, rfl⟩ := h
    obtain ⟨hlegacy, hedges⟩ := foldlM_link (fun x => (user, x)) hg₁
    refine ⟨fun u v => ?_, ?_, hlegacy.followers, hlegacy.migrated⟩
    · show g₁.Edges u v ↔ _
      rw [hedges, followingList, hlist]
      simp [and_comm]
    · show g₁.legacyFollowing.remove user = _
      rw [hlegacy.following]
  · rename_i hnone
    rw [Except.ok.injEq] at h
    subst h
    refine ⟨fun u v => by simp [followingList, hnone], ?_, rfl, rfl⟩
    ext1 x
    rw [Store.get_remove]
    split
    · rename_i hx
      rw [hx, hnone]
    · rfl

theorem migrateFollowersList_effect (h : g.migrateFollowersList user = .ok g') :
    (∀ u v, g'.Edges u v ↔ g.Edges u v ∨ (v = user ∧ u ∈ g.followersList user)) ∧
      g'.legacyFollowing = g.legacyFollowing ∧
      g'.legacyFollowers = g.legacyFollowers.remove user ∧
      g'.graphMigrated = g.graphMigrated := by
  rw [migrateFollowersList] at h
  split at h
  · rename_i list hlist
    simp only [Checked.bind_eq_ok, Checked.pure_eq_ok] at h
    obtain ⟨g₁, hg₁, rfl⟩ := h
    obtain ⟨hlegacy, hedges⟩ := foldlM_link (fun x => (x, user)) hg₁
    refine ⟨fun u v => ?_, hlegacy.following, ?_, hlegacy.migrated⟩
    · show g₁.Edges u v ↔ _
      rw [hedges, followersList, hlist]
      simp [and_comm]
    · show g₁.legacyFollowers.remove user = _
      rw [hlegacy.followers]
  · rename_i hnone
    rw [Except.ok.injEq] at h
    subst h
    refine ⟨fun u v => by simp [followersList, hnone], rfl, ?_, rfl⟩
    ext1 x
    rw [Store.get_remove]
    split
    · rename_i hx
      rw [hx, hnone]
    · rfl

/-- What the migration of a user does to the edges, the lists and the flags. -/
structure Migrates (g : Graph) (user : Address) (g' : Graph) : Prop where
  edges : ∀ u v, g'.Edges u v ↔ g.Edges u v ∨ (u = user ∧ v ∈ g.followingList user) ∨
    (v = user ∧ u ∈ g.followersList user)
  following : g'.legacyFollowing = g.legacyFollowing.remove user
  followers : g'.legacyFollowers = g.legacyFollowers.remove user
  migrated : g'.graphMigrated = g.graphMigrated.set user true

theorem migrateUser_ok (h : g.migrateUser user = .ok g') :
    (g.graphMigrated.has user = true ∧ g' = g) ∨
      (g.graphMigrated.has user = false ∧ g.Migrates user g') := by
  rw [migrateUser] at h
  split at h
  · rename_i hflag
    rw [Except.ok.injEq] at h
    exact Or.inl ⟨hflag, h.symm⟩
  · rename_i hflag
    simp only [Checked.bind_eq_ok, Checked.pure_eq_ok] at h
    obtain ⟨g₁, hg₁, g₂, hg₂, rfl⟩ := h
    obtain ⟨hedges₁, hfollowing₁, hfollowers₁, hmigrated₁⟩ := migrateFollowingList_effect hg₁
    obtain ⟨hedges₂, hfollowing₂, hfollowers₂, hmigrated₂⟩ := migrateFollowersList_effect hg₂
    refine Or.inr ⟨Bool.not_eq_true _ ▸ hflag, fun u v => ?_, ?_, ?_, ?_⟩
    · show g₂.Edges u v ↔ _
      rw [hedges₂, hedges₁, or_assoc, followersList, hfollowers₁, followersList]
    · exact hfollowing₂.trans hfollowing₁
    · show g₂.legacyFollowers = _
      rw [hfollowers₂, hfollowers₁]
    · show g₂.graphMigrated.set user true = _
      rw [hmigrated₂, hmigrated₁]

/-! ## Migration alone -/

/-- What a migration of the users in `S`, and of nobody else, has made of `g₀`. -/
structure MigratedFrom (g₀ : Graph) (S : Address → Prop) (g : Graph) : Prop where
  edges : ∀ u v, g.Edges u v ↔ g₀.Edges u v ∨
    (S u ∧ g₀.graphMigrated.has u = false ∧ v ∈ g₀.followingList u) ∨
    (S v ∧ g₀.graphMigrated.has v = false ∧ u ∈ g₀.followersList v)
  migrated : ∀ u, g.graphMigrated.has u = true ↔ g₀.graphMigrated.has u = true ∨ S u
  following : ∀ u, ¬S u → g.followingList u = g₀.followingList u
  followers : ∀ u, ¬S u → g.followersList u = g₀.followersList u

theorem MigratedFrom.start (g : Graph) : g.MigratedFrom (fun _ => False) g :=
  ⟨fun u v => by simp, fun u => by simp, fun _ _ => rfl, fun _ _ => rfl⟩

theorem MigratedFrom.congr {S S' : Address → Prop} {g₀ : Graph} (h : g₀.MigratedFrom S g)
    (hS : ∀ u, S' u ↔ S u) : g₀.MigratedFrom S' g := by
  have : S' = S := funext fun u => propext (hS u)
  exact this ▸ h

theorem MigratedFrom.step {S : Address → Prop} {g₀ : Graph} (h : g₀.MigratedFrom S g)
    (hok : g.migrateUser user = .ok g') : g₀.MigratedFrom (fun u => S u ∨ u = user) g' := by
  rcases migrateUser_ok hok with ⟨hflag, rfl⟩ | ⟨hflag, hm⟩
  · -- A user who has been migrated is in `S` already, or was migrated before.
    have hdone := (h.migrated user).mp hflag
    refine ⟨fun u v => ?_, fun u => ?_, fun u hu => ?_, fun u hu => ?_⟩
    · rw [h.edges u v]
      have hswap : ∀ x, S x ∧ g₀.graphMigrated.has x = false ↔
          (S x ∨ x = user) ∧ g₀.graphMigrated.has x = false := by
        intro x
        refine and_congr_left fun hx => ⟨Or.inl, ?_⟩
        rintro (hS | rfl)
        · exact hS
        · exact hdone.resolve_left (by rw [hx]; exact Bool.false_ne_true)
      rw [← and_assoc, ← and_assoc, hswap u, hswap v, and_assoc, and_assoc]
    · rw [h.migrated u]
      constructor
      · rintro (hx | hS)
        · exact Or.inl hx
        · exact Or.inr (Or.inl hS)
      · rintro (hx | hS | rfl)
        · exact Or.inl hx
        · exact Or.inr hS
        · exact hdone
    · exact h.following u fun hS => hu (Or.inl hS)
    · exact h.followers u fun hS => hu (Or.inl hS)
  · have hnew : g₀.graphMigrated.has user = false ∧ ¬S user := by
      rw [← Bool.not_eq_true, ← not_or, ← h.migrated user, Bool.not_eq_true]
      exact hflag
    have hfollowing := h.following user hnew.2
    have hfollowers := h.followers user hnew.2
    refine ⟨fun u v => ?_, fun u => ?_, fun u hu => ?_, fun u hu => ?_⟩
    · rw [hm.edges, h.edges u v, hfollowing, hfollowers]
      have hleft : ∀ x (P : Prop), (S x ∨ x = user) ∧ g₀.graphMigrated.has x = false ∧ P ↔
          (S x ∧ g₀.graphMigrated.has x = false ∧ P) ∨ (x = user ∧ P) := by
        intro x P
        rw [or_and_right]
        refine or_congr_right (and_congr_right fun hx => ?_)
        rw [hx]
        exact and_iff_right hnew.1
      have hu : u = user ∧ v ∈ g₀.followingList u ↔ u = user ∧ v ∈ g₀.followingList user :=
        and_congr_right fun hx => by rw [hx]
      have hv : v = user ∧ u ∈ g₀.followersList v ↔ v = user ∧ u ∈ g₀.followersList user :=
        and_congr_right fun hx => by rw [hx]
      rw [hleft u, hleft v, hu, hv, or_assoc, or_or_or_comm]
    · rw [hm.migrated, Store.has_set]
      split
      · rename_i hx
        exact ⟨fun _ => Or.inr (Or.inr hx), fun _ => rfl⟩
      · rename_i hx
        rw [h.migrated u]
        refine or_congr_right ⟨Or.inl, fun hS => hS.resolve_right hx⟩
    · rw [followingList, hm.following, Store.get_remove_of_ne fun hx => hu (Or.inr hx)]
      exact h.following u fun hS => hu (Or.inl hS)
    · rw [followersList, hm.followers, Store.get_remove_of_ne fun hx => hu (Or.inr hx)]
      exact h.followers u fun hS => hu (Or.inl hS)

theorem MigratedFrom.batch {S : Address → Prop} {g₀ : Graph} {users : List Address}
    (h : g₀.MigratedFrom S g) (hok : users.foldlM migrateUser g = .ok g') :
    g₀.MigratedFrom (fun u => S u ∨ u ∈ users) g' := by
  induction users generalizing g S with
  | nil =>
    rw [List.foldlM_nil, Checked.pure_eq_ok] at hok
    exact hok ▸ h.congr fun u => by simp
  | cons user users ih =>
    rw [List.foldlM_cons, Checked.bind_eq_ok] at hok
    obtain ⟨g₁, hg₁, hok⟩ := hok
    exact (ih (h.step hg₁) hok).congr fun u => by rw [List.mem_cons, or_assoc]

/-- Users who have all been migrated are skipped. -/
theorem foldlM_migrateUser_of_migrated {users : List Address}
    (h : ∀ u ∈ users, g.graphMigrated.has u = true) : users.foldlM migrateUser g = .ok g := by
  induction users with
  | nil => rfl
  | cons user users ih =>
    have hskip : g.migrateUser user = .ok g := if_pos (h user List.mem_cons_self)
    rw [List.foldlM_cons, hskip]
    exact ih fun u hu => h u (List.mem_cons_of_mem user hu)

end Graph

/-- The users whom an action migrates. -/
def Action.migrants {σ : Type} : Action σ → List Address
  | .call _ (.migrateFollowGraph _ users) => users
  | _ => []

def Action.isMigration {σ : Type} : Action σ → Bool
  | .call _ (.migrateFollowGraph ..) => true
  | _ => false

variable {σ : Type}

/-- A run of migrations migrates the users of all its batches, one after another. -/
theorem foldlM_of_migrations {host : Host σ} {w w' : World σ} {acts : List (Action σ)}
    (hrun : Run (Step host) w acts w') (hacts : ∀ a ∈ acts, a.isMigration = true) :
    (acts.flatMap Action.migrants).foldlM Graph.migrateUser w.store.graph =
      .ok w'.store.graph := by
  induction hrun with
  | nil => rfl
  | @snoc acts w₁ w₂ a _ hstep ih =>
    have hpre := ih fun b hb => hacts b (List.mem_append_left [a] hb)
    have ha := hacts a (List.mem_append_right acts (List.mem_singleton_self a))
    cases hstep with
    | others => cases ha
    | @call _ env c he =>
      cases c with
      | migrateFollowGraph admin users =>
        obtain ⟨graph, hgraph, hs⟩ := migrateFollowGraph_ok (World.onStore_eq_ok.mp he).1
        have husers : [Action.call env (.migrateFollowGraph admin users)].flatMap
            (Action.migrants (σ := σ)) = users := List.append_nil users
        rw [List.flatMap_append, husers, List.foldlM_append, hpre, hs]
        exact hgraph
      | _ => cases ha

theorem Graph.MigratedFrom.run {host : Host σ} {w w' : World σ} {acts : List (Action σ)}
    (hrun : Run (Step host) w acts w') (hacts : ∀ a ∈ acts, a.isMigration = true) :
    w.store.graph.MigratedFrom (fun u => u ∈ acts.flatMap Action.migrants) w'.store.graph :=
  ((Graph.MigratedFrom.start _).batch (foldlM_of_migrations hrun hacts)).congr fun u => by simp

/-- From any storage with a well-formed graph and any legacy lists, a run of
successful migrations ends in a well-formed graph whose edges are the old ones and
those recorded by the users who had not been migrated; another run over the same
users ends in the same edges, whatever its batches; and migrating any of the users
again changes nothing. -/
theorem migration_is_union {host : Host σ} {w w' : World σ} {acts : List (Action σ)}
    (hwf : w.store.graph.WellFormed) (hacts : ∀ a ∈ acts, a.isMigration = true)
    (hrun : Run (Step host) w acts w') :
    w'.store.graph.WellFormed ∧
    (∀ u v, w'.store.graph.Edges u v ↔ w.store.graph.Edges u v ∨
      (u ∈ acts.flatMap Action.migrants ∧ w.store.graph.graphMigrated.has u = false ∧
        v ∈ w.store.graph.followingList u) ∨
      (v ∈ acts.flatMap Action.migrants ∧ w.store.graph.graphMigrated.has v = false ∧
        u ∈ w.store.graph.followersList v)) ∧
    (∀ acts₂ w₂, (∀ a ∈ acts₂, a.isMigration = true) → Run (Step host) w acts₂ w₂ →
      (∀ u, u ∈ acts₂.flatMap Action.migrants ↔ u ∈ acts.flatMap Action.migrants) →
      ∀ u v, w₂.store.graph.Edges u v ↔ w'.store.graph.Edges u v) ∧
    ∀ env admin users w'', (∀ u ∈ users, u ∈ acts.flatMap Action.migrants) →
      exec host env w' (.migrateFollowGraph admin users) = .ok w'' → w'' = w' := by
  have h := Graph.MigratedFrom.run hrun hacts
  refine ⟨hwf.migrate (foldlM_of_migrations hrun hacts), h.edges, ?_, ?_⟩
  · intro acts₂ w₂ hacts₂ hrun₂ hsame u v
    rw [(Graph.MigratedFrom.run hrun₂ hacts₂).edges u v, h.edges u v, hsame u, hsame v]
  · intro env admin users w'' husers he
    obtain ⟨hs, ht⟩ := World.onStore_eq_ok.mp he
    obtain ⟨graph, hgraph, hs⟩ := migrateFollowGraph_ok hs
    have hskip := Graph.foldlM_migrateUser_of_migrated fun u hu =>
      (h.migrated u).mpr (Or.inr (husers u hu))
    obtain rfl := Except.ok.inj (hskip.symm.trans hgraph)
    cases w''
    cases w'
    simp only at hs ht
    rw [hs, ht]

/-- A deployment that has taken over legacy lists, with `alice` as its admin. -/
def takenOver (following followers : Store Address (List Address)) : World Book where
  store := { State.empty with
    access := ⟨some true, some alice, some ((∅ : Store Address Nat).set alice 15), none, none,
      none⟩
    graph := ⟨∅, Index.empty, Index.empty, following, followers, ∅⟩ }
  tokens := fun _ _ => 0

/-- Lists with a repetition and with an entry that only one side has, in two batches
that share a user. -/
theorem migration_is_union_of_two_batches :
    ∃ w', Run (Step (bookHost linkora))
        (takenOver ((∅ : Store Address (List Address)).set alice [bob, carol, bob])
          ((∅ : Store Address (List Address)).set bob [carol]))
        [.call (signedAt 1) (.migrateFollowGraph alice [alice]),
          .call (signedAt 2) (.migrateFollowGraph alice [bob, alice])] w' ∧
      w'.store.graph.WellFormed ∧ w'.store.graph.Edges alice carol ∧
      w'.store.graph.Edges carol bob ∧ ¬w'.store.graph.Edges bob carol := by
  have hrun : (replay (bookHost linkora) (fun _ _ _ => True)
      [(signedAt 1, .migrateFollowGraph alice [alice]),
        (signedAt 2, .migrateFollowGraph alice [bob, alice])]
      (takenOver ((∅ : Store Address (List Address)).set alice [bob, carol, bob])
        ((∅ : Store Address (List Address)).set bob [carol]))).isSome = true := by decide
  obtain ⟨w', hw'⟩ := Option.isSome_iff_exists.mp hrun
  have hrun' := (run_of_replay hw').of_guarded
  obtain ⟨hwf, hedges, -⟩ := migration_is_union (Graph.WellFormed.empty.congr rfl rfl rfl)
    (by decide) hrun'
  exact ⟨w', hrun', hwf, (hedges _ _).mpr (by decide), (hedges _ _).mpr (by decide),
    fun h => absurd ((hedges _ _).mp h) (by decide)⟩

/-! ## Migration between the actions of users -/

namespace Graph

variable {g g' g'' : Graph} {a b user : Address}

/-- A legacy list that has not been migrated yet records that `u` follows `v`. -/
def Pending (g : Graph) (u v : Address) : Prop :=
  (g.graphMigrated.has u = false ∧ v ∈ g.followingList u) ∨
    (g.graphMigrated.has v = false ∧ u ∈ g.followersList v)

instance (g : Graph) (u v : Address) : Decidable (g.Pending u v) :=
  inferInstanceAs (Decidable (_ ∨ _))

/-- No edge of `g'` is new, and nothing is newly recorded. -/
structure Shrinks (g g' : Graph) : Prop where
  edges : ∀ u v, g'.Edges u v → g.Edges u v
  legacy : g.SameLegacy g'

theorem Shrinks.refl (g : Graph) : g.Shrinks g := ⟨fun _ _ h => h, .refl g⟩

theorem Shrinks.trans (h : g.Shrinks g') (h' : g'.Shrinks g'') : g.Shrinks g'' :=
  ⟨fun u v huv => h.edges u v (h'.edges u v huv), h.legacy.trans h'.legacy⟩

theorem SameLegacy.pending_iff (h : g.SameLegacy g') (u v : Address) :
    g'.Pending u v ↔ g.Pending u v := by
  unfold Pending followingList followersList
  rw [h.following, h.followers, h.migrated]

theorem unlink_ok (h : g.unlink a b = .ok g') :
    (∀ u v, g'.Edges u v ↔ g.Edges u v ∧ ¬(u = a ∧ v = b)) ∧ g.SameLegacy g' := by
  rcases unlink_cases h with ⟨hab, rfl⟩ | ⟨-, ix, ix', -, -, rfl⟩
  · refine ⟨fun u v => ⟨fun huv => ⟨huv, ?_⟩, And.left⟩, .refl g'⟩
    rintro ⟨rfl, rfl⟩
    exact hab huv
  · exact ⟨edges_remove rfl, rfl, rfl, rfl⟩

theorem unlink_shrinks (h : g.unlink a b = .ok g') : g.Shrinks g' :=
  ⟨fun u v huv => ((unlink_ok h).1 u v |>.mp huv).1, (unlink_ok h).2⟩

/-- A block leaves no edge between the two, in either direction. -/
theorem cleanupFollowOnBlock_ok (h : g.cleanupFollowOnBlock a b = .ok g') :
    g.Shrinks g' ∧ ¬g'.Edges a b ∧ ¬g'.Edges b a := by
  simp only [cleanupFollowOnBlock, Checked.bind_eq_ok] at h
  obtain ⟨g₁, hg₁, h⟩ := h
  have hback := unlink_shrinks h
  refine ⟨(unlink_shrinks hg₁).trans hback, fun hab => ?_, fun hba => ?_⟩
  · exact (((unlink_ok hg₁).1 a b).mp (hback.edges a b hab)).2 ⟨rfl, rfl⟩
  · exact (((unlink_ok h).1 b a).mp hba).2 ⟨rfl, rfl⟩

theorem cleanupFollower_shrinks {count : Nat} (h : cleanupFollower user count g = .ok g') :
    g.Shrinks g' := by
  simp only [cleanupFollower, Checked.bind_eq_ok, Checked.pure_eq_ok] at h
  obtain ⟨g₁, hg₁, rfl⟩ := h
  rcases detachFollower_ok hg₁ with ⟨-, rfl⟩ | ⟨follower, ix, -, -, rfl⟩
  · exact ⟨fun u v huv => huv, rfl, rfl, rfl⟩
  · exact ⟨fun u v huv => ((edges_remove rfl u v).mp huv).1, rfl, rfl, rfl⟩

theorem cleanupFollowing_shrinks {count : Nat} (h : cleanupFollowing user count g = .ok g') :
    g.Shrinks g' := by
  simp only [cleanupFollowing, Checked.bind_eq_ok, Checked.pure_eq_ok] at h
  obtain ⟨g₁, hg₁, rfl⟩ := h
  rcases detachFollowee_ok hg₁ with ⟨-, rfl⟩ | ⟨followee, ix, -, -, rfl⟩
  · exact ⟨fun u v huv => huv, rfl, rfl, rfl⟩
  · exact ⟨fun u v huv => ((edges_remove rfl u v).mp huv).1, rfl, rfl, rfl⟩

theorem cleanupUser_shrinks {maxEntries : Nat} {r : Nat × Nat × Nat × Graph}
    (h : g.cleanupUser user maxEntries = .ok r) : g.Shrinks r.2.2.2 := by
  simp only [cleanupUser, Checked.bind_eq_ok, Checked.pure_eq_ok] at h
  obtain ⟨⟨fCount, left, g₁⟩, hr₁, ⟨followingCount, left', g₂⟩, hr₂, rfl⟩ := h
  have h₁ : g.Shrinks g₁ := Checked.drain_invariant (P := fun _ b => g.Shrinks b)
    (fun _ _ _ hb hb' => hb.trans (cleanupFollower_shrinks hb')) (.refl g) hr₁
  have h₂ : (g₁.setFollowersCount user fCount).Shrinks g₂ :=
    Checked.drain_invariant (P := fun _ b => (g₁.setFollowersCount user fCount).Shrinks b)
      (fun _ _ _ hb hb' => hb.trans (cleanupFollowing_shrinks hb')) (.refl _) hr₂
  exact ⟨fun u v huv => h₁.edges u v (h₂.edges u v huv),
    h₂.legacy.following.trans h₁.legacy.following, h₂.legacy.followers.trans h₁.legacy.followers,
    h₂.legacy.migrated.trans h₁.legacy.migrated⟩

/-- Migration makes only edges that are recorded, and records nothing. -/
theorem migrateUser_pending (h : g.migrateUser user = .ok g') (u v : Address) :
    (g'.Edges u v → g.Edges u v ∨ g.Pending u v) ∧ (g'.Pending u v → g.Pending u v) := by
  rcases migrateUser_ok h with ⟨-, rfl⟩ | ⟨hflag, hm⟩
  · exact ⟨Or.inl, id⟩
  · have hflags : ∀ x, g'.graphMigrated.has x = false →
        x ≠ user ∧ g.graphMigrated.has x = false := by
      intro x hx
      rw [hm.migrated, Store.has_set] at hx
      split at hx
      · cases hx
      · rename_i hne
        exact ⟨hne, hx⟩
    constructor
    · intro huv
      rcases (hm.edges u v).mp huv with huv | ⟨rfl, hv⟩ | ⟨rfl, hu⟩
      · exact Or.inl huv
      · exact Or.inr (Or.inl ⟨hflag, hv⟩)
      · exact Or.inr (Or.inr ⟨hflag, hu⟩)
    · rintro (⟨hx, hv⟩ | ⟨hx, hu⟩)
      · obtain ⟨hne, hx⟩ := hflags u hx
        rw [followingList, hm.following, Store.get_remove_of_ne hne] at hv
        exact Or.inl ⟨hx, hv⟩
      · obtain ⟨hne, hx⟩ := hflags v hx
        rw [followersList, hm.followers, Store.get_remove_of_ne hne] at hu
        exact Or.inr ⟨hx, hu⟩

/-- There is no edge from `a` to `b`, and none waits to be migrated. -/
def Parted (g : Graph) (a b : Address) : Prop := ¬g.Edges a b ∧ ¬g.Pending a b

theorem Parted.migrate {users : List Address} (h : g.Parted a b)
    (hok : users.foldlM migrateUser g = .ok g') : g'.Parted a b := by
  refine Checked.foldlM_invariant (P := fun g => g.Parted a b) ?_ h hok
  intro user _ g₁ g₂ h₁ hok
  obtain ⟨hedges, hpending⟩ := migrateUser_pending hok a b
  exact ⟨fun hab => (hedges hab).elim h₁.1 h₁.2, fun hab => h₁.2 (hpending hab)⟩

theorem Parted.shrinks (h : g.Parted a b) (hs : g.Shrinks g') : g'.Parted a b :=
  ⟨fun hab => h.1 (hs.edges a b hab), fun hab => h.2 ((hs.legacy.pending_iff a b).mp hab)⟩

end Graph

/-- Only `follow` and the migration make edges. -/
theorem exec_shrinks {host : Host σ} {env : Env} {w w' : World σ} {c : Call}
    (he : exec host env w c = .ok w') (hfollow : ∀ a b, c ≠ .follow a b)
    (hmigrate : ∀ admin users, c ≠ .migrateFollowGraph admin users) :
    w.store.graph.Shrinks w'.store.graph := by
  cases c with
  | follow a b => exact absurd rfl (hfollow a b)
  | migrateFollowGraph admin users => exact absurd rfl (hmigrate admin users)
  | setProfile user username creatorToken =>
    obtain ⟨-, -, profiles, hs, -⟩ := setProfile_ok (World.onStore_eq_ok.mp he).1
    rw [hs]
    show w.store.graph.Shrinks (if _ then w.store.graph else w.store.graph.initCounts user)
    split
    · exact .refl _
    · exact ⟨fun u v huv => huv, rfl, rfl, rfl⟩
  | unfollow a b =>
    obtain ⟨-, -, -, -, -, graph, hgraph, hs⟩ := unfollow_eq_ok.mp (World.onStore_eq_ok.mp he).1
    rw [← hs]
    exact Graph.unlink_shrinks hgraph
  | blockUser a b =>
    obtain ⟨-, graph, hgraph, hs⟩ := blockUser_ok (World.onStore_eq_ok.mp he).1
    rw [hs]
    exact (Graph.cleanupFollowOnBlock_ok hgraph).1
  | batchCleanupProfile user maxEntries =>
    obtain ⟨fCount, followingCount, left, hgraph⟩ :=
      batchCleanupProfile_graph (World.onStore_eq_ok.mp he).1
    exact Graph.cleanupUser_shrinks hgraph
  | _ =>
    have hgraph' : w'.store.graph = w.store.graph :=
      exec_frame (p := .graph) he (by simp [Call.parts])
    rw [hgraph']
    exact .refl _

/-- The edges that a call is meant to remove. -/
def Call.severs : Call → List (Address × Address)
  | .unfollow follower followee => [(follower, followee)]
  | .blockUser blocker blocked => [(blocker, blocked), (blocked, blocker)]
  | _ => []

/-- Nobody removes an edge that still waits to be migrated. -/
def NothingPending : Condition := fun s _ c => ∀ p ∈ c.severs, ¬s.graph.Pending p.1 p.2

instance (s : State) (env : Env) (c : Call) : Decidable (NothingPending s env c) :=
  inferInstanceAs (Decidable (∀ p ∈ c.severs, ¬s.graph.Pending p.1 p.2))

theorem Graph.Parted.of_severs {host : Host σ} {env : Env} {w w' : World σ} {c : Call}
    {a b : Address} (hab : (a, b) ∈ c.severs) (hpending : ¬w.store.graph.Pending a b)
    (he : exec host env w c = .ok w') : w'.store.graph.Parted a b := by
  cases c with
  | unfollow x y =>
    obtain ⟨rfl, rfl⟩ := Prod.mk.inj (List.mem_singleton.mp hab)
    obtain ⟨-, -, -, -, -, graph, hgraph, hs⟩ := unfollow_eq_ok.mp (World.onStore_eq_ok.mp he).1
    obtain ⟨hedges, hlegacy⟩ := Graph.unlink_ok hgraph
    rw [← hs]
    exact ⟨fun h => ((hedges a b).mp h).2 ⟨rfl, rfl⟩,
      fun h => hpending ((hlegacy.pending_iff a b).mp h)⟩
  | blockUser x y =>
    obtain ⟨-, graph, hgraph, hs⟩ := blockUser_ok (World.onStore_eq_ok.mp he).1
    obtain ⟨hshrinks, hxy, hyx⟩ := Graph.cleanupFollowOnBlock_ok hgraph
    rw [hs]
    refine ⟨?_, fun h => hpending ((hshrinks.legacy.pending_iff a b).mp h)⟩
    rcases List.mem_cons.mp hab with h | h
    · obtain ⟨rfl, rfl⟩ := Prod.mk.inj h
      exact hxy
    · obtain ⟨rfl, rfl⟩ := Prod.mk.inj (List.mem_singleton.mp h)
      exact hyx
  | _ => cases hab

theorem Graph.Parted.call {host : Host σ} {env : Env} {w w' : World σ} {c : Call} {a b : Address}
    (h : w.store.graph.Parted a b) (hc : c ≠ .follow a b) (he : exec host env w c = .ok w') :
    w'.store.graph.Parted a b := by
  cases c with
  | follow x y =>
    obtain ⟨-, -, -, -, -, -, -, -, -, graph, hgraph, hs⟩ :=
      follow_eq_ok.mp (World.onStore_eq_ok.mp he).1
    rw [← hs]
    refine ⟨fun hab => ?_, fun hab => ?_⟩
    · rcases (Graph.link_edges hgraph a b).mp hab with hab | ⟨rfl, rfl⟩
      · exact h.1 hab
      · exact hc rfl
    · exact h.2 (((Graph.link_sameLegacy hgraph).pending_iff a b).mp hab)
  | migrateFollowGraph admin users =>
    obtain ⟨graph, hgraph, hs⟩ := migrateFollowGraph_ok (World.onStore_eq_ok.mp he).1
    rw [hs]
    exact h.migrate hgraph
  | _ => exact h.shrinks (exec_shrinks he (fun _ _ => nofun) (fun _ _ => nofun))

theorem Graph.Parted.run {host : Host σ} {w w' : World σ} {acts : List (Action σ)}
    {a b : Address} (h : w.store.graph.Parted a b) (hrun : Run (Step host) w acts w')
    (hacts : ∀ env, .call env (.follow a b) ∉ acts) : w'.store.graph.Parted a b := by
  induction hrun with
  | nil => exact h
  | @snoc acts w₁ w₂ act _ hstep ih =>
    have hpre := ih fun env hin => hacts env (List.mem_append_left [act] hin)
    cases hstep with
    | @call _ env c he =>
      refine hpre.call (fun hc => hacts env ?_) he
      rw [hc]
      exact List.mem_append_right acts (List.mem_singleton_self _)
    | others => exact hpre

/-- From any storage with any legacy lists, in every run in which nobody removes an
edge that still waits to be migrated: once `a` has unfollowed `b`, or one of the two
has blocked the other, there is no edge from `a` to `b` in any later state until `a`
follows `b` again, whatever has been migrated in between. -/
theorem migration_respects_severing {host : Host σ} {w₀ w : World σ}
    {before after : List (Action σ)} {env : Env} {c : Call} {a b : Address}
    (hrun : Run (Run.Guarded (Step host) NothingPending.Met) w₀ (before ++ .call env c :: after) w)
    (hab : (a, b) ∈ c.severs) (hagain : ∀ env, .call env (.follow a b) ∉ after) :
    ¬w.store.graph.Edges a b := by
  obtain ⟨w₁, w₂, -, ⟨hstep, hmet⟩, hafter⟩ := hrun.around
  cases hstep with
  | call he =>
    have hparted : w₂.store.graph.Parted a b := .of_severs hab (hmet (a, b) hab) he
    exact (hparted.run hafter.of_guarded hagain).1

/-- `bob` and `alice` both have it on record that `alice` follows `bob`. -/
def agreedRecord : World Book :=
  takenOver ((∅ : Store Address (List Address)).set alice [bob])
    ((∅ : Store Address (List Address)).set bob [alice])

/-- Both users have been migrated when `alice` unfollows `bob`. -/
theorem migration_respects_severing_when_migrated :
    ∃ w, Run (Run.Guarded (Step (bookHost linkora)) NothingPending.Met) agreedRecord
        ([.call (signedAt 1) (.migrateFollowGraph alice [alice, bob])] ++
          .call (signedAt 2) (.unfollow alice bob) ::
            [.call (signedAt 3) (.migrateFollowGraph alice [bob, carol])]) w ∧
      ¬w.store.graph.Edges alice bob := by
  have hrun : (replay (bookHost linkora) NothingPending
      [(signedAt 1, .migrateFollowGraph alice [alice, bob]), (signedAt 2, .unfollow alice bob),
        (signedAt 3, .migrateFollowGraph alice [bob, carol])] agreedRecord).isSome = true := by
    decide
  obtain ⟨w, hw⟩ := Option.isSome_iff_exists.mp hrun
  have hrun' : Run (Run.Guarded (Step (bookHost linkora)) NothingPending.Met) agreedRecord
      ([.call (signedAt 1) (.migrateFollowGraph alice [alice, bob])] ++
        .call (signedAt 2) (.unfollow alice bob) ::
          [.call (signedAt 3) (.migrateFollowGraph alice [bob, carol])]) w := run_of_replay hw
  refine ⟨w, hrun', migration_respects_severing hrun' (List.mem_singleton_self _) ?_⟩
  intro env hin
  cases List.mem_singleton.mp hin

/-- What one user has on record, the other has too. -/
def Graph.RecordsAgree (g : Graph) : Prop :=
  ∀ u v, v ∈ g.followingList u ↔ u ∈ g.followersList v

theorem agreedRecord_agrees : agreedRecord.store.graph.RecordsAgree := by
  intro u v
  show v ∈ (((∅ : Store Address (List Address)).set alice [bob]).get u).getD [] ↔
    u ∈ (((∅ : Store Address (List Address)).set bob [alice]).get v).getD []
  rw [Store.get_set, Store.get_set]
  by_cases hu : u = alice
  · by_cases hv : v = bob
    · simp [hu, hv]
    · simp [hu, hv]
  · by_cases hv : v = bob
    · simp [hu, hv]
    · simp [hu, hv]

/-- `alice` is migrated and unfollows `bob`, and the migration of `bob` brings the
edge back. -/
theorem migration_undoes_unfollow :
    ¬∀ (w₀ w w' : World Book) (before after : List (Action Book)) (env env' : Env) (c : Call)
      (a b admin : Address) (users : List Address),
      w₀.store.graph.WellFormed → w₀.store.graph.RecordsAgree → w₀.store.graph.Pending a b →
      Run (Step (bookHost linkora)) w₀ (before ++ .call env c :: after) w →
      (a, b) ∈ c.severs → (∀ env, .call env (.follow a b) ∉ after) →
      exec (bookHost linkora) env' w (.migrateFollowGraph admin users) = .ok w' →
      ¬w.store.graph.Edges a b → ¬w'.store.graph.Edges a b := by
  intro hclaim
  have hrun : ((replay (bookHost linkora) (fun _ _ _ => True)
      [(signedAt 1, .migrateFollowGraph alice [alice]), (signedAt 2, .unfollow alice bob)]
      agreedRecord).bind fun w =>
        (exec (bookHost linkora) (signedAt 3) w (.migrateFollowGraph alice [bob])).toOption.map
          fun w' => (w.store.graph.edge.has (alice, bob), w'.store.graph.edge.has (alice, bob))) =
      some (false, true) := by decide
  obtain ⟨w, hw, hrun⟩ := Option.bind_eq_some_iff.mp hrun
  obtain ⟨w', hw', hsee⟩ := Option.map_eq_some_iff.mp hrun
  obtain ⟨hbefore, hafter⟩ := Prod.mk.inj hsee
  refine hclaim agreedRecord w w'
    [.call (signedAt 1) (.migrateFollowGraph alice [alice])] [] (signedAt 2) (signedAt 3)
    (.unfollow alice bob) alice bob alice [bob] (Graph.WellFormed.empty.congr rfl rfl rfl)
    agreedRecord_agrees (by decide) (run_of_replay hw).of_guarded (List.mem_singleton_self _)
    (fun _ => List.not_mem_nil) (toOption_eq_some.mp hw') ?_ hafter
  rw [Graph.Edges, hbefore]
  exact Bool.false_ne_true

end Contract
end Linkora
