import Linkora.Indexer.StateRoot
import Linkora.Indexer.Strkey
import Linkora.Indexer.Tracking

/-!
# The indexer as a mirror of the chain

The events that each call publishes are delivered in order, once each, before the next call.
After every call the table of follows is then the follow graph and the counters of the posts are
those of the contract, as long as no call takes edges or likes away without an event, no tip
pays a fee or shares its transaction with another tip, and no tip or like goes to a post that
was removed and brought back.
-/

namespace Linkora
namespace Indexer

open Contract (Address Book Call Env Event Host PostsIndexed Reachable Started State TakesNothing
  World alice bob bookHost carol coin exec getFeeBps linkora signedAt tipFee)

/-- The follows are the edges, and each stored post has a row with its counters. -/
structure Mirrors (t : Texts) (s : State) (db : Db) : Prop where
  follows : ∀ x y, (x, y) ∈ db.follows ↔
    ∃ a b, x = t.address a ∧ y = t.address b ∧ s.graph.Edges a b
  posts : ∀ id post, s.posts.post.get id = some post →
    ∃ row, db.social.posts.lookup id = some row ∧
      row.tipTotal = post.tipTotal ∧ row.likeCount = post.likeCount

/-- What the tables have to record for the next call to keep them a mirror. -/
structure Tracked (t : Texts) (s : State) (db : Db) : Prop where
  follows : FollowsTracked t s.graph db.follows
  posts : PostsTracked t s.postView s.events db.social

theorem Tracked.mirrors {t : Texts} {s : State} {db : Db} (h : Tracked t s db) :
    Mirrors t s db where
  follows := h.follows
  posts id post hp := by
    obtain ⟨row, hrow, htips, hlikes, -⟩ := h.posts.row id post (Or.inl hp)
    exact ⟨row, hrow, htips, hlikes⟩

/-- What a call has to find in the storage and in the tables for the tables to follow it. -/
def Followable (s : State) (db : Db) (txHash : String) : Call → Prop
  | .createPost .. | .commitPost .. => s.posts.lastId + 1 ≤ BIGINT_MAX
  | .batchCreatePost _ contents => s.posts.lastId + contents.length ≤ BIGINT_MAX
  | .likePost user id => s.likes.like.has (id, user) = true ∨
      (removedIn s.events id = false ∧ ¬db.social.LikedIn txHash ∧
        ∀ post ∈ s.posts.post.get id, post.likeCount + 1 ≤ BIGINT_MAX)
  | .tip _ id _ amount =>
    amount * getFeeBps s < 10000 ∧ txHash ∉ db.social.tips ∧ removedIn s.events id = false ∧
      amount ≤ BIGINT_MAX ∧ ∀ post ∈ s.posts.post.get id, post.tipTotal + amount ≤ BIGINT_MAX
  | c => TakesNothing s c

instance (s : State) (db : Db) (txHash : String) (c : Call) :
    Decidable (Followable s db txHash c) :=
  match c with
  | .createPost .. | .batchCreatePost .. | .commitPost .. => inferInstanceAs (Decidable (_ ≤ _))
  | .likePost .. => inferInstanceAs (Decidable (_ ∨ _))
  | .tip .. => inferInstanceAs (Decidable (_ ∧ _))
  | .blockUser blocker blocked =>
    inferInstanceAs (Decidable (TakesNothing s (.blockUser blocker blocked)))
  | .batchCleanupProfile user maxEntries =>
    inferInstanceAs (Decidable (TakesNothing s (.batchCleanupProfile user maxEntries)))
  | .initializeContract .. | .grantRole .. | .revokeRole .. | .setProfile ..
  | .deleteProfile .. | .setCredentialAuthority ..
  | .updateCredentialRoot .. | .verifyCredential .. | .pruneNullifiers ..
  | .publishDmKey .. | .follow .. | .unfollow .. | .migrateFollowGraph ..
  | .unblockUser .. | .setPostContentHash .. | .revealPost .. | .deletePost ..
  | .batchCleanupPost .. | .createPool .. | .poolDeposit .. | .poolWithdraw ..
  | .addPoolAdmin .. | .removePoolAdmin .. | .updatePoolThreshold .. | .setFee ..
  | .setTreasury .. | .setTipCooldownWindow .. | .govInitConfig .. | .govPropose ..
  | .govVote .. | .govDelegate .. | .govRevokeDelegation .. | .govExecute .. | .govVeto ..
  | .registerOracle .. | .verifyAnalyticsAttestation .. | .upgrade .. | .payRent ..
  | .setRentRateBps .. | .batchBumpUserGraph .. | .reportPost .. | .reviewReport ..
  | .appealModeration .. | .reviewAppeal .. | .pause .. | .unpause .. | .pauseModule ..
  | .unpauseModule .. =>
    isTrue trivial

/-! ## One event -/

section Events

variable {t : Texts} {ledger : Nat} {txHash : String} {s s' : State} {db : Db}

/-- From `s` to `s'` events are published whose delivery brings the tables along. -/
def Advances (t : Texts) (ledger : Nat) (txHash : String) (s s' : State) (db : Db) : Prop :=
  ∃ es, s'.events = s.events ++ es ∧ Tracked t s' (db.deliverAll t ledger txHash es)

theorem Advances.quiet (h : Tracked t s db) (hq : s.Quiet s')
    (hedge : s'.graph.edge = s.graph.edge) (hk : s.postView.Kept s'.postView) :
    Advances t ledger txHash s s' db := by
  obtain ⟨es, hes, hquiet⟩ := hq
  obtain ⟨hfollows, hsocial⟩ := Db.deliverAll_quiet t ledger txHash hquiet db
  refine ⟨es, hes, ?_, ?_⟩
  · rw [hfollows]
    exact h.follows.congr hedge
  · rw [hsocial, hes]
    exact h.posts.kept hk es

theorem Advances.trans {s'' : State} (h : Advances t ledger txHash s s' db)
    (hnext : ∀ db, Tracked t s' db → Advances t ledger txHash s' s'' db) :
    Advances t ledger txHash s s'' db := by
  obtain ⟨es, hes, htracked⟩ := h
  obtain ⟨es', hes', htracked'⟩ := hnext _ htracked
  refine ⟨es ++ es', by rw [hes', hes, List.append_assoc], ?_⟩
  rw [Db.deliverAll_append]
  exact htracked'

/-- One event that follows have nothing to do with. -/
theorem Advances.event {e : Event} (h : Tracked t s db) (hes : s'.events = s.events ++ [e])
    (hedge : s'.graph.edge = s.graph.edge)
    (hfollows : Db.writeFollows db.follows (ingest t ledger txHash e) = db.follows)
    (hrefuses : db.social.refuses (ingest t ledger txHash e) = false)
    (hmissing : (EventBody.ofEvent t e).missing = none)
    (hposts : PostsTracked t s'.postView (s.events ++ [e])
      (Db.writePosts db.social (ingest t ledger txHash e))) :
    Advances t ledger txHash s s' db := by
  refine ⟨[e], hes, ?_, ?_⟩
  · show FollowsTracked t s'.graph (db.deliver (ingest t ledger txHash e)).follows
    rw [Db.deliver_follows hfollows]
    exact h.follows.congr hedge
  · show PostsTracked t s'.postView s'.events (db.deliver (ingest t ledger txHash e)).social
    rw [Db.deliver_eq hrefuses hmissing, hes]
    exact hposts

/-- One event that posts have nothing to do with. -/
theorem Advances.relation {e : Event} (h : Tracked t s db) (hes : s'.events = s.events ++ [e])
    (hview : s'.postView = s.postView)
    (hsocial : Db.writePosts db.social (ingest t ledger txHash e) = db.social)
    (hrefuses : db.social.refuses (ingest t ledger txHash e) = false)
    (hmissing : (EventBody.ofEvent t e).missing = none)
    (hfollows : FollowsTracked t s'.graph
      (Db.writeFollows db.follows (ingest t ledger txHash e))) :
    Advances t ledger txHash s s' db := by
  refine ⟨[e], hes, ?_, ?_⟩
  · show FollowsTracked t s'.graph (db.deliver (ingest t ledger txHash e)).follows
    rw [Db.deliver_eq hrefuses hmissing]
    exact hfollows
  · show PostsTracked t s'.postView s'.events (db.deliver (ingest t ledger txHash e)).social
    rw [Db.deliver_social hsocial, hview, hes]
    exact h.posts.kept (.refl _) [e]

/-- Neither end of a follow is written as the empty text. -/
theorem missing_follow (t : Texts) (a b : Address) :
    (EventBody.ofEvent t (.follow a b)).missing = none ∧
      (EventBody.ofEvent t (.unfollow a b)).missing = none := by
  simp [EventBody.ofEvent, EventBody.missing, t.address_ne_empty]

theorem refuses_tip {row : PostRow} {id : Nat} (hrow : db.social.posts.lookup id = some row)
    {tipper : String} {amount : Int} (hamount : amount ≤ BIGINT_MAX)
    (hsum : row.tipTotal + amount ≤ BIGINT_MAX) :
    db.social.refuses ⟨ledger, txHash, .tip tipper id amount 0⟩ = false := by
  have hzero : (0 : Int) ≤ BIGINT_MAX := by decide
  simp only [PostTables.refuses, hrow, Option.all_some, Bool.or_eq_false_iff,
    Bool.and_eq_false_iff, decide_eq_false_iff_not, not_lt]
  exact ⟨⟨hamount, hzero⟩, Or.inr (Or.inr hsum)⟩

theorem refuses_like {row : PostRow} {id : Nat} (hrow : db.social.posts.lookup id = some row)
    {user : String} (htx : ¬db.social.LikedIn txHash)
    (hcount : ((row.likeCount + 1 : Nat) : Int) ≤ BIGINT_MAX) :
    db.social.refuses ⟨ledger, txHash, .like user id⟩ = false := by
  simp only [PostTables.refuses, hrow, Option.all_some, Bool.and_eq_false_iff,
    Bool.or_eq_false_iff, decide_eq_false_iff_not, not_lt]
  exact Or.inr ⟨htx, Or.inr hcount⟩

end Events

/-! ## One call -/

section Calls

variable {t : Texts} {txHash : String} {σ : Type} {host : Host σ} {env : Env} {w w' : World σ}
  {s : State} {db : Db}

/-- A created post has no fee, no like and no removal to go wrong. -/
theorem Tracked.insertPost {author : Address} {content : Contract.Bytes} {q : Nat × State}
    (h : Tracked t s db) (hix : PostsIndexed s.postView) (hmax : s.posts.lastId + 1 ≤ BIGINT_MAX)
    (hq : Contract.insertPost env s author content = .ok q) :
    Advances t env.sequence txHash s q.2 db := by
  obtain ⟨post, hid, -, -, htips, hlikes, -, hs⟩ := Contract.insertPost_ok hq
  have hrefuses : db.social.refuses
      (ingest t env.sequence txHash (.postCreated post.id author)) = false := by
    have hid : (post.id : Int) ≤ BIGINT_MAX := by
      rw [hid]
      exact_mod_cast hmax
    exact decide_eq_false (not_lt.mpr hid)
  rw [hs]
  exact .event h rfl rfl rfl hrefuses rfl
    (h.posts.insertPost hix hid htips hlikes (t.address author) "" _)

theorem tipFee_eq_zero {amount fee : Int} {feeBps : Nat} (hpos : 0 < amount)
    (hsmall : amount * feeBps < 10000) (h : tipFee amount feeBps = .ok fee) : fee = 0 := by
  simp only [tipFee, Checked.bind_eq_ok, Contract.i128_eq_ok] at h
  obtain ⟨-, ⟨-, rfl⟩, -, ⟨-, rfl⟩, -, rfl⟩ := h
  rcases Nat.eq_zero_or_pos feeBps with hzero | hbps
  · rw [hzero]
    simp
  · have hbps : (1 : Int) ≤ feeBps := by exact_mod_cast hbps
    have hle : amount * 1 ≤ amount * feeBps := Int.mul_le_mul_of_nonneg_left hbps hpos.le
    have hlt : amount < 10000 := by omega
    have hnonneg : 0 ≤ amount * feeBps := by omega
    rw [Int.tdiv_eq_zero_of_lt hpos.le hlt, Int.tmod_eq_of_lt hpos.le hlt,
      Int.tdiv_eq_zero_of_lt hnonneg hsmall, zero_mul, add_zero]

theorem Tracked.tip {tipper token : Address} {id : Nat} {amount : Int} (h : Tracked t w.store db)
    (hix : PostsIndexed w.store.postView)
    (hc : Followable w.store db txHash (.tip tipper id token amount))
    (he : exec host env w (.tip tipper id token amount) = .ok w') :
    Advances t env.sequence txHash w.store w'.store db := by
  obtain ⟨hsmall, htx, hremoved, hamount, hsum⟩ := hc
  obtain ⟨-, hpos, post, tips, fee, tipTotal, paid, tokens, hpost, hfee, htotal, -, -, rfl⟩ :=
    Contract.tip_ok he
  obtain rfl := tipFee_eq_zero hpos hsmall hfee
  obtain ⟨row, hrow, htips, -, -⟩ := h.posts.row id post (Or.inl hpost)
  have hfits : row.tipTotal + amount ≤ BIGINT_MAX := by
    rw [htips]
    exact hsum post hpost
  rw [Int.sub_zero] at htotal
  subst htotal
  exact .event h rfl rfl rfl (refuses_tip hrow hamount hfits) rfl
    (h.posts.handleTip hix hpost hremoved htx (t.address tipper) amount _)

theorem Tracked.likePost {user : Address} {id : Nat} (h : Tracked t w.store db)
    (hix : PostsIndexed w.store.postView)
    (hc : Followable w.store db txHash (.likePost user id))
    (he : exec host env w (.likePost user id) = .ok w') :
    Advances t env.sequence txHash w.store w'.store db := by
  rcases Contract.likePost_ok (Contract.World.onStore_eq_ok.mp he).1 with
    ⟨-, hs⟩ | ⟨post, hnew, hpost, -, -, hs⟩
  · rw [hs]
    exact .quiet h (State.Minor.same rfl).quiet rfl (.refl _)
  · rcases hc with hliked | ⟨hremoved, htx, hmax⟩
    · rw [hnew] at hliked
      cases hliked
    · obtain ⟨row, hrow, -, hlikes, -⟩ := h.posts.row id post (Or.inl hpost)
      have hfits : ((row.likeCount + 1 : Nat) : Int) ≤ BIGINT_MAX := by
        rw [hlikes]
        exact_mod_cast hmax post hpost
      rw [hs]
      exact .event h rfl rfl rfl (refuses_like hrow htx hfits) rfl
        (h.posts.handleLike hix hpost hremoved hnew txHash _)

theorem Tracked.batchCreatePost {author : Address} {contents : List Contract.Bytes}
    {r : List Nat × State} (h : Tracked t s db) (hix : PostsIndexed s.postView)
    (hmax : s.posts.lastId + contents.length ≤ BIGINT_MAX)
    (hr : Contract.batchCreatePost env s author contents = .ok r) :
    Advances t env.sequence txHash s r.2 db := by
  have hzero := (Contract.batchCreatePost_ok hr).2.1
  refine (Contract.batchCreatePost_counted hr (P := fun n s' =>
    PostsIndexed s'.postView ∧ s'.posts.lastId = s.posts.lastId + n ∧
      Advances t env.sequence txHash s s' db) ?_
    ⟨hix, rfl, .quiet h (State.Minor.same rfl).quiet rfl (.refl _)⟩).2.2
  intro n s' content q hn hs' hq
  obtain ⟨hix', hlast, hadvances⟩ := hs'
  have hedit : Contract.PostEdit false s'.postView q.2.postView :=
    Contract.insertPost_edit hzero hq
  refine ⟨hix'.edit hedit, ?_, ?_⟩
  · rw [(Contract.insertPost_id hq).2, hlast]
    rfl
  · refine hadvances.trans fun db' hdb' => hdb'.insertPost hix' ?_ hq
    rw [hlast]
    push_cast
    omega

theorem Tracked.commitPost {author : Address} {contentHash : Contract.Bytes32} {revealTime : Nat}
    {r : Nat × State} (h : Tracked t s db) (hix : PostsIndexed s.postView)
    (hmax : s.posts.lastId + 1 ≤ BIGINT_MAX)
    (hr : Contract.commitPost env s author contentHash revealTime = .ok r) :
    Advances t env.sequence txHash s r.2 db := by
  obtain ⟨-, -, q, hq, rfl⟩ := Contract.commitPost_ok hr
  refine (h.insertPost hix hmax hq).trans fun db' hdb' => ?_
  exact .quiet hdb' (State.Minor.one rfl rfl).quiet rfl (.of_holds rfl rfl fun _ _ hp => hp)

theorem Tracked.follow {a b : Address} (h : Tracked t w.store db)
    (he : exec host env w (.follow a b) = .ok w') :
    Advances t env.sequence txHash w.store w'.store db := by
  obtain ⟨-, -, -, -, -, -, -, -, -, graph, hgraph, hs⟩ :=
    Contract.follow_eq_ok.mp (Contract.World.onStore_eq_ok.mp he).1
  rw [← hs]
  exact .relation h rfl rfl rfl rfl (missing_follow t a b).1
    (h.follows.follow hgraph env.sequence)

theorem Tracked.unfollow {a b : Address} (h : Tracked t w.store db)
    (he : exec host env w (.unfollow a b) = .ok w') :
    Advances t env.sequence txHash w.store w'.store db := by
  obtain ⟨-, -, -, -, -, graph, hgraph, hs⟩ :=
    Contract.unfollow_eq_ok.mp (Contract.World.onStore_eq_ok.mp he).1
  rw [← hs]
  exact .relation h rfl rfl rfl rfl (missing_follow t a b).2 (h.follows.unfollow hgraph)

/-- The deleted post is gone, so nothing is asked of its row any more. -/
theorem Tracked.deletePost {author : Address} {id : Nat} (h : Tracked t w.store db)
    (hix : PostsIndexed w.store.postView)
    (he : exec host env w (.deletePost author id) = .ok w') :
    Advances t env.sequence txHash w.store w'.store db := by
  have hkept : w.store.postView.Kept w'.store.postView := .of_exec he hix trivial rfl
  obtain ⟨post, hpost, -, hs⟩ :=
    Contract.deletePost_ok (Contract.World.onStore_eq_ok.mp he).1
  have hgone : ∀ p, ¬w'.store.postView.Holds id p := by
    rw [hs]
    intro p hp
    rcases hp with hp | hp
    · exact absurd ((Store.get_remove_self _ id).symm.trans hp) nofun
    · exact absurd rfl (hix.ne_of_removed hpost hp)
  have hmarked := (h.posts.kept hkept [.postDeleted id author]).markPostDeleted
    (fun p hp => absurd hp (hgone p)) env.sequence
  rw [hs] at hmarked ⊢
  exact .event h rfl rfl rfl rfl rfl hmarked

theorem Tracked.reviewReport {moderator reporter : Address} {signers : List Address} {id : Nat}
    {verdict : Contract.ReportStatus} (h : Tracked t w.store db)
    (hix : PostsIndexed w.store.postView) (hloop : w.store.graph.Loopless)
    (he : exec host env w (.reviewReport moderator signers id reporter verdict) = .ok w') :
    Advances t env.sequence txHash w.store w'.store db := by
  have hkept : w.store.postView.Kept w'.store.postView := .of_exec he hix trivial rfl
  have hedge := Contract.exec_edges he hloop trivial (fun _ _ => nofun) (fun _ _ => nofun)
  obtain ⟨e, hes, ⟨reporter, rfl⟩ | he⟩ := Contract.reviewReport_event he
  · have hremoved : removedIn (w.store.events ++ [.postRemovedByModeration id reporter]) id =
        true := by
      simp [removedIn]
    exact .event h hes hedge rfl rfl rfl
      ((h.posts.kept hkept _).markPostDeleted (fun _ _ => hremoved) env.sequence)
  · exact .quiet h (State.Minor.one hes he).quiet hedge hkept

/-- Where a call finds what it has to find, its events bring the tables along. -/
theorem Tracked.call {c : Call} (hreach : Reachable host w) (h : Tracked t w.store db)
    (hc : Followable w.store db txHash c) (he : exec host env w c = .ok w') :
    Advances t env.sequence txHash w.store w'.store db := by
  have hix : PostsIndexed w.store.postView := .of_reachable hreach
  have hloop : w.store.graph.Loopless := .of_reachable hreach
  cases c with
  | follow a b => exact h.follow he
  | unfollow a b => exact h.unfollow he
  | createPost author content =>
    obtain ⟨q, hq, hqs⟩ := Checked.map_eq_ok.mp (Contract.World.onStore_eq_ok.mp he).1
    rw [← hqs]
    exact h.insertPost hix hc (Contract.createPost_ok hq).2.2
  | batchCreatePost author contents =>
    obtain ⟨r, hr, hrs⟩ := Checked.map_eq_ok.mp (Contract.World.onStore_eq_ok.mp he).1
    rw [← hrs]
    exact h.batchCreatePost hix hc hr
  | commitPost author contentHash revealTime =>
    obtain ⟨r, hr, hrs⟩ := Checked.map_eq_ok.mp (Contract.World.onStore_eq_ok.mp he).1
    rw [← hrs]
    exact h.commitPost hix hc hr
  | deletePost author id => exact h.deletePost hix he
  | likePost user id => exact h.likePost hix hc he
  | tip tipper id token amount => exact h.tip hix hc he
  | reviewReport moderator signers id reporter verdict => exact h.reviewReport hix hloop he
  | _ =>
    exact .quiet h (Contract.exec_quiet he rfl)
      (Contract.exec_edges he hloop hc (fun _ _ => nofun) (fun _ _ => nofun))
      (.of_exec he hix hc rfl)

end Calls

/-! ## Runs -/

/-- A call, with the hash of the transaction it is made in, or a change of the token contracts. -/
inductive Action (σ : Type) where
  | call (env : Env) (c : Call) (txHash : String)
  | others (tokens : σ)

section Runs

variable {σ : Type} (t : Texts) (host : Host σ)

/-- After a call the events that it published are delivered. -/
inductive Step : World σ × Db → Action σ → World σ × Db → Prop where
  | call {w w' : World σ} {db : Db} {env : Env} {c : Call} {txHash : String} :
      exec host env w c = .ok w' →
      Step (w, db) (.call env c txHash) (w', db.deliverAll t env.sequence txHash
        (w'.store.events.drop w.store.events.length))
  | others {w : World σ} {db : Db} {tokens : σ} :
      host.others w.tokens tokens → Step (w, db) (.others tokens) ({ w with tokens }, db)

/-- The calls of a run find what they have to find. -/
def AllFollowable : World σ × Db → Action σ → Prop
  | (w, db), .call _ c txHash => Followable w.store db txHash c
  | _, .others _ => True

variable {t host}

/-- Initialisation creates neither edges nor posts. -/
theorem Tracked.start {w : World σ} (h : Started w) (ledger : Nat) (txHash : String) :
    Tracked t w.store (Db.empty.deliverAll t ledger txHash w.store.events) := by
  obtain ⟨env, admin, treasury, feeBps, hs⟩ := h
  have hempty : Tracked t State.empty Db.empty := by
    refine ⟨fun x y => ⟨fun hxy => absurd hxy Finmap.notMem_empty, ?_⟩, ?_⟩
    · intro hab
      obtain ⟨a, b, -, -, hedge⟩ := hab
      cases hedge
    · refine ⟨fun id post hp => ?_, fun id hid => absurd hid Finmap.notMem_empty,
        fun id post u hp => ?_, fun id x hx => absurd hx Finmap.notMem_empty⟩
      · exact hp.elim nofun nofun
      · exact hp.elim nofun nofun
  have hadvances : Advances t ledger txHash State.empty w.store Db.empty := by
    obtain ⟨-, -, access, events, hstore⟩ := Contract.initializeContract_ok hs
    refine .quiet hempty (Contract.initializeContract_minor hs).quiet ?_ ?_
    · rw [hstore]
    · rw [hstore]
      exact .refl _
  obtain ⟨es, hes, htracked⟩ := hadvances
  have hlog : w.store.events = es := hes
  rw [hlog]
  exact htracked

/-- In every run whose calls find what they have to find, whatever the order of the calls and
however they share transactions, the tables mirror the storage after each call. -/
theorem indexer_mirrors_chain {w₀ w : World σ} {db : Db} {ledger : Nat} {txHash : String}
    {acts : List (Action σ)} (hstart : Started w₀)
    (hrun : Run (Run.Guarded (Step t host) AllFollowable)
      (w₀, Db.empty.deliverAll t ledger txHash w₀.store.events) acts (w, db)) :
    Mirrors t w.store db := by
  have hinv : Reachable host w ∧ Tracked t w.store db := by
    refine hrun.invariant (I := fun p => Reachable host p.1 ∧ Tracked t p.1.store p.2) ?_
      ⟨⟨w₀, [], hstart, .nil⟩, .start hstart ledger txHash⟩
    intro p a q hp hstep
    obtain ⟨hreach, htracked⟩ := hp
    obtain ⟨hstep, hmet⟩ := hstep
    cases hstep with
    | call he =>
      obtain ⟨es, hes, htracked'⟩ := htracked.call hreach hmet he
      refine ⟨hreach.run (.single (.call he)), ?_⟩
      show Tracked t _ (Db.deliverAll t _ _ _ (List.drop _ _))
      rw [hes, List.drop_left]
      exact htracked'
    | others ho => exact ⟨hreach.run (.single (.others ho)), htracked⟩
  exact hinv.2.mirrors

instance (p : World σ × Db) (a : Action σ) : Decidable (AllFollowable p a) := by
  obtain ⟨w, db⟩ := p
  cases a with
  | call env c txHash => exact inferInstanceAs (Decidable (Followable w.store db txHash c))
  | others tokens => exact isTrue trivial

/-- Run the calls one after another, as long as each meets `C` and succeeds. -/
def replay (t : Texts) (host : Host σ) (C : World σ × Db → Action σ → Prop)
    [∀ p a, Decidable (C p a)] :
    List (Env × Call × String) → World σ × Db → Option (World σ × Db)
  | [], p => some p
  | (env, c, txHash) :: rest, (w, db) =>
    if C (w, db) (.call env c txHash) then
      (exec host env w c).toOption.bind fun w' => replay t host C rest (w',
        db.deliverAll t env.sequence txHash (w'.store.events.drop w.store.events.length))
    else none

theorem run_of_replay {C : World σ × Db → Action σ → Prop} [∀ p a, Decidable (C p a)]
    {p p' : World σ × Db} {calls : List (Env × Call × String)}
    (h : replay t host C calls p = some p') :
    Run (Run.Guarded (Step t host) C) p (calls.map fun x => .call x.1 x.2.1 x.2.2) p' := by
  induction calls generalizing p with
  | nil =>
    rw [replay, Option.some.injEq] at h
    exact h ▸ .nil
  | cons x rest ih =>
    obtain ⟨env, c, txHash⟩ := x
    obtain ⟨w, db⟩ := p
    rw [replay] at h
    split at h
    · rename_i hc
      obtain ⟨w', hw', h⟩ := Option.bind_eq_some_iff.mp h
      have hstep : Step t host (w, db) (.call env c txHash) _ :=
        .call (Contract.toOption_eq_some.mp hw')
      exact (Run.single ⟨hstep, hc⟩).trans (ih h)
    · cases h

end Runs

/-! ## Two deployments -/

/-- Addresses as they are shown, keys in base 16, variants by their names. -/
def plainTexts : Texts where
  address := strkey
  address_injective := strkey_injective
  address_ne_empty := strkey_ne_empty
  bytes b := String.ofList (b.map fun x => Char.ofNat x.toNat)
  bytes32 := toHex
  parameter
    | .feeBps => "FeeBps"
    | .treasury => "Treasury"
    | .tipCooldownWindow => "TipCooldownWindow"
    | .govQuorum => "GovQuorum"
    | .govTimeLock => "GovTimeLock"
    | .govVoteWindow => "GovVoteWindow"
    | .moderationSlashBps => "ModerationSlashBps"

/-- A run from a deployment by `alice` with a fee of 250 basis points. -/
def mirrorDemo (C : World Book × Db → Action Book → Prop) [∀ p a, Decidable (C p a)]
    (calls : List (Env × Call × String)) : Option (World Book × Db) :=
  (Contract.start (signedAt 1) alice bob 250 fun _ _ => 100).bind fun w =>
    replay plainTexts (bookHost linkora) C calls
      (w, Db.empty.deliverAll plainTexts 1 "" w.store.events)

theorem run_mirrorDemo {C : World Book × Db → Action Book → Prop} [∀ p a, Decidable (C p a)]
    {calls : List (Env × Call × String)} {β : Type} {see : World Book × Db → β} {b : β}
    (h : (mirrorDemo C calls).map see = some b) :
    ∃ w₀ w db, Started w₀ ∧ see (w, db) = b ∧
      Run (Run.Guarded (Step plainTexts (bookHost linkora)) C)
        (w₀, Db.empty.deliverAll plainTexts 1 "" w₀.store.events)
        (calls.map fun x => .call x.1 x.2.1 x.2.2) (w, db) := by
  obtain ⟨p, hp, hb⟩ := Option.map_eq_some_iff.mp h
  obtain ⟨w₀, hw₀, hp⟩ := Option.bind_eq_some_iff.mp hp
  obtain ⟨s, hs, rfl⟩ := Option.map_eq_some_iff.mp hw₀
  exact ⟨_, p.1, p.2, ⟨_, _, _, _, Contract.toOption_eq_some.mp hs⟩, hb, run_of_replay hp⟩

/-- A follow that comes and goes, a like and a tip in one transaction, a tip that is too small
for a fee, and a block between strangers. -/
theorem indexer_mirrors_chain_of_social :
    ∃ (w₀ w : World Book) (db : Db) (acts : List (Action Book)), Started w₀ ∧
      Run (Run.Guarded (Step plainTexts (bookHost linkora)) AllFollowable)
        (w₀, Db.empty.deliverAll plainTexts 1 "" w₀.store.events) acts (w, db) ∧
      w.store.graph.Edges bob carol ∧
      (w.store.posts.post.get 1).map (fun post => (post.tipTotal, post.likeCount)) =
        some (69, 1) ∧
      Mirrors plainTexts w.store db := by
  have hdemo : (mirrorDemo AllFollowable
      [(signedAt 2, .follow alice bob, "a1"),
        (signedAt 3, .createPost carol (Contract.asciiBytes "hello"), "a2"),
        (signedAt 4, .likePost bob 1, "a3"), (signedAt 4, .tip bob 1 coin 39, "a3"),
        (signedAt 5, .setProfile bob (Contract.asciiBytes "bobby") coin, "a4"),
        (signedAt 6, .tip alice 1 coin 30, "a5"), (signedAt 7, .unfollow alice bob, "a6"),
        (signedAt 8, .blockUser alice bob, "a7"), (signedAt 9, .follow bob carol, "a8"),
        (signedAt 10, .deleteProfile bob, "a9")]).map
      (fun p => (p.1.store.graph.edge.has (bob, carol),
        (p.1.store.posts.post.get 1).map fun post => (post.tipTotal, post.likeCount))) =
      some (true, some (69, 1)) := by decide +kernel
  obtain ⟨w₀, w, db, hstart, hsee, hrun⟩ := run_mirrorDemo hdemo
  simp only [Prod.mk.injEq] at hsee
  exact ⟨w₀, w, db, _, hstart, hrun, hsee.1, hsee.2, indexer_mirrors_chain hstart hrun⟩

/-- A tip is counted with its fee, and the row of a follow that a block has severed stays. -/
theorem indexer_misses_fee_and_block :
    ∃ (w₀ w : World Book) (db : Db), Started w₀ ∧
      Run (Step plainTexts (bookHost linkora))
        (w₀, Db.empty.deliverAll plainTexts 1 "" w₀.store.events)
        [.call (signedAt 2) (.createPost carol (Contract.asciiBytes "hello")) "a1",
          .call (signedAt 3) (.tip bob 1 coin 40) "a2",
          .call (signedAt 4) (.follow alice bob) "a3",
          .call (signedAt 5) (.blockUser bob alice) "a4"] (w, db) ∧
      (w.store.posts.post.get 1).map (fun post => post.tipTotal) = some 39 ∧
      (db.social.posts.lookup 1).map (fun row => row.tipTotal) = some 40 ∧
      ¬w.store.graph.Edges alice bob ∧
      (plainTexts.address alice, plainTexts.address bob) ∈ db.follows ∧
      ¬Mirrors plainTexts w.store db := by
  have hdemo : (mirrorDemo (fun _ _ => True)
      [(signedAt 2, .createPost carol (Contract.asciiBytes "hello"), "a1"),
        (signedAt 3, .tip bob 1 coin 40, "a2"), (signedAt 4, .follow alice bob, "a3"),
        (signedAt 5, .blockUser bob alice, "a4")]).map
      (fun p => ((p.1.store.posts.post.get 1).map fun post => post.tipTotal,
        (p.2.social.posts.lookup 1).map fun row => row.tipTotal,
        p.1.store.graph.edge.has (alice, bob),
        decide ((plainTexts.address alice, plainTexts.address bob) ∈ p.2.follows))) =
      some (some 39, some 40, false, true) := by decide +kernel
  obtain ⟨w₀, w, db, hstart, hsee, hrun⟩ := run_mirrorDemo hdemo
  simp only [Prod.mk.injEq, decide_eq_true_eq] at hsee
  obtain ⟨hpost, hrow, hsevered, hfollow⟩ := hsee
  have hedge : ¬w.store.graph.Edges alice bob := by
    show ¬w.store.graph.edge.has (alice, bob) = true
    rw [hsevered]
    exact Bool.false_ne_true
  refine ⟨w₀, w, db, hstart, hrun.of_guarded, hpost, hrow, hedge, hfollow, fun hmirrors => ?_⟩
  obtain ⟨post, hpost, htips⟩ := Option.map_eq_some_iff.mp hpost
  obtain ⟨row, hlookup, heq, -⟩ := hmirrors.posts 1 post hpost
  rw [hlookup, Option.map_some, heq, htips] at hrow
  cases hrow

end Indexer
end Linkora
