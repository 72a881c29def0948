import Linkora.Lib.Slots
import Linkora.Contract.PostIndex
import Linkora.Contract.Blocking

/-!
# Likes

A like is a flag, a number in the post, a number of its own and a slot, written by
`like_post` and taken back by the sweep of `block_user`.  The posts that a review
has taken away keep their likes, so what holds of the likes of a stored post has to
hold of those of a snapshot too.
-/

namespace Linkora
namespace Contract

def hasLiked (s : State) (user : Address) (postId : Nat) : Except Panic Bool := do
  validateNonDefaultAddress "user" user
  requireWithError (0 < postId) "post id must be positive"
  return s.likes.like.has (postId, user)

namespace Likes

variable {l l' : Likes} {id k : Nat} {user : Address}

/-- The users with a like on the post. -/
def likers (l : Likes) (id : Nat) : Set Address := {u | l.like.has (id, u) = true}

/-- The two agree in all that they have about the post. -/
structure AgreeAt (l l' : Likes) (id : Nat) : Prop where
  like : ∀ u, l'.like.get (id, u) = l.like.get (id, u)
  count : l'.likersCount.get id = l.likersCount.get id
  idx : ∀ i, l'.likersIdx.get (id, i) = l.likersIdx.get (id, i)

/-- Take the like of `user` back. -/
def drop (l : Likes) (id : Nat) (user : Address) : Likes :=
  swapRemoveLikeFromIndex { l with like := l.like.remove (id, user) } id user

theorem AgreeAt.refl (l : Likes) (id : Nat) : l.AgreeAt l id :=
  ⟨fun _ => rfl, rfl, fun _ => rfl⟩

theorem AgreeAt.likers_eq (h : l.AgreeAt l' id) : l'.likers id = l.likers id := by
  ext u
  show l'.like.has (id, u) = true ↔ l.like.has (id, u) = true
  rw [Store.has_eq, Store.has_eq, h.like]

theorem PrunedAt.agreeAt (h : l.PrunedAt l' id) (hk : k ≠ id) : l.AgreeAt l' k :=
  ⟨fun u => h.likeOff (k, u) hk, h.countOff k hk, fun i => h.idxOff (k, i) hk⟩

theorem PrunedAt.counts (h : l.PrunedAt l' id) (k : Nat)
    (hk : l'.likersCount.has k = true) : l.likersCount.has k = true := by
  by_cases hne : k = id
  · rw [hne] at hk ⊢
    exact h.count hk
  · rw [Store.has_eq, h.countOff k hne] at hk
    exact hk

theorem finite_likers (l : Likes) (id : Nat) : (l.likers id).Finite := l.like.finite_right id

theorem swapRemove_like (l : Likes) (id : Nat) (user : Address) :
    (swapRemoveLikeFromIndex l id user).like = l.like := by
  unfold swapRemoveLikeFromIndex
  dsimp only
  split
  · rfl
  · split
    · rfl
    · rfl

/-- The index of the likers is searched and edited at one post only. -/
theorem swapRemove_agreeAt (l : Likes) (user : Address) (hk : k ≠ id) :
    l.AgreeAt (swapRemoveLikeFromIndex l id user) k := by
  have hslot : ∀ i j : Nat, (k, i) ≠ (id, j) := fun i j e => hk (Prod.mk.inj e).1
  unfold swapRemoveLikeFromIndex
  dsimp only
  split
  · exact .refl l k
  · split
    · exact .refl l k
    · refine ⟨fun _ => rfl, Store.get_set_of_ne hk _, fun i => ?_⟩
      rw [Store.get_remove_of_ne (hslot i _)]
      split
      · split
        · exact Store.get_set_of_ne (hslot i _) _
        · rfl
      · rfl

theorem drop_agreeAt (l : Likes) (user : Address) (hk : k ≠ id) :
    l.AgreeAt (l.drop id user) k := by
  have h := swapRemove_agreeAt { l with like := l.like.remove (id, user) } user hk
  refine ⟨fun u => (h.like u).trans ?_, h.count, h.idx⟩
  exact Store.get_remove_of_ne fun e => hk (Prod.mk.inj e).1

theorem likers_drop (l : Likes) (id : Nat) (user : Address) :
    (l.drop id user).likers id = l.likers id \ {user} := by
  ext u
  show (l.drop id user).like.has (id, u) = true ↔ l.like.has (id, u) = true ∧ u ≠ user
  rw [drop, swapRemove_like, Store.has_remove]
  by_cases hu : u = user
  · simp [hu]
  · simp [hu]

theorem likers_add (l : Likes) (id n : Nat) (user : Address) :
    (l.add id n user).likers id = insert user (l.likers id) := by
  ext u
  show (l.like.set (id, user) true).has (id, u) = true ↔ u = user ∨ l.like.has (id, u) = true
  rw [Store.has_set]
  by_cases hu : u = user
  · simp [hu]
  · simp [hu]

theorem add_agreeAt (l : Likes) (n : Nat) (user : Address) (hk : k ≠ id) :
    l.AgreeAt (l.add id n user) k :=
  ⟨fun _ => Store.get_set_of_ne (fun e => hk (Prod.mk.inj e).1) _, Store.get_set_of_ne hk _,
    fun _ => Store.get_set_of_ne (fun e => hk (Prod.mk.inj e).1) _⟩

end Likes

/-! ## Laws of the likes of one post -/

/-- A law about the likes of a post and the number that the post has for them, which
nothing but a like can break. -/
structure LikeLaw (P : Likes → Nat → Nat → Prop) : Prop where
  congr : ∀ {l l' id n}, l.AgreeAt l' id → P l id n → P l' id n
  fresh : ∀ {l id}, l.likers id = ∅ → l.likersCount.get id = none → P l id 0
  drop : ∀ {l id n user}, user ∈ l.likers id → P l id n → P (l.drop id user) id (n - 1)

/-- The law holds of every post, stored or taken away, and there is nothing about an
id that has not been given out. -/
structure LikesObey (P : Likes → Nat → Nat → Prop) (v : PostView) : Prop where
  law : ∀ id p, v.Holds id p → P v.likes id p.likeCount
  likes : ∀ id u, v.likes.like.has (id, u) = true → id ≤ v.posts.lastId
  counts : ∀ id, v.likes.likersCount.has id = true → id ≤ v.posts.lastId

namespace LikesObey

variable {P : Likes → Nat → Nat → Prop} {tips : Bool} {v v' : PostView}

/-- The posts keep their numbers, and their likes stay as they are. -/
theorem of_agree (hP : LikeLaw P) (h : LikesObey P v)
    (hholds : ∀ i p, v'.Holds i p →
      (∃ p₀, v.Holds i p₀ ∧ p.likeCount = p₀.likeCount) ∧ v.likes.AgreeAt v'.likes i)
    (hlike : ∀ key, v'.likes.like.has key = true → v.likes.like.has key = true)
    (hcount : ∀ i, v'.likes.likersCount.has i = true → v.likes.likersCount.has i = true)
    (hlast : v.posts.lastId ≤ v'.posts.lastId) : LikesObey P v' := by
  refine ⟨fun i p hp => ?_, fun i u hu => ?_, fun i hi => ?_⟩
  · obtain ⟨⟨p₀, hp₀, hn⟩, hagree⟩ := hholds i p hp
    rw [hn]
    exact hP.congr hagree (h.law i p₀ hp₀)
  · exact (h.likes i u (hlike _ hu)).trans hlast
  · exact (h.counts i (hcount _ hi)).trans hlast

/-- Nothing happens to the likes, and what is held was held before. -/
theorem of_holds (hP : LikeLaw P) (h : LikesObey P v) (hlikes : v'.likes = v.likes)
    (hholds : ∀ i p, v'.Holds i p → ∃ p₀, v.Holds i p₀ ∧ p.likeCount = p₀.likeCount)
    (hlast : v.posts.lastId ≤ v'.posts.lastId) : LikesObey P v' := by
  refine h.of_agree hP (fun i p hp => ⟨hholds i p hp, ?_⟩) ?_ ?_ hlast
  · rw [hlikes]
    exact .refl _ i
  · rw [hlikes]
    exact fun _ hk => hk
  · rw [hlikes]
    exact fun _ hk => hk

/-- The number of one stored post changes together with its likes. -/
theorem of_renumber (hP : LikeLaw P) (hix : PostsIndexed v) (h : LikesObey P v) {id : Nat}
    {post post' : Post} (stored : v.posts.post.get id = some post)
    (hpost : v'.posts.post = v.posts.post.set id post') (hremoved : v'.removed = v.removed)
    (hlast : v'.posts.lastId = v.posts.lastId) (hlaw : P v'.likes id post'.likeCount)
    (hagree : ∀ i, i ≠ id → v.likes.AgreeAt v'.likes i) : LikesObey P v' := by
  have hle : id ≤ v.posts.lastId := (hix.known id post (Or.inl stored)).2.1
  refine ⟨fun i p hp => ?_, fun i u hu => ?_, fun i hi => ?_⟩
  · rcases hix.holds_of_rewrite stored hp hpost hremoved with ⟨hi, hp⟩ | ⟨hi, hp⟩
    · rw [hi, hp]
      exact hlaw
    · exact hP.congr (hagree i hi) (h.law i p hp)
  · rw [hlast]
    by_cases hne : i = id
    · rw [hne]
      exact hle
    · rw [Store.has_eq, (hagree i hne).like] at hu
      exact h.likes i u hu
  · rw [hlast]
    by_cases hne : i = id
    · rw [hne]
      exact hle
    · rw [Store.has_eq, (hagree i hne).count] at hi
      exact h.counts i hi

theorem edit (hP : LikeLaw P) (hix : PostsIndexed v) (h : LikesObey P v)
    (he : PostEdit tips v v') : LikesObey P v' := by
  cases he with
  | note | release | relist =>
    exact h.of_holds hP rfl (fun i p hp => ⟨p, hp, rfl⟩) le_rfl
  | add post fresh author likeCount =>
    have hlt : v.posts.lastId < post.id := by omega
    have hnone : v.likes.likers post.id = ∅ := by
      rw [Set.eq_empty_iff_forall_notMem]
      intro u hu
      have hle := h.likes post.id u hu
      omega
    have hcount : v.likes.likersCount.get post.id = none := by
      rw [← Store.has_eq_false_iff, ← Bool.not_eq_true]
      intro hhas
      have hle := h.counts post.id hhas
      omega
    have hlast : v.posts.lastId ≤ (v.posts.insert post).lastId := by
      show v.posts.lastId ≤ post.id
      omega
    refine ⟨fun i p hp => ?_, fun i u hu => (h.likes i u hu).trans hlast,
      fun i hi => (h.counts i hi).trans hlast⟩
    rcases hp with hp | hp
    · have hp : (v.posts.post.set post.id post).get i = some p := hp
      rw [Store.get_set] at hp
      split at hp
      · rename_i hi
        rw [hi, ← Option.some.inj hp, likeCount]
        exact hP.fresh hnone hcount
      · exact h.law i p (Or.inl hp)
    · exact h.law i p (Or.inr hp)
  | tip id post tipTotal stored =>
    exact h.of_renumber hP hix stored rfl rfl rfl (h.law id post (Or.inl stored))
      (fun i _ => .refl _ i)
  | unlike id post liker stored liked =>
    exact h.of_renumber hP hix stored rfl rfl rfl (hP.drop liked (h.law id post (Or.inl stored)))
      (fun i hi => v.likes.drop_agreeAt liker hi)
  | delete id post stored =>
    exact h.of_holds hP rfl
      (fun i p hp => ⟨p, hp.imp_left Store.get_of_get_remove, rfl⟩) le_rfl
  | drain id likes dead pruned =>
    refine h.of_agree hP (fun i p hp => ⟨⟨p, hp, rfl⟩, pruned.agreeAt ?_⟩) pruned.like ?_ le_rfl
    · -- A deleted post is neither stored nor held as a snapshot.
      intro e
      obtain ⟨-, hnone, hsnap⟩ := hix.deleted id dead
      rw [e] at hp
      rcases hp with hp | hp
      · rw [hnone] at hp
        cases hp
      · rw [hsnap] at hp
        cases hp
    · exact pruned.counts
  | retire user ids id likes listed pruned =>
    refine h.of_agree hP (fun i p hp => ⟨⟨p, hp.imp_left Store.get_of_get_remove, rfl⟩,
      pruned.agreeAt ?_⟩) pruned.like pruned.counts le_rfl
    intro e
    rw [e] at hp
    rcases hp with hp | hp
    · have hp : (v.posts.post.remove id).get id = some p := hp
      rw [Store.get_remove_self] at hp
      cases hp
    · have hmem : id ∈ v.posts.byAuthor user := by
        rw [listed]
        exact List.mem_append_right ids (List.mem_singleton_self id)
      obtain ⟨post, stored, -⟩ := (hix.listed user id).mp hmem
      exact absurd rfl (hix.ne_of_removed stored hp)
  | takeAway id post stored =>
    exact h.of_holds hP rfl
      (fun i p hp => ⟨p, PostView.holds_of_takeAway hp stored rfl rfl, rfl⟩) le_rfl
  | restore id post snapshot =>
    exact h.of_holds hP rfl
      (fun i p hp => ⟨p, PostView.holds_of_restore hp snapshot rfl rfl, rfl⟩) le_rfl

theorem edits (hP : LikeLaw P) (hix : PostsIndexed v) (h : LikesObey P v)
    (he : PostEdits tips v v') : LikesObey P v' := by
  have hboth : PostsIndexed v' ∧ LikesObey P v' := by
    induction he with
    | refl => exact ⟨hix, h⟩
    | tail _ hlast ih => exact ⟨ih.1.edit hlast, ih.2.edit hP ih.1 hlast⟩
  exact hboth.2

/-- A like keeps the law where the law allows for one more. -/
theorem call {σ : Type} {host : Host σ} {env : Env} {w w' : World σ} {c : Call} (hP : LikeLaw P)
    (hix : PostsIndexed w.store.postView) (h : LikesObey P w.store.postView)
    (hadd : ∀ user id post, c = .likePost user id → w.store.posts.post.get id = some post →
      w.store.likes.like.has (id, user) = false → P w.store.likes id post.likeCount →
      P (w.store.likes.add id post.likeCount user) id (post.likeCount + 1))
    (he : exec host env w c = .ok w') : LikesObey P w'.store.postView := by
  cases c with
  | likePost user id =>
    rcases likePost_ok (World.onStore_eq_ok.mp he).1 with
      ⟨-, hs⟩ | ⟨post, hnew, stored, -, -, hs⟩
    · rw [hs]
      exact h
    · have hlaw := hadd user id post rfl stored hnew (h.law id post (Or.inl stored))
      rw [hs]
      exact h.of_renumber hP hix stored rfl rfl rfl hlaw
        (fun i hi => w.store.likes.add_agreeAt _ user hi)
  | _ => exact h.edits hP hix (exec_postEdits he (fun _ _ => nofun))

/-- The law holds in every state reached by calls whose likes keep it. -/
theorem of_reachableUnder {σ : Type} {host : Host σ} {C : Condition} {w : World σ}
    (hP : LikeLaw P)
    (hadd : ∀ s env user id post, C s env (.likePost user id) → s.posts.post.get id = some post →
      s.likes.like.has (id, user) = false → P s.likes id post.likeCount →
      P (s.likes.add id post.likeCount user) id (post.likeCount + 1))
    (h : ReachableUnder host C w) : LikesObey P w.store.postView := by
  refine h.store_induction (I := fun s => LikesObey P s.postView) ?_ ?_
  · intro s env admin treasury feeBps hs
    obtain ⟨-, -, access, events, rfl⟩ := initializeContract_ok hs
    exact ⟨fun id p hp => hp.elim nofun nofun, nofun, nofun⟩
  · intro w env c w' hr hw hc he
    refine hw.call hP (.of_reachable hr.reachable) ?_ he
    intro user id post hcall
    rw [hcall] at hc
    exact hadd w.store env user id post hc

end LikesObey

/-! ## The two laws -/

/-- The number in the post is the number of its likers. -/
def Tallied (l : Likes) (id n : Nat) : Prop := n = (l.likers id).ncard

theorem Tallied.likeLaw : LikeLaw Tallied where
  congr h hn := by
    rw [Tallied, h.likers_eq]
    exact hn
  fresh h _ := by
    rw [Tallied, h, Set.ncard_empty]
  drop {l id n user} huser hn := by
    have hone := Set.ncard_sdiff_singleton_add_one huser (l.finite_likers id)
    rw [Tallied] at hn ⊢
    rw [Likes.likers_drop]
    omega

theorem Tallied.add {l : Likes} {id n : Nat} {user : Address}
    (hnew : l.like.has (id, user) = false) (h : Tallied l id n) :
    Tallied (l.add id n user) id (n + 1) := by
  have hmem : user ∉ l.likers id := by
    show ¬l.like.has (id, user) = true
    rw [hnew]
    exact Bool.false_ne_true
  rw [Tallied, Likes.likers_add, Set.ncard_insert_of_notMem hmem (l.finite_likers id), ← h]

/-- The number in the post is the stored number of its likers, and the slots up to it
list them. -/
structure Listed (l : Likes) (id n : Nat) : Prop where
  count : n = (l.likersCount.get id).getD 0
  slots : Slots l.likersIdx id n (l.likers id)

/-- The search finds the slot of a listed user, and the last one is moved there. -/
theorem swapRemoveLikeFromIndex_eq {l : Likes} {id last : Nat} {user : Address} {S : Set Address}
    (hcount : (l.likersCount.get id).getD 0 = last + 1)
    (hslots : Slots l.likersIdx id (last + 1) S) (huser : user ∈ S) :
    ∃ p, p < last + 1 ∧ l.likersIdx.get (id, p) = some user ∧
      ((swapRemoveLikeFromIndex l id user).likersCount.get id).getD 0 = last ∧
      ∀ i, i < last → (swapRemoveLikeFromIndex l id user).likersIdx.get (id, i) =
        if i = p then l.likersIdx.get (id, last) else l.likersIdx.get (id, i) := by
  obtain ⟨j, hj, hslot⟩ := hslots.complete user huser
  obtain ⟨moved, -, hmoved⟩ := hslots.filled last (Nat.lt_succ_self last)
  unfold swapRemoveLikeFromIndex
  rw [hcount]
  have hne : last + 1 ≠ 0 := by omega
  dsimp only
  rw [if_neg hne]
  cases hfind : (List.range (last + 1)).find? fun i => l.likersIdx.get (id, i) == some user with
  | none =>
    have hnot := List.find?_eq_none.mp hfind j (List.mem_range.mpr hj)
    rw [hslot] at hnot
    exact absurd (beq_self_eq_true _) hnot
  | some p =>
    have hp : p < last + 1 := List.mem_range.mp (List.mem_of_find?_eq_some hfind)
    have hget : l.likersIdx.get (id, p) = some user := by
      have hbeq := List.find?_some hfind
      exact eq_of_beq hbeq
    refine ⟨p, hp, hget, ?_, fun i hi => ?_⟩
    · show ((l.likersCount.set id (last + 1 - 1)).get id).getD 0 = last
      rw [Store.get_set_self]
      rfl
    · have hlast : (id, i) ≠ (id, last + 1 - 1) := by
        simp
        omega
      dsimp only
      rw [Store.get_remove_of_ne hlast, Nat.add_sub_cancel, hmoved]
      by_cases hpl : p = last
      · have hip : i ≠ p := by omega
        rw [if_neg (not_not.mpr hpl), if_neg hip]
      · rw [if_pos hpl]
        dsimp only
        rw [Store.get_set]
        by_cases hip : i = p
        · rw [if_pos (by rw [hip]), if_pos hip]
        · rw [if_neg (by simp [hip]), if_neg hip]

theorem Listed.likeLaw : LikeLaw Listed where
  congr h hn := by
    refine ⟨?_, ?_⟩
    · rw [h.count]
      exact hn.count
    · rw [h.likers_eq]
      exact hn.slots.congr h.idx
  fresh h hcount := by
    refine ⟨?_, ?_⟩
    · rw [hcount]
      rfl
    · rw [h]
      exact .empty _ _
  drop {l id n user} huser hn := by
    obtain ⟨i, hi, -⟩ := hn.slots.complete user huser
    obtain ⟨last, rfl⟩ := Nat.exists_eq_add_of_lt (show 0 < n by omega)
    rw [Nat.zero_add] at hn ⊢
    obtain ⟨p, hp, hget, hcount, hidx⟩ := swapRemoveLikeFromIndex_eq
      (l := { l with like := l.like.remove (id, user) }) hn.count.symm hn.slots huser
    refine ⟨hcount.symm, ?_⟩
    rw [Likes.likers_drop]
    exact hn.slots.move_last hp hget hidx

theorem Listed.add {l : Likes} {id n : Nat} {user : Address}
    (hnew : l.like.has (id, user) = false) (hfits : n + 1 < 2 ^ 32) (h : Listed l id n) :
    Listed (l.add id n user) id (n + 1) := by
  have hmem : user ∉ l.likers id := by
    show ¬l.like.has (id, user) = true
    rw [hnew]
    exact Bool.false_ne_true
  have hn : n % 2 ^ 32 = n := Nat.mod_eq_of_lt (by omega)
  have hn' : (n + 1) % 2 ^ 32 = n + 1 := Nat.mod_eq_of_lt hfits
  refine ⟨?_, ?_⟩
  · show n + 1 = ((l.likersCount.set id ((n + 1) % 2 ^ 32)).get id).getD 0
    rw [Store.get_set_self, hn']
    rfl
  · rw [Likes.likers_add]
    show Slots (l.likersIdx.set (id, n % 2 ^ 32) user) id (n + 1) _
    rw [hn]
    exact h.slots.append hmem

/-! ## Likes are counted -/

/-- The like that a call makes. -/
def Call.liked : Call → Option (Nat × Address)
  | .likePost user postId => some (postId, user)
  | _ => none

/-- A new like leaves the number of the post's likes below `2 ^ 32`. -/
def LikesFit : Condition := fun s _ c => ∀ key ∈ c.liked, s.likes.like.has key = true ∨
  ∀ post ∈ s.posts.post.get key.1, post.likeCount + 1 < 2 ^ 32

instance (s : State) (env : Env) (c : Call) : Decidable (LikesFit s env c) :=
  inferInstanceAs (Decidable (∀ key ∈ c.liked, s.likes.like.has key = true ∨
    ∀ post ∈ s.posts.post.get key.1, post.likeCount + 1 < 2 ^ 32))

theorem LikesObey.of_likesFit {σ : Type} {host : Host σ} {w : World σ}
    (h : ReachableUnder host LikesFit w) : LikesObey Listed w.store.postView := by
  refine .of_reachableUnder Listed.likeLaw ?_ h
  intro s env user i p hfits hp hnew hlaw
  have hfits : p.likeCount + 1 < 2 ^ 32 := by
    rcases hfits (i, user) rfl with hliked | hfits
    · rw [hnew] at hliked
      cases hliked
    · exact hfits p hp
  exact hlaw.add hnew hfits

/-- In every state reached while the numbers of likes stay below `2 ^ 32`, the number
in a stored post is the stored number of its likers and the number of users with a
like on it, and the slots up to it hold these users, each once. -/
theorem likes_counted {σ : Type} {host : Host σ} {w : World σ}
    (h : ReachableUnder host LikesFit w) {id : Nat} {post : Post}
    (stored : w.store.posts.post.get id = some post) :
    post.likeCount = (w.store.likes.likersCount.get id).getD 0 ∧
      post.likeCount = {u | w.store.likes.like.has (id, u) = true}.ncard ∧
      Slots w.store.likes.likersIdx id post.likeCount
        {u | w.store.likes.like.has (id, u) = true} := by
  have hlisted : LikesObey Listed w.store.postView := .of_likesFit h
  have hlaw := hlisted.law id post (Or.inl stored)
  exact ⟨hlaw.count, hlaw.slots.ncard_eq.symm, hlaw.slots⟩

/-- `alice` and `bob` like a post by `carol`, which is then taken away and restored;
`carol` blocks `bob`. -/
theorem likes_counted_after_block :
    ∃ w : World Book, ReachableUnder (bookHost linkora) LikesFit w ∧
      ∃ post, w.store.posts.post.get 1 = some post ∧ post.likeCount = 1 ∧
        {u | w.store.likes.like.has (1, u) = true}.ncard = 1 ∧
        w.store.likes.likersIdx.get (1, 0) = some alice := by
  have hdemo : (demo LikesFit (fun _ _ => 100)
      ([(signedAt 2, .createPool alice "mods" coin [alice] 1),
        (signedAt 3, .grantRole alice alice .moderator),
        (signedAt 4, .createPost carol (asciiBytes "hello")),
        (signedAt 5, .likePost bob 1), (signedAt 6, .likePost alice 1),
        (signedAt 7, .reportPost bob 1 coin 20 0),
        (signedAt 8, .reviewReport alice [alice] 1 bob .upheld),
        (signedAt 9, .appealModeration carol 1 0), (signedAt 10, .reviewAppeal alice 1 true),
        (signedAt 11, .blockUser carol bob)])).map
      (fun w => ((w.store.posts.post.get 1).map (·.likeCount),
        w.store.likes.likersIdx.get (1, 0))) = some (some 1, some alice) := by rfl
  obtain ⟨w, hw, hsee⟩ := reachable_demo hdemo
  obtain ⟨hcount, hslot⟩ := Prod.mk.inj hsee
  obtain ⟨post, hpost, hcount⟩ := Option.map_eq_some_iff.mp hcount
  obtain ⟨-, hncard, -⟩ := likes_counted hw hpost
  exact ⟨w, hw, post, hpost, hcount, hncard.symm.trans hcount, hslot⟩

end Contract
end Linkora
