import Linkora.Lib.Rows
import Linkora.Lib.Run
import Linkora.Lib.Text
import Linkora.Mobile.DmThread

/-!
# Posts composed on the phone

`apps/mobile/utils/db.ts` keeps a composed post as a row that is pending until its real id is
known.  `syncPendingPosts` of `utils/sync.ts` submits every such row and asks the indexer for
a post of the same author and text, five times at most.  What it is told is a post of that
text, and a post that is not told of in time is submitted again by the next call.
-/

namespace Linkora
namespace Mobile

/-- A row of `cached_posts`.  `number` is not a column: it tells which call of
`addOptimisticPost` the row stems from. -/
structure CachedPost where
  id : String
  author : String
  username : String
  content : String
  tipTotal : Nat
  timestamp : Nat
  likeCount : Nat
  hasLiked : Bool
  syncStatus : SyncStatus
  createdAt : Nat
  number : Nat
  deriving DecidableEq

/-! ## The database -/

/-- Fails if the id is taken. -/
def addOptimisticPost (rows : List CachedPost) (author content username : String)
    (now number : Nat) : Option (List CachedPost) :=
  Rows.insert CachedPost.id rows
    { id := "opt_" ++ toString now
      author
      username
      content
      tipTotal := 0
      timestamp := now / 1000
      likeCount := 0
      hasLiked := false
      syncStatus := .pending
      createdAt := now / 1000
      number }

def confirmPendingPost (rows : List CachedPost) (localId realId : String) : List CachedPost :=
  if realId ∈ rows.map CachedPost.id then rows.filter fun row => row.id != localId
  else Rows.updateAt CachedPost.id rows localId fun row =>
    { row with id := realId, syncStatus := .synced }

def markPendingPostFailed (rows : List CachedPost) (localId : String) : List CachedPost :=
  Rows.updateAt CachedPost.id rows localId fun row => { row with syncStatus := .failed }

def CachedPost.isPending (row : CachedPost) : Bool :=
  row.syncStatus == .pending || row.syncStatus == .failed

def getPendingPosts (rows : List CachedPost) : List CachedPost :=
  rows.filter CachedPost.isPending

/-! ## Wallet and indexer -/

/-- A post in the indexer's answer. -/
structure IndexedPost where
  id : String
  content : Option String
  deriving DecidableEq

/-- No text counts as the empty one. -/
def truthy (s : Option String) : Option String := s.filter (· ≠ "")

/-- The indexer's answer has no posts if it is an error, or is no answer. -/
def findPostByAuthorAndContent (answer : Option (List IndexedPost)) (content : String) :
    Option String :=
  match answer with
  | none => none
  | some posts => (posts.find? fun post => post.content == some content).map IndexedPost.id

structure SubmitResult where
  hash : Option String
  txHash : Option String
  deriving DecidableEq

/-- `submitResult.hash || submitResult.txHash` -/
def SubmitResult.returned (result : SubmitResult) : Option String :=
  (truthy result.hash).or (truthy result.txHash)

def maxRetries : Nat := 5

/-! ## Syncing -/

/-- A submission whose post is looked for: the id under which the contract has created the
post, if it has, and how often the indexer has been asked in vain. -/
structure Polling where
  post : Option Nat
  attempt : Nat
  deriving DecidableEq

/-- A call of `syncPendingPosts`: the rows it has still to do, and, for the first of them,
whether it has been submitted. -/
structure SyncCall where
  todo : List CachedPost
  polling : Option Polling
  deriving DecidableEq

/-- A call of `signAndSubmitTransaction` that returned a hash. -/
structure Submission where
  row : Nat
  post : Option Nat
  deriving DecidableEq

/-- The rows and the calls under way.  The rest is kept for the statements: how many rows
have been created, the submissions, and the ids that rows have been confirmed with. -/
structure Feed where
  rows : List CachedPost
  calls : Nat → Option SyncCall
  created : Nat
  submissions : List Submission
  confirmed : List (Nat × String)

inductive FeedLabel where
  | add (author content username : String) (now : Nat)
  /-- `getPendingPosts` is read. -/
  | start (k : Nat)
  /-- The wallet's answer for the next row, or none if preparing or submitting the transaction
  throws; and the id of the post that the contract creates, if it does. -/
  | submit (k : Nat) (result : Option SubmitResult) (post : Option Nat)
  /-- The indexer's answer. -/
  | poll (k : Nat) (answer : Option (List IndexedPost))

namespace Feed

def empty : Feed := ⟨[], fun _ => none, 0, [], []⟩

def withCall (w : Feed) (k : Nat) (call : Option SyncCall) : Feed :=
  { w with calls := Function.update w.calls k call }

/-- The call has `todo` before it. -/
def proceed (w : Feed) (k : Nat) (todo : List CachedPost) : Feed :=
  w.withCall k (if todo = [] then none else some ⟨todo, none⟩)

inductive Step : Feed → FeedLabel → Feed → Prop where
  | add {w : Feed} {author content username : String} {now : Nat} {rows : List CachedPost}
      (h : addOptimisticPost w.rows author content username now w.created = some rows) :
      Step w (.add author content username now) { w with rows, created := w.created + 1 }
  | start {w : Feed} {k : Nat} (h : w.calls k = none) :
      Step w (.start k) (w.proceed k (getPendingPosts w.rows))
  /-- No hash: the row is marked failed. -/
  | reject {w : Feed} {k : Nat} {row : CachedPost} {rest : List CachedPost}
      {result : Option SubmitResult} {post : Option Nat}
      (h : w.calls k = some ⟨row :: rest, none⟩)
      (hresult : result.bind SubmitResult.returned = none) :
      Step w (.submit k result post)
        { w.proceed k rest with rows := markPendingPostFailed w.rows row.id }
  /-- The contract gives a new post an id of its own. -/
  | submit {w : Feed} {k : Nat} {row : CachedPost} {rest : List CachedPost}
      {result : Option SubmitResult} {post : Option Nat} {hash : String}
      (h : w.calls k = some ⟨row :: rest, none⟩)
      (hresult : result.bind SubmitResult.returned = some hash)
      (hnew : ∀ p ∈ post, ∀ s ∈ w.submissions, s.post ≠ some p) :
      Step w (.submit k result post)
        { w.withCall k (some ⟨row :: rest, some ⟨post, 0⟩⟩) with
          submissions := w.submissions ++ [⟨row.number, post⟩] }
  | confirm {w : Feed} {k : Nat} {row : CachedPost} {rest : List CachedPost} {polling : Polling}
      {answer : Option (List IndexedPost)} {realId : String}
      (h : w.calls k = some ⟨row :: rest, some polling⟩)
      (hfound : truthy (findPostByAuthorAndContent answer row.content) = some realId) :
      Step w (.poll k answer)
        { w.proceed k rest with
          rows := confirmPendingPost w.rows row.id realId
          confirmed := w.confirmed ++ [(row.number, realId)] }
  | again {w : Feed} {k : Nat} {row : CachedPost} {rest : List CachedPost} {polling : Polling}
      {answer : Option (List IndexedPost)}
      (h : w.calls k = some ⟨row :: rest, some polling⟩)
      (hfound : truthy (findPostByAuthorAndContent answer row.content) = none)
      (hlt : polling.attempt + 1 < maxRetries) :
      Step w (.poll k answer)
        (w.withCall k (some ⟨row :: rest, some { polling with attempt := polling.attempt + 1 }⟩))
  /-- Not indexed: the row is marked failed. -/
  | giveUp {w : Feed} {k : Nat} {row : CachedPost} {rest : List CachedPost} {polling : Polling}
      {answer : Option (List IndexedPost)}
      (h : w.calls k = some ⟨row :: rest, some polling⟩)
      (hfound : truthy (findPostByAuthorAndContent answer row.content) = none)
      (hge : ¬polling.attempt + 1 < maxRetries) :
      Step w (.poll k answer)
        { w.proceed k rest with rows := markPendingPostFailed w.rows row.id }

/-- No row is published twice, a row is confirmed with the id of the post that it was
published as, and with an id that no other row is confirmed with. -/
structure PublishedOnce (w : Feed) : Prop where
  once : (w.submissions.map Submission.row).Nodup
  own : ∀ n q, (n, q) ∈ w.confirmed → ∃ p, ⟨n, some p⟩ ∈ w.submissions ∧ q = toString p
  unused : ∀ n n' q, (n, q) ∈ w.confirmed → (n', q) ∈ w.confirmed → n = n'

/-- A call takes no row that another call has in hand; and of five answers of the indexer one
tells of a post of the text, the first that does telling first of the row's own. -/
def Indexed (w : Feed) : FeedLabel → Prop
  | .start _ => ∀ row ∈ getPendingPosts w.rows, ∀ j call, w.calls j = some call →
    row.number ∉ call.todo.map CachedPost.number
  | .poll k answer => ∀ row rest polling, w.calls k = some ⟨row :: rest, some polling⟩ →
    match truthy (findPostByAuthorAndContent answer row.content) with
    | some realId => ∃ p, polling.post = some p ∧ realId = toString p
    | none => polling.attempt + 1 < maxRetries
  | _ => True

/-! ## What the calls have in hand -/

theorem withCall_self (w : Feed) (k : Nat) (call : Option SyncCall) :
    (w.withCall k call).calls k = call := by
  show Function.update w.calls k call k = call
  rw [Function.update_self]

theorem withCall_ne (w : Feed) {j k : Nat} (call : Option SyncCall) (h : j ≠ k) :
    (w.withCall k call).calls j = w.calls j := by
  show Function.update w.calls k call j = w.calls j
  rw [Function.update_of_ne h]

theorem proceed_self {w : Feed} {k : Nat} {todo : List CachedPost} {call : SyncCall}
    (h : (w.proceed k todo).calls k = some call) : call = ⟨todo, none⟩ := by
  unfold proceed at h
  rw [withCall_self] at h
  split at h
  · cases h
  · exact (Option.some.inj h).symm

theorem proceed_ne (w : Feed) {j k : Nat} (todo : List CachedPost) (h : j ≠ k) :
    (w.proceed k todo).calls j = w.calls j :=
  w.withCall_ne _ h

/-- The calls have the same rows before them as before. -/
theorem old_of_withCall {w : Feed} {j k : Nat} {todo : List CachedPost} {o o' : Option Polling}
    {call : SyncCall} (hk : w.calls k = some ⟨todo, o⟩)
    (hj : (w.withCall k (some ⟨todo, o'⟩)).calls j = some call) :
    ∃ old, w.calls j = some old ∧ old.todo = call.todo := by
  by_cases hjk : j = k
  · subst hjk
    rw [withCall_self] at hj
    exact ⟨_, hk, by rw [← Option.some.inj hj]⟩
  · rw [w.withCall_ne _ hjk] at hj
    exact ⟨call, hj, rfl⟩

/-- The row that a call read is still there, under its id and to be done. -/
def Has (rows : List CachedPost) (r : CachedPost) : Prop :=
  ∃ row ∈ rows, row.id = r.id ∧ row.number = r.number ∧ row.isPending = true

/-- Every row to be done has not been submitted, or a call is looking for its post. -/
structure Tidy (w : Feed) : Prop where
  keyed : Rows.Keyed CachedPost.id w.rows
  numbered : Rows.Keyed CachedPost.number w.rows
  rows_lt : ∀ row ∈ w.rows, row.number < w.created
  submissions_lt : ∀ s ∈ w.submissions, s.row < w.created
  held : ∀ k call, w.calls k = some call →
    Rows.Keyed CachedPost.number call.todo ∧ ∀ r ∈ call.todo, Has w.rows r
  apart : ∀ j k c d, j ≠ k → w.calls j = some c → w.calls k = some d →
    ∀ r ∈ c.todo, ∀ s ∈ d.todo, r.number ≠ s.number
  polled : ∀ k r rest p, w.calls k = some ⟨r :: rest, some p⟩ → ⟨r.number, p.post⟩ ∈ w.submissions
  fresh : ∀ row ∈ w.rows, row.isPending = true → ∀ s ∈ w.submissions, s.row = row.number →
    ∃ k r rest p, w.calls k = some ⟨r :: rest, some p⟩ ∧ r.number = row.number
  once : (w.submissions.map Submission.row).Nodup
  posts : ∀ s ∈ w.submissions, ∀ t ∈ w.submissions, ∀ p, s.post = some p → t.post = some p → s = t
  own : ∀ n q, (n, q) ∈ w.confirmed → ∃ p, ⟨n, some p⟩ ∈ w.submissions ∧ q = toString p

namespace Tidy

variable {w w' : Feed} {l : FeedLabel}

theorem empty : Feed.empty.Tidy where
  keyed := Rows.Keyed.nil
  numbered := Rows.Keyed.nil
  rows_lt := List.forall_mem_nil _
  submissions_lt := List.forall_mem_nil _
  held := fun _ _ h => by cases h
  apart := nofun
  polled := nofun
  fresh := List.forall_mem_nil _
  once := List.nodup_nil
  posts := List.forall_mem_nil _
  own := fun _ _ h => by cases h

theorem publishedOnce (h : w.Tidy) : w.PublishedOnce where
  once := h.once
  own := h.own
  unused := by
    intro n n' q hn hn'
    obtain ⟨p, hp, rfl⟩ := h.own n q hn
    obtain ⟨p', hp', hq⟩ := h.own n' _ hn'
    obtain rfl := Text.toString_nat_injective hq
    have heq := h.posts _ hp _ hp' p rfl rfl
    exact congrArg Submission.row heq

/-- A call that has the row `r` in hand is the only one. -/
theorem eq_of_held (h : w.Tidy) {j k : Nat} {c d : SyncCall} (hj : w.calls j = some c)
    (hk : w.calls k = some d) {r s : CachedPost} (hr : r ∈ c.todo) (hs : s ∈ d.todo)
    (heq : r.number = s.number) : j = k := by
  by_contra hne
  exact h.apart j k c d hne hj hk r hr s hs heq

/-- A row that no call has submitted yet has no submission. -/
theorem not_submitted (h : w.Tidy) {k : Nat} {row : CachedPost} {rest : List CachedPost}
    (hk : w.calls k = some ⟨row :: rest, none⟩) : ∀ s ∈ w.submissions, s.row ≠ row.number := by
  intro s hs hrow
  obtain ⟨d, hd, hid, hnum, hpend⟩ := (h.held k _ hk).2 row List.mem_cons_self
  obtain ⟨j, r, rest', p, hj, hr⟩ := h.fresh d hd hpend s hs (hrow.trans hnum.symm)
  have hjk := h.eq_of_held hj hk List.mem_cons_self List.mem_cons_self (hr.trans hnum)
  rw [hjk, hk] at hj
  cases hj

/-- The submission that a call is looking for is the only one of its row. -/
theorem submission_eq (h : w.Tidy) {k : Nat} {row : CachedPost} {rest : List CachedPost}
    {polling : Polling} (hk : w.calls k = some ⟨row :: rest, some polling⟩) {s : Submission}
    (hs : s ∈ w.submissions) (hrow : s.row = row.number) : s = ⟨row.number, polling.post⟩ :=
  List.inj_on_of_nodup_map h.once hs (h.polled k row rest polling hk) hrow

theorem add (h : w.Tidy) {author content username : String} {now : Nat} {rows : List CachedPost}
    (hadd : addOptimisticPost w.rows author content username now w.created = some rows) :
    Tidy { w with rows, created := w.created + 1 } := by
  obtain ⟨hnew, rfl⟩ := Rows.insert_eq_some.mp hadd
  constructor
  case keyed => exact h.keyed.append hnew
  case numbered =>
    refine h.numbered.append fun hmem => ?_
    obtain ⟨row, hrow, heq⟩ := List.mem_map.mp hmem
    have hlt := h.rows_lt row hrow
    have heq' : row.number = w.created := heq
    omega
  case rows_lt =>
    intro row hrow
    show row.number < w.created + 1
    rcases List.mem_append.mp hrow with hrow | hrow
    · have := h.rows_lt row hrow
      omega
    · rw [List.mem_singleton.mp hrow]
      exact Nat.lt_succ_self w.created
  case submissions_lt => exact fun s hs => Nat.lt_succ_of_lt (h.submissions_lt s hs)
  case held =>
    intro k call hk
    refine ⟨(h.held k call hk).1, fun r hr => ?_⟩
    obtain ⟨row, hrow, hof⟩ := (h.held k call hk).2 r hr
    exact ⟨row, List.mem_append_left _ hrow, hof⟩
  case apart => exact h.apart
  case polled => exact h.polled
  case fresh =>
    intro row hrow hpend s hs heq
    rcases List.mem_append.mp hrow with hrow | hrow
    · exact h.fresh row hrow hpend s hs heq
    · have hlt := h.submissions_lt s hs
      rw [List.mem_singleton.mp hrow] at heq
      have heq' : s.row = w.created := heq
      omega
  case once => exact h.once
  case posts => exact h.posts
  case own => exact h.own

theorem start (h : w.Tidy) {k : Nat} (hk : w.calls k = none)
    (hfree : ∀ row ∈ getPendingPosts w.rows, ∀ j call, w.calls j = some call →
      row.number ∉ call.todo.map CachedPost.number) :
    (w.proceed k (getPendingPosts w.rows)).Tidy where
  keyed := h.keyed
  numbered := h.numbered
  rows_lt := h.rows_lt
  submissions_lt := h.submissions_lt
  held := by
    intro j call hj
    by_cases hjk : j = k
    · subst hjk
      obtain rfl := proceed_self hj
      refine ⟨h.numbered.filter _, fun r hr => ?_⟩
      obtain ⟨hrow, hpend⟩ := List.mem_filter.mp hr
      exact ⟨r, hrow, rfl, rfl, hpend⟩
    · rw [w.proceed_ne _ hjk] at hj
      exact h.held j call hj
  apart := by
    intro i j c d hij hi hj r hr s hs heq
    by_cases hik : i = k
    · subst hik
      obtain rfl := proceed_self hi
      rw [w.proceed_ne _ (Ne.symm hij)] at hj
      exact hfree r hr j d hj (heq ▸ List.mem_map_of_mem hs)
    · rw [w.proceed_ne _ hik] at hi
      by_cases hjk : j = k
      · subst hjk
        obtain rfl := proceed_self hj
        exact hfree s hs i c hi (heq ▸ List.mem_map_of_mem hr)
      · rw [w.proceed_ne _ hjk] at hj
        exact h.apart i j c d hij hi hj r hr s hs heq
  polled := by
    intro j r rest p hj
    by_cases hjk : j = k
    · subst hjk
      cases congrArg SyncCall.polling (proceed_self hj)
    · rw [w.proceed_ne _ hjk] at hj
      exact h.polled j r rest p hj
  fresh := by
    intro row hrow hpend s hs heq
    obtain ⟨j, r, rest, p, hj, hr⟩ := h.fresh row hrow hpend s hs heq
    have hjk : j ≠ k := by
      rintro rfl
      rw [hk] at hj
      cases hj
    refine ⟨j, r, rest, p, ?_, hr⟩
    rw [w.proceed_ne _ hjk]
    exact hj
  once := h.once
  posts := h.posts
  own := h.own

/-- A call that only polls on keeps the rows that it has to do. -/
theorem held_polling (h : w.Tidy) {k : Nat} {todo : List CachedPost} {o : Option Polling}
    (hk : w.calls k = some ⟨todo, o⟩) (o' : Option Polling) (j : Nat) (call : SyncCall)
    (hj : (w.withCall k (some ⟨todo, o'⟩)).calls j = some call) :
    Rows.Keyed CachedPost.number call.todo ∧ ∀ r ∈ call.todo, Has w.rows r := by
  obtain ⟨old, hold, heq⟩ := old_of_withCall hk hj
  rw [← heq]
  exact h.held j old hold

theorem apart_polling (h : w.Tidy) {k : Nat} {todo : List CachedPost} {o : Option Polling}
    (hk : w.calls k = some ⟨todo, o⟩) (o' : Option Polling) (i j : Nat) (c d : SyncCall)
    (hij : i ≠ j) (hi : (w.withCall k (some ⟨todo, o'⟩)).calls i = some c)
    (hj : (w.withCall k (some ⟨todo, o'⟩)).calls j = some d) :
    ∀ r ∈ c.todo, ∀ s ∈ d.todo, r.number ≠ s.number := by
  obtain ⟨c', hc', heqc⟩ := old_of_withCall hk hi
  obtain ⟨d', hd', heqd⟩ := old_of_withCall hk hj
  rw [← heqc, ← heqd]
  exact h.apart i j c' d' hij hc' hd'

theorem submit (h : w.Tidy) {k : Nat} {row : CachedPost} {rest : List CachedPost}
    {post : Option Nat} (hk : w.calls k = some ⟨row :: rest, none⟩)
    (hnew : ∀ p ∈ post, ∀ s ∈ w.submissions, s.post ≠ some p) :
    Tidy { w.withCall k (some ⟨row :: rest, some ⟨post, 0⟩⟩) with
      submissions := w.submissions ++ [⟨row.number, post⟩] } := by
  have hnot := h.not_submitted hk
  constructor
  case keyed => exact h.keyed
  case numbered => exact h.numbered
  case rows_lt => exact h.rows_lt
  case submissions_lt =>
    intro s hs
    rcases List.mem_append.mp hs with hs | hs
    · exact h.submissions_lt s hs
    · obtain ⟨d, hd, _, hnum, _⟩ := (h.held k _ hk).2 row List.mem_cons_self
      rw [List.mem_singleton.mp hs]
      exact hnum ▸ h.rows_lt d hd
  case held => exact h.held_polling hk _
  case apart => exact h.apart_polling hk _
  case polled =>
    intro j r rest' p hj
    by_cases hjk : j = k
    · subst hjk
      have hj' : (w.withCall j _).calls j = some ⟨r :: rest', some p⟩ := hj
      rw [withCall_self] at hj'
      cases hj'
      exact List.mem_append_right _ (List.mem_singleton_self _)
    · have hj' : (w.withCall k _).calls j = some ⟨r :: rest', some p⟩ := hj
      rw [w.withCall_ne _ hjk] at hj'
      exact List.mem_append_left _ (h.polled j r rest' p hj')
  case fresh =>
    intro d hd hpend s hs heq
    rcases List.mem_append.mp hs with hs | hs
    · obtain ⟨j, r, rest', p, hj, hr⟩ := h.fresh d hd hpend s hs heq
      have hjk : j ≠ k := by
        rintro rfl
        rw [hk] at hj
        cases hj
      exact ⟨j, r, rest', p, (w.withCall_ne _ hjk).trans hj, hr⟩
    · rw [List.mem_singleton.mp hs] at heq
      exact ⟨k, row, rest, ⟨post, 0⟩, w.withCall_self k _, heq⟩
  case once =>
    rw [List.map_append, List.map_singleton, ← List.concat_eq_append]
    refine List.Nodup.concat (fun hmem => ?_) h.once
    obtain ⟨s, hs, heq⟩ := List.mem_map.mp hmem
    exact hnot s hs heq
  case posts =>
    intro s hs t ht p hsp htp
    rcases List.mem_append.mp hs with hs | hs <;> rcases List.mem_append.mp ht with ht | ht
    · exact h.posts s hs t ht p hsp htp
    · rw [List.mem_singleton.mp ht] at htp
      exact absurd hsp (hnew p htp s hs)
    · rw [List.mem_singleton.mp hs] at hsp
      exact absurd htp (hnew p hsp t ht)
    · rw [List.mem_singleton.mp hs, List.mem_singleton.mp ht]
  case own =>
    intro n q hnq
    obtain ⟨p, hp, hq⟩ := h.own n q hnq
    exact ⟨p, List.mem_append_left _ hp, hq⟩

section Proceed

variable {k : Nat} {row : CachedPost} {rest : List CachedPost} {o : Option Polling}

theorem sub_of_proceed (hk : w.calls k = some ⟨row :: rest, o⟩) {j : Nat} {call : SyncCall}
    (hj : (w.proceed k rest).calls j = some call) :
    ∃ old, w.calls j = some old ∧ ∀ r ∈ call.todo, r ∈ old.todo := by
  by_cases hjk : j = k
  · subst hjk
    obtain rfl := proceed_self hj
    exact ⟨_, hk, fun r hr => List.mem_cons_of_mem row hr⟩
  · rw [w.proceed_ne _ hjk] at hj
    exact ⟨call, hj, fun r hr => hr⟩

/-- What is in hand afterwards is not the row that has been done. -/
theorem number_ne_of_proceed (h : w.Tidy) (hk : w.calls k = some ⟨row :: rest, o⟩) {j : Nat}
    {call : SyncCall} (hj : (w.proceed k rest).calls j = some call) {r : CachedPost}
    (hr : r ∈ call.todo) : r.number ≠ row.number := by
  by_cases hjk : j = k
  · subst hjk
    obtain rfl := proceed_self hj
    have hnodup : (row.number :: rest.map CachedPost.number).Nodup := (h.held j _ hk).1
    intro heq
    exact (List.nodup_cons.mp hnodup).1 (heq ▸ List.mem_map_of_mem hr)
  · rw [w.proceed_ne _ hjk] at hj
    exact h.apart j k call _ hjk hj hk r hr row List.mem_cons_self

theorem held_proceed (h : w.Tidy) (hk : w.calls k = some ⟨row :: rest, o⟩)
    {rows : List CachedPost}
    (hrows : ∀ r, r.number ≠ row.number → Has w.rows r → Has rows r) (j : Nat) (call : SyncCall)
    (hj : (w.proceed k rest).calls j = some call) :
    Rows.Keyed CachedPost.number call.todo ∧ ∀ r ∈ call.todo, Has rows r := by
  obtain ⟨old, hold, hsub⟩ := sub_of_proceed hk hj
  obtain ⟨hkeyed, hhas⟩ := h.held j old hold
  refine ⟨?_, fun r hr => hrows r (h.number_ne_of_proceed hk hj hr) (hhas r (hsub r hr))⟩
  by_cases hjk : j = k
  · subst hjk
    obtain rfl := proceed_self hj
    rw [hk] at hold
    obtain rfl := Option.some.inj hold
    exact (List.nodup_cons.mp hkeyed).2
  · rw [w.proceed_ne _ hjk, hold] at hj
    obtain rfl := Option.some.inj hj
    exact hkeyed

theorem apart_proceed (h : w.Tidy) (hk : w.calls k = some ⟨row :: rest, o⟩) (i j : Nat)
    (c d : SyncCall) (hij : i ≠ j) (hi : (w.proceed k rest).calls i = some c)
    (hj : (w.proceed k rest).calls j = some d) :
    ∀ r ∈ c.todo, ∀ s ∈ d.todo, r.number ≠ s.number := by
  obtain ⟨c', hc', hsubc⟩ := sub_of_proceed hk hi
  obtain ⟨d', hd', hsubd⟩ := sub_of_proceed hk hj
  exact fun r hr s hs => h.apart i j c' d' hij hc' hd' r (hsubc r hr) s (hsubd s hs)

theorem polled_proceed (h : w.Tidy) (k : Nat) (todo : List CachedPost) (j : Nat) (r : CachedPost)
    (rest' : List CachedPost) (p : Polling)
    (hj : (w.proceed k todo).calls j = some ⟨r :: rest', some p⟩) :
    ⟨r.number, p.post⟩ ∈ w.submissions := by
  by_cases hjk : j = k
  · subst hjk
    cases congrArg SyncCall.polling (proceed_self hj)
  · rw [w.proceed_ne _ hjk] at hj
    exact h.polled j r rest' p hj

end Proceed

theorem has_markFailed {rows : List CachedPost} {r : CachedPost} (id : String)
    (h : Has rows r) : Has (markPendingPostFailed rows id) r := by
  obtain ⟨row, hrow, hid, hnum, hpend⟩ := h
  refine ⟨_, Rows.mem_updateAt.mpr ⟨row, hrow, rfl⟩, ?_⟩
  split
  · exact ⟨hid, hnum, rfl⟩
  · exact ⟨hid, hnum, hpend⟩

/-- The row of a call that is done is pending, and it is the one with its id. -/
theorem eq_of_id (h : w.Tidy) {k : Nat} {row : CachedPost} {rest : List CachedPost}
    {o : Option Polling} (hk : w.calls k = some ⟨row :: rest, o⟩) {y : CachedPost}
    (hy : y ∈ w.rows) (hid : y.id = row.id) : y.number = row.number ∧ y.isPending = true := by
  obtain ⟨d, hd, hdid, hnum, hpend⟩ := (h.held k _ hk).2 row List.mem_cons_self
  obtain rfl := h.keyed.eq_of_key hy hd (hid.trans hdid.symm)
  exact ⟨hnum, hpend⟩

theorem reject (h : w.Tidy) {k : Nat} {row : CachedPost} {rest : List CachedPost}
    (hk : w.calls k = some ⟨row :: rest, none⟩) :
    Tidy { w.proceed k rest with rows := markPendingPostFailed w.rows row.id } := by
  -- The rows are as before, but for a status that was pending or failed.
  have hrow_of : ∀ d ∈ markPendingPostFailed w.rows row.id, ∃ y ∈ w.rows,
      y.number = d.number ∧ (d.isPending = true → y.isPending = true) := by
    intro d hd
    obtain ⟨y, hy, rfl⟩ := Rows.mem_updateAt.mp hd
    refine ⟨y, hy, ?_⟩
    split
    · rename_i hid
      exact ⟨rfl, fun _ => (h.eq_of_id hk hy hid).2⟩
    · exact ⟨rfl, id⟩
  constructor
  case keyed =>
    exact h.keyed.updateAt (f := fun row => { row with syncStatus := .failed }) (fun _ => rfl) _
  case numbered =>
    show ((markPendingPostFailed w.rows row.id).map CachedPost.number).Nodup
    rw [markPendingPostFailed, Rows.map_updateAt]
    · exact h.numbered
    · exact fun _ => rfl
  case rows_lt =>
    intro d hd
    obtain ⟨y, hy, hnum, _⟩ := hrow_of d hd
    exact hnum ▸ h.rows_lt y hy
  case submissions_lt => exact h.submissions_lt
  case held => exact h.held_proceed hk fun r _ hr => has_markFailed row.id hr
  case apart => exact h.apart_proceed hk
  case polled => exact h.polled_proceed k rest
  case fresh =>
    intro d hd hpend s hs heq
    obtain ⟨y, hy, hnum, hypend⟩ := hrow_of d hd
    obtain ⟨j, r, rest', p, hj, hr⟩ := h.fresh y hy (hypend hpend) s hs (heq.trans hnum.symm)
    have hjk : j ≠ k := by
      rintro rfl
      rw [hk] at hj
      cases hj
    exact ⟨j, r, rest', p, (w.proceed_ne _ hjk).trans hj, hr.trans hnum⟩
  case once => exact h.once
  case posts => exact h.posts
  case own => exact h.own

theorem again (h : w.Tidy) {k : Nat} {row : CachedPost} {rest : List CachedPost}
    {polling polling' : Polling} (hk : w.calls k = some ⟨row :: rest, some polling⟩)
    (hpost : polling'.post = polling.post) :
    (w.withCall k (some ⟨row :: rest, some polling'⟩)).Tidy := by
  constructor
  case keyed => exact h.keyed
  case numbered => exact h.numbered
  case rows_lt => exact h.rows_lt
  case submissions_lt => exact h.submissions_lt
  case held => exact h.held_polling hk _
  case apart => exact h.apart_polling hk _
  case polled =>
    intro j r rest' p hj
    by_cases hjk : j = k
    · subst hjk
      rw [withCall_self] at hj
      cases hj
      rw [hpost]
      exact h.polled j row rest polling hk
    · rw [w.withCall_ne _ hjk] at hj
      exact h.polled j r rest' p hj
  case fresh =>
    intro d hd hpend s hs heq
    obtain ⟨j, r, rest', p, hj, hr⟩ := h.fresh d hd hpend s hs heq
    by_cases hjk : j = k
    · subst hjk
      rw [hk] at hj
      cases hj
      exact ⟨j, row, rest, polling', w.withCall_self j _, hr⟩
    · exact ⟨j, r, rest', p, (w.withCall_ne _ hjk).trans hj, hr⟩
  case once => exact h.once
  case posts => exact h.posts
  case own => exact h.own

/-- A confirmed row is no longer to be done; the others are as they were. -/
theorem mem_confirmPendingPost {rows : List CachedPost} {localId realId : String}
    {d : CachedPost} (hd : d ∈ confirmPendingPost rows localId realId) :
    (d ∈ rows ∧ d.id ≠ localId) ∨
      ∃ y ∈ rows, y.id = localId ∧ d = { y with id := realId, syncStatus := .synced } := by
  unfold confirmPendingPost at hd
  split at hd
  · obtain ⟨hd, hne⟩ := List.mem_filter.mp hd
    exact Or.inl ⟨hd, by simpa using hne⟩
  · obtain ⟨y, hy, rfl⟩ := Rows.mem_updateAt.mp hd
    split
    · rename_i hid
      exact Or.inr ⟨y, hy, hid, rfl⟩
    · rename_i hid
      exact Or.inl ⟨hy, hid⟩

theorem mem_confirmPendingPost_of_ne {rows : List CachedPost} {localId realId : String}
    {d : CachedPost} (hd : d ∈ rows) (hne : d.id ≠ localId) :
    d ∈ confirmPendingPost rows localId realId := by
  unfold confirmPendingPost
  split
  · exact List.mem_filter.mpr ⟨hd, by simpa using hne⟩
  · exact Rows.mem_updateAt.mpr ⟨d, hd, (if_neg hne).symm⟩

theorem keyed_confirmPendingPost {rows : List CachedPost} (h : Rows.Keyed CachedPost.id rows)
    (localId realId : String) :
    Rows.Keyed CachedPost.id (confirmPendingPost rows localId realId) := by
  unfold confirmPendingPost
  split
  · exact h.filter _
  · rename_i hnew
    exact h.rename hnew (fun _ => rfl)

theorem numbers_confirmPendingPost (rows : List CachedPost) (localId realId : String) :
    ((confirmPendingPost rows localId realId).map CachedPost.number).Sublist
      (rows.map CachedPost.number) := by
  unfold confirmPendingPost
  split
  · exact List.Sublist.map _ List.filter_sublist
  · rw [Rows.map_updateAt]
    exact fun _ => rfl

theorem confirm (h : w.Tidy) {k : Nat} {row : CachedPost} {rest : List CachedPost}
    {polling : Polling} {p : Nat} (hk : w.calls k = some ⟨row :: rest, some polling⟩)
    (hp : polling.post = some p) :
    Tidy { w.proceed k rest with
      rows := confirmPendingPost w.rows row.id (toString p)
      confirmed := w.confirmed ++ [(row.number, toString p)] } := by
  constructor
  case keyed => exact keyed_confirmPendingPost h.keyed _ _
  case numbered => exact List.Sublist.nodup (numbers_confirmPendingPost _ _ _) h.numbered
  case rows_lt =>
    intro d hd
    rcases mem_confirmPendingPost hd with ⟨hd, _⟩ | ⟨y, hy, _, rfl⟩
    · exact h.rows_lt d hd
    · exact h.rows_lt y hy
  case submissions_lt => exact h.submissions_lt
  case held =>
    refine h.held_proceed hk fun r hne hr => ?_
    obtain ⟨d, hd, hid, hnum, hpend⟩ := hr
    refine ⟨d, mem_confirmPendingPost_of_ne hd fun hdid => hne ?_, hid, hnum, hpend⟩
    exact hnum.symm.trans (h.eq_of_id hk hd hdid).1
  case apart => exact h.apart_proceed hk
  case polled => exact h.polled_proceed k rest
  case fresh =>
    intro d hd hpend s hs heq
    rcases mem_confirmPendingPost hd with ⟨hold, hdid⟩ | ⟨y, _, _, rfl⟩
    · obtain ⟨j, r, rest', q, hj, hr⟩ := h.fresh d hold hpend s hs heq
      have hjk : j ≠ k := by
        rintro rfl
        rw [hk] at hj
        cases hj
        -- The row of the call is the one with this number, and has its id.
        obtain ⟨e, he, heid, henum, _⟩ := (h.held j _ hk).2 row List.mem_cons_self
        obtain rfl := h.numbered.eq_of_key he hold (henum.trans hr)
        exact hdid heid
      exact ⟨j, r, rest', q, (w.proceed_ne _ hjk).trans hj, hr⟩
    · cases hpend
  case once => exact h.once
  case posts => exact h.posts
  case own =>
    intro n q hnq
    rcases List.mem_append.mp hnq with hnq | hnq
    · exact h.own n q hnq
    · obtain ⟨rfl, rfl⟩ : n = row.number ∧ q = toString p := by simpa using hnq
      exact ⟨p, hp ▸ h.polled k row rest polling hk, rfl⟩

theorem step (h : w.Tidy) (hindexed : w.Indexed l) (hl : Step w l w') : w'.Tidy := by
  cases hl with
  | add hadd => exact h.add hadd
  | start hk => exact h.start hk hindexed
  | reject hk hresult => exact h.reject hk
  | submit hk hresult hnew => exact h.submit hk hnew
  | @confirm k row rest polling answer realId hk hfound =>
    have hown := hindexed row rest polling hk
    rw [hfound] at hown
    obtain ⟨p, hp, rfl⟩ := hown
    exact h.confirm hk hp
  | again hk hfound hlt => exact h.again hk rfl
  | @giveUp k row rest polling answer hk hfound hge =>
    have hown := hindexed row rest polling hk
    rw [hfound] at hown
    exact absurd hown hge

theorem of_run {ls : List FeedLabel} (h : Run (Run.Guarded Step Indexed) Feed.empty ls w) :
    w.Tidy :=
  h.invariant (fun _ _ _ hi hl => hi.step hl.2 hl.1) empty

end Tidy

/-! ## What a call can still do -/

theorem proceed_of_mem {w : Feed} {k : Nat} {todo : List CachedPost} {r : CachedPost}
    (h : r ∈ todo) : (w.proceed k todo).calls k = some ⟨todo, none⟩ := by
  unfold proceed
  rw [withCall_self, if_neg (List.ne_nil_of_mem h)]

/-- A call can reject the rows before `r` and then submit `r`. -/
theorem exists_submits {k : Nat} {r : CachedPost} {todo : List CachedPost} (hr : r ∈ todo)
    {w : Feed} (hk : w.calls k = some ⟨todo, none⟩) : ∃ ls w', Run Step w ls w' ∧
      (∀ j, j ≠ k → w'.calls j = w.calls j) ∧
      w'.submissions = w.submissions ++ [⟨r.number, none⟩] := by
  induction todo generalizing w with
  | nil => cases hr
  | cons row rest ih =>
    by_cases hrow : r = row
    · subst hrow
      have hstep := @Step.submit w k r rest (some ⟨some "hash", none⟩) none "hash" hk rfl nofun
      exact ⟨_, _, Run.single hstep, fun j hj => w.withCall_ne _ hj, rfl⟩
    · have hrest : r ∈ rest := (List.mem_cons.mp hr).resolve_left hrow
      have hstep := @Step.reject w k row rest none none hk rfl
      obtain ⟨ls, w', hrun, hcalls, hsub⟩ := ih hrest (w := { w.proceed k rest with
        rows := markPendingPostFailed w.rows row.id }) (proceed_of_mem (w := w) hrest)
      exact ⟨_, w', (Run.single hstep).trans hrun,
        fun j hj => (hcalls j hj).trans (w.proceed_ne _ hj), hsub⟩

/-- A call that is looking for a post can be left without an answer until it gives up. -/
theorem exists_gives_up {k : Nat} {row : CachedPost} {rest : List CachedPost} {polling : Polling}
    {w : Feed} (hk : w.calls k = some ⟨row :: rest, some polling⟩) : ∃ ls w', Run Step w ls w' ∧
      (∀ j, j ≠ k → w'.calls j = w.calls j) ∧ w'.calls k = (w.proceed k rest).calls k ∧
      w'.submissions = w.submissions := by
  generalize hn : maxRetries - polling.attempt = n
  induction n generalizing w polling with
  | zero =>
    have hstep := @Step.giveUp w k row rest polling none hk rfl (by omega)
    exact ⟨_, _, Run.single hstep, fun j hj => w.proceed_ne _ hj, rfl, rfl⟩
  | succ n ih =>
    by_cases hlt : polling.attempt + 1 < maxRetries
    · have hstep := @Step.again w k row rest polling none hk rfl hlt
      have hleft : maxRetries - (polling.attempt + 1) = n := by omega
      obtain ⟨ls, w', hrun, hcalls, hself, hsub⟩ := ih (w.withCall_self k
        (some ⟨row :: rest, some { polling with attempt := polling.attempt + 1 }⟩)) hleft
      refine ⟨_, w', (Run.single hstep).trans hrun,
        fun j hj => (hcalls j hj).trans (w.withCall_ne _ hj), hself.trans ?_, hsub⟩
      unfold proceed
      rw [withCall_self, withCall_self]
    · have hstep := @Step.giveUp w k row rest polling none hk rfl hlt
      exact ⟨_, _, Run.single hstep, fun j hj => w.proceed_ne _ hj, rfl, rfl⟩

/-- There is a row to be done with this number. -/
def Left (w : Feed) (n : Nat) : Prop := ∃ row ∈ getPendingPosts w.rows, row.number = n

theorem left_markFailed {rows : List CachedPost} {n : Nat} (id : String)
    (h : ∃ row ∈ getPendingPosts rows, row.number = n) :
    ∃ row ∈ getPendingPosts (markPendingPostFailed rows id), row.number = n := by
  obtain ⟨row, hrow, hn⟩ := h
  obtain ⟨hrow, hpend⟩ := List.mem_filter.mp hrow
  obtain ⟨row', hrow', _, hnum, hpend'⟩ := Tidy.has_markFailed id ⟨row, hrow, rfl, rfl, hpend⟩
  exact ⟨row', List.mem_filter.mpr ⟨hrow', hpend'⟩, hnum.trans hn⟩

/-- A call can reject all that it has before it. -/
theorem exists_done {k : Nat} {todo : List CachedPost} {w : Feed}
    (hk : w.calls k = if todo = [] then none else some ⟨todo, none⟩) : ∃ ls w', Run Step w ls w' ∧
      w'.calls k = none ∧ w'.submissions = w.submissions ∧ ∀ n, w.Left n → w'.Left n := by
  induction todo generalizing w with
  | nil =>
    rw [if_pos rfl] at hk
    exact ⟨_, w, .nil, hk, rfl, fun n hn => hn⟩
  | cons row rest ih =>
    rw [if_neg (List.cons_ne_nil row rest)] at hk
    have hstep := @Step.reject w k row rest none none hk rfl
    obtain ⟨ls, w', hrun, hdone, hsub, hleft⟩ := ih (w := { w.proceed k rest with
      rows := markPendingPostFailed w.rows row.id }) (w.withCall_self k _)
    exact ⟨_, w', (Run.single hstep).trans hrun, hdone, hsub,
      fun n hn => hleft n (left_markFailed row.id hn)⟩

theorem not_once_of_again {w : Feed} {subs : List Submission} {s : Submission}
    (h : w.submissions = subs ++ [s]) {t : Submission} (ht : t ∈ subs) (hrow : t.row = s.row) :
    ¬w.PublishedOnce := by
  intro hw
  have hnodup := hw.once
  rw [h, List.map_append, List.map_singleton] at hnodup
  exact (List.nodup_append.mp hnodup).2.2 t.row (List.mem_map_of_mem ht) s.row
    (List.mem_singleton_self _) hrow

/-- After a step that does not meet the condition, a row can be published twice, or it has been
confirmed as another. -/
theorem Tidy.exists_not_publishedOnce {w w' : Feed} {l : FeedLabel} (h : w.Tidy)
    (hl : Step w l w') (hnot : ¬w.Indexed l) :
    ∃ ls w'', Run Step w' ls w'' ∧ ¬w''.PublishedOnce := by
  cases hl with
  | add hadd => exact absurd trivial hnot
  | reject hk hresult => exact absurd trivial hnot
  | submit hk hresult hnew => exact absurd trivial hnot
  | @start k hk =>
    -- Another call has the row in hand as well, and both submit it.
    have hex : ∃ row ∈ getPendingPosts w.rows, ∃ j call, w.calls j = some call ∧
        row.number ∈ call.todo.map CachedPost.number := by
      by_contra hnone
      refine hnot fun row hrow j call hj hmem => hnone ⟨row, hrow, j, call, hj, hmem⟩
    obtain ⟨row, hrow, j, call, hj, hmem⟩ := hex
    obtain ⟨r, hr, hnum⟩ := List.mem_map.mp hmem
    have hjk : j ≠ k := by
      rintro rfl
      rw [hk] at hj
      cases hj
    obtain ⟨ls, w₁, hrun, hcalls, hsub⟩ := exists_submits hrow (proceed_of_mem (w := w) hrow)
    have hj₁ : w₁.calls j = some call := ((hcalls j hjk).trans (w.proceed_ne _ hjk)).trans hj
    have hlast : (⟨row.number, none⟩ : Submission) ∈ w₁.submissions :=
      hsub ▸ List.mem_append_right _ (List.mem_singleton_self _)
    obtain ⟨todo, o⟩ := call
    cases o with
    | none =>
      obtain ⟨ls', w₂, hrun', _, hsub'⟩ := exists_submits hr hj₁
      exact ⟨_, w₂, hrun.trans hrun', not_once_of_again hsub' hlast hnum.symm⟩
    | some polling =>
      obtain ⟨first, rest, rfl⟩ := List.exists_cons_of_ne_nil (List.ne_nil_of_mem hr)
      rcases List.mem_cons.mp hr with rfl | hr
      · exact ⟨_, w₁, hrun, not_once_of_again hsub (h.polled j r rest polling hj) hnum⟩
      · obtain ⟨ls', w₂, hrun', _, hself, hsub'⟩ := exists_gives_up hj₁
        rw [proceed_of_mem hr] at hself
        obtain ⟨ls'', w₃, hrun'', _, hsub''⟩ := exists_submits hr hself
        exact ⟨_, w₃, (hrun.trans hrun').trans hrun'',
          not_once_of_again hsub'' (hsub' ▸ hlast) hnum.symm⟩
  | @confirm k row rest polling answer realId hk hfound =>
    -- The row has one submission, and its post is another.
    refine ⟨_, _, .nil, fun hw => hnot fun row' rest' polling' hk' => ?_⟩
    obtain ⟨⟨rfl, rfl⟩, rfl⟩ : (row = row' ∧ rest = rest') ∧ polling = polling' := by
      simpa using hk.symm.trans hk'
    rw [hfound]
    obtain ⟨p, hp, hid⟩ := hw.own row.number realId
      (List.mem_append_right _ (List.mem_singleton_self _))
    have heq := h.submission_eq hk hp rfl
    exact ⟨p, (congrArg Submission.post heq).symm, hid⟩
  | @again k row rest polling answer hk hfound hlt =>
    refine absurd (fun row' rest' polling' hk' => ?_) hnot
    obtain ⟨⟨rfl, rfl⟩, rfl⟩ : (row = row' ∧ rest = rest') ∧ polling = polling' := by
      simpa using hk.symm.trans hk'
    rw [hfound]
    exact hlt
  | @giveUp k row rest polling answer hk hfound hge =>
    -- The row is left to be done, and the next call submits it again.
    have hleft : ∃ d ∈ getPendingPosts (markPendingPostFailed w.rows row.id),
        d.number = row.number := by
      obtain ⟨d, hd, _, hnum, hpend⟩ := (h.held k _ hk).2 row List.mem_cons_self
      exact left_markFailed row.id ⟨d, List.mem_filter.mpr ⟨hd, hpend⟩, hnum⟩
    obtain ⟨ls, w₁, hrun, hdone, hsub, hkept⟩ := exists_done (w := { w.proceed k rest with
      rows := markPendingPostFailed w.rows row.id }) (w.withCall_self k _)
    obtain ⟨d, hd, hnum⟩ := hkept row.number hleft
    obtain ⟨ls', w₂, hrun', _, hsub'⟩ := exists_submits hd (proceed_of_mem (w := w₁) hd)
    have hmem : ⟨row.number, polling.post⟩ ∈ w₁.submissions :=
      hsub ▸ h.polled k row rest polling hk
    exact ⟨_, w₂, (hrun.snoc (.start hdone)).trans hrun', not_once_of_again hsub' hmem hnum.symm⟩

end Feed

/-- In every run whose steps meet the condition, no row is published twice and every confirmed
row is confirmed as itself; and after the first step that does not meet it, the run goes on
to a state where this fails. -/
theorem syncPendingPosts_publishes_once {ls : List FeedLabel} {w : Feed}
    (h : Run (Run.Guarded Feed.Step Feed.Indexed) Feed.empty ls w) :
    w.PublishedOnce ∧
    ∀ l w', Feed.Step w l w' → ¬w.Indexed l →
      ∃ ls' w'', Run Feed.Step w' ls' w'' ∧ ¬w''.PublishedOnce := by
  constructor
  · exact (Feed.Tidy.of_run h).publishedOnce
  · intro l w' hl hnot
    exact (Feed.Tidy.of_run h).exists_not_publishedOnce hl hnot

/-- What the indexer tells of one post of the text. -/
def listed (id : String) : Option (List IndexedPost) := some [⟨id, some "gm"⟩]

def signed : Option SubmitResult := some ⟨some "a1b2", none⟩

theorem syncPendingPosts_publishes_once_indexed : ∃ ls w,
    Run (Run.Guarded Feed.Step Feed.Indexed) Feed.empty ls w ∧ w.PublishedOnce ∧
      w.confirmed = [(0, "7")] := by
  have hrun := Run.snoc (Run.snoc (Run.snoc (Run.snoc (Run.snoc
    (Run.nil : Run (Run.Guarded Feed.Step Feed.Indexed) Feed.empty [] _)
    ⟨@Feed.Step.add _ "alice" "gm" "alice" 1700000000000 _ rfl, trivial⟩)
    ⟨.start (k := 0) rfl, nofun⟩)
    ⟨@Feed.Step.submit _ 0 _ _ signed (some 7) "a1b2" rfl rfl (fun _ _ _ h => by cases h), trivial⟩)
    ⟨@Feed.Step.again _ 0 _ _ _ none rfl rfl (by decide), fun row rest polling hk => by
      have hk' : some (SyncCall.mk _ (some ⟨some 7, 0⟩)) = some ⟨row :: rest, some polling⟩ := hk
      simp only [Option.some.injEq, SyncCall.mk.injEq] at hk'
      obtain ⟨_, rfl⟩ := hk'
      show 0 + 1 < maxRetries
      decide⟩)
    ⟨@Feed.Step.confirm _ 0 _ _ _ (listed "7") "7" rfl rfl, fun row rest polling hk => by
      have hk' : some (SyncCall.mk [_] (some ⟨some 7, 1⟩)) = some ⟨row :: rest, some polling⟩ := hk
      simp only [Option.some.injEq, SyncCall.mk.injEq, List.cons.injEq] at hk'
      obtain ⟨⟨rfl, _⟩, rfl⟩ := hk'
      exact ⟨7, rfl, by decide⟩⟩
  exact ⟨_, _, hrun, (syncPendingPosts_publishes_once hrun).1, rfl⟩

/-- An earlier post of the same text is taken for the new one. -/
theorem confirmed_as_another : ∃ ls w, Run Feed.Step Feed.empty ls w ∧
    w.submissions = [⟨0, some 7⟩] ∧ w.confirmed = [(0, "3")] ∧ ¬w.PublishedOnce := by
  refine ⟨_, _, .snoc (.snoc (.snoc (.snoc .nil
    (@Feed.Step.add _ "alice" "gm" "alice" 1700000000000 _ rfl))
    (.start (k := 0) rfl))
    (@Feed.Step.submit _ 0 _ _ signed (some 7) "a1b2" rfl rfl nofun))
    (@Feed.Step.confirm _ 0 _ _ _ (listed "3") "3" rfl rfl), rfl, rfl, fun h => ?_⟩
  obtain ⟨p, hp, hid⟩ := h.own 0 "3" (List.mem_singleton_self _)
  have hseven : (⟨0, some p⟩ : Submission) = ⟨0, some 7⟩ := List.mem_singleton.mp hp
  obtain rfl := Option.some.inj (congrArg Submission.post hseven)
  exact absurd hid (by decide)

end Mobile
end Linkora
