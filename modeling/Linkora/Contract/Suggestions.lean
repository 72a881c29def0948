import Linkora.Contract.Feeds
import Linkora.Contract.FollowModel

/-!
# Follow suggestions

`get_suggested_follows` walks over the followees of the followees of a user.  Two nested
loops share the set of the accounts to leave out, the list of what has been found, and a
budget of edges, and they stop as soon as the page that was asked for is complete.
-/

namespace Linkora
namespace Contract

/-! ## The walk -/

/-- The state of the two loops. -/
structure Suggest where
  excluded : Store Address Bool
  results : List Address
  scans : Nat

/-- The user and the accounts the user follows. -/
def excludedAtFirst (g : Graph) (user : Address) : Store Address Bool :=
  (List.range (g.following.size user)).foldl
    (fun excluded seq =>
      match g.following.idx.get (user, seq) with
      | some followee => excluded.set followee true
      | none => excluded)
    ((∅ : Store Address Bool).set user true)

def scanCandidate (g : Graph) (mid : Address) (j : Nat) (t : Suggest) : Suggest :=
  match g.following.idx.get (mid, j) with
  | some candidate =>
    if t.excluded.has candidate then { t with scans := t.scans + 1 }
    else
      { excluded := t.excluded.set candidate true
        results := t.results ++ [candidate]
        scans := t.scans + 1 }
  | none => { t with scans := t.scans + 1 }

/-- The loops go on. -/
def Suggest.Unfinished (t : Suggest) (target : Nat) : Prop :=
  t.results.length < target ∧ t.scans < MAX_SUGGEST_SCAN

instance (t : Suggest) (target : Nat) : Decidable (t.Unfinished target) :=
  inferInstanceAs (Decidable (_ ∧ _))

/-- The inner loop, over the `rest` slots of `mid` from slot `j` on. -/
def scanFollowees (g : Graph) (target : Nat) (mid : Address) :
    (rest j : Nat) → Suggest → Suggest
  | 0, _, t => t
  | rest + 1, j, t =>
    if t.Unfinished target then
      scanFollowees g target mid rest (j + 1) (scanCandidate g mid j t)
    else t

/-- The outer loop, over the `rest` slots of the user from slot `hop` on. -/
def scanHops (g : Graph) (target : Nat) (user : Address) : (rest hop : Nat) → Suggest → Suggest
  | 0, _, t => t
  | rest + 1, hop, t =>
    if t.Unfinished target then
      match g.following.idx.get (user, hop) with
      | some mid =>
        scanHops g target user rest (hop + 1)
          (scanFollowees g target mid (g.following.size mid) 0 t)
      | none => scanHops g target user rest (hop + 1) t
    else t

def getSuggestedFollows (s : State) (user : Address) (offset limit : Nat) :
    Except Panic (List Address) := do
  validateNonDefaultAddress "user" user
  requireWithError (0 < limit ∧ limit ≤ MAX_PAGE_LIMIT) "limit must be between 1 and 50"
  let target := min (offset + limit) U32_MAX
  let t := scanHops s.graph target user (s.graph.following.size user) 0
    { excluded := excludedAtFirst s.graph user, results := [], scans := 0 }
  paginate t.results offset limit

/-! ## What there is to find -/

namespace Graph

/-- The accounts that a user follows, in the order of the index. -/
def followees (g : Graph) (user : Address) : List Address :=
  g.following.slice user 0 (g.following.size user)

/-- The accounts at the end of the second-hop edges, in the order of the index. -/
def secondHop (g : Graph) (user : Address) : List Address :=
  (g.followees user).flatMap g.followees

/-- Neither the user nor somebody the user follows. -/
def isStranger (g : Graph) (user candidate : Address) : Bool :=
  candidate != user && !(g.followees user).contains candidate

/-- The strangers among the first second-hop accounts, each where it is met first. -/
def suggestions (g : Graph) (user : Address) : List Address :=
  (((g.secondHop user).take MAX_SUGGEST_SCAN).filter fun a => g.isStranger user a).eraseDups

end Graph

/-! ## What the walk finds -/

theorem Graph.isStranger_eq_false {g : Graph} {user a : Address} :
    g.isStranger user a = false ↔ a = user ∨ a ∈ g.followees user := by
  rw [isStranger, Bool.and_eq_false_iff, bne_eq_false_iff_eq, Bool.not_eq_false',
    List.contains_iff_mem]

theorem excluded_of_slots (g : Graph) (user a : Address) (start n : Nat)
    (excluded : Store Address Bool) :
    ((List.range' start n).foldl
      (fun excluded seq =>
        match g.following.idx.get (user, seq) with
        | some followee => excluded.set followee true
        | none => excluded) excluded).has a = true ↔
      excluded.has a = true ∨ a ∈ g.following.slice user start n := by
  induction n generalizing start excluded with
  | zero => simp [Index.slice_zero]
  | succ n ih =>
    rw [List.range'_succ, List.foldl_cons, ih, Index.slice_succ]
    cases g.following.idx.get (user, start) with
    | none => rfl
    | some followee =>
      show (excluded.set followee true).has a = true ∨ _ ↔ _ ∨ a ∈ followee :: _
      rw [Store.has_set, List.mem_cons]
      split
      · rename_i heq
        simp [heq]
      · rename_i hne
        simp [hne]

theorem has_excludedAtFirst (g : Graph) (user a : Address) :
    (excludedAtFirst g user).has a = true ↔ g.isStranger user a = false := by
  rw [excludedAtFirst, List.range_eq_range', excluded_of_slots, Store.has_set,
    Graph.isStranger_eq_false, Graph.followees]
  split
  · rename_i heq
    simp [heq]
  · rename_i hne
    simp [hne]

namespace Suggest

variable {g : Graph} {user : Address} {target : Nat}

/-- The state once the accounts `seen` have been met, in this order. -/
structure After (g : Graph) (user : Address) (target : Nat) (seen : List Address)
    (t : Suggest) : Prop where
  results : t.results = (seen.filter fun a => g.isStranger user a).eraseDups
  excluded : ∀ a, t.excluded.has a = true ↔ g.isStranger user a = false ∨ a ∈ t.results
  scans : t.scans = seen.length
  short : t.results.length ≤ target
  budget : t.scans ≤ MAX_SUGGEST_SCAN

theorem After.start (g : Graph) (user : Address) (target : Nat) :
    After g user target [] { excluded := excludedAtFirst g user, results := [], scans := 0 } where
  results := rfl
  excluded a := by
    rw [has_excludedAtFirst]
    simp
  scans := rfl
  short := Nat.zero_le _
  budget := Nat.zero_le _

theorem After.scanCandidate {seen : List Address} {t : Suggest} {mid candidate : Address} {j : Nat}
    (h : After g user target seen t) (hgo : t.Unfinished target)
    (hslot : g.following.idx.get (mid, j) = some candidate) :
    After g user target (seen ++ [candidate]) (scanCandidate g mid j t) := by
  have hscans : t.scans + 1 = (seen ++ [candidate]).length := by
    rw [List.length_append, List.length_singleton, h.scans]
  have hbudget : t.scans + 1 ≤ MAX_SUGGEST_SCAN := hgo.2
  simp only [Contract.scanCandidate, hslot]
  split
  · rename_i hexcluded
    refine ⟨?_, h.excluded, hscans, h.short, hbudget⟩
    rw [List.filter_append]
    rcases (h.excluded candidate).mp hexcluded with hknown | hmet
    · rw [List.filter_singleton, hknown, Bool.cond_false, List.append_nil]
      exact h.results
    · rw [h.results, List.mem_eraseDups] at hmet
      have hstranger := (List.mem_filter.mp hmet).2
      rw [List.filter_singleton, hstranger, Bool.cond_true, eraseDups_concat,
        if_pos (List.contains_iff_mem.mpr hmet)]
      exact h.results
  · rename_i hexcluded
    have hnew := mt (h.excluded candidate).mpr hexcluded
    rw [not_or, Bool.not_eq_false] at hnew
    refine ⟨?_, fun a => ?_, hscans, ?_, hbudget⟩
    · have hfresh : ¬(seen.filter fun a => g.isStranger user a).contains candidate = true := by
        rw [List.contains_iff_mem, ← List.mem_eraseDups, ← h.results]
        exact hnew.2
      rw [List.filter_append, List.filter_singleton, hnew.1, Bool.cond_true, eraseDups_concat,
        if_neg hfresh, ← h.results]
    · rw [Store.has_set, List.mem_append, List.mem_singleton]
      split
      · rename_i heq
        exact ⟨fun _ => Or.inr (Or.inr heq), fun _ => rfl⟩
      · rename_i hne
        rw [h.excluded a, or_iff_left hne]
    · have hmore := hgo.1
      rw [List.length_append, List.length_singleton]
      omega

/-- The walk over the accounts `all` has ended with them, or has stopped before. -/
def Walked (g : Graph) (user : Address) (target : Nat) (all : List Address) (t : Suggest) : Prop :=
  ∃ seen, seen <+: all ∧ After g user target seen t ∧ (t.Unfinished target → seen = all)

theorem After.walked {seen : List Address} {t : Suggest} (h : After g user target seen t) :
    Walked g user target seen t := ⟨seen, List.prefix_rfl, h, fun _ => rfl⟩

theorem Walked.after {all : List Address} {t : Suggest} (h : Walked g user target all t)
    (hgo : t.Unfinished target) : After g user target all t := by
  obtain ⟨seen, -, hafter, hall⟩ := h
  exact hall hgo ▸ hafter

/-- A walk that has stopped has stopped before whatever is still to come. -/
theorem Walked.stopped {all : List Address} {t : Suggest} (h : Walked g user target all t)
    (hstop : ¬t.Unfinished target) (more : List Address) :
    Walked g user target (all ++ more) t := by
  obtain ⟨seen, hfront, hafter, -⟩ := h
  exact ⟨seen, hfront.trans (List.prefix_append _ _), hafter, fun hgo => absurd hgo hstop⟩

theorem Walked.scanFollowees (hwf : g.WellFormed) {mid : Address} (rest j : Nat)
    (hrest : j + rest ≤ g.following.size mid) {all : List Address} {t : Suggest}
    (h : Walked g user target all t) :
    Walked g user target (all ++ g.following.slice mid j rest)
      (scanFollowees g target mid rest j t) := by
  induction rest generalizing j all t with
  | zero =>
    rw [Index.slice_zero, List.append_nil]
    exact h
  | succ rest ih =>
    rw [Contract.scanFollowees]
    split
    · rename_i hgo
      obtain ⟨candidate, hslot⟩ := ((hwf.following mid).present_iff j).mpr (by omega)
      have hnext := ((h.after hgo).scanCandidate hgo hslot).walked
      have hloop := ih (j + 1) (by omega) hnext
      rw [Index.slice_succ, hslot]
      rw [List.append_assoc, List.singleton_append] at hloop
      exact hloop
    · rename_i hstop
      exact h.stopped hstop _

theorem Walked.scanHops (hwf : g.WellFormed) (rest hop : Nat) {all : List Address} {t : Suggest}
    (h : Walked g user target all t) :
    Walked g user target (all ++ (g.following.slice user hop rest).flatMap g.followees)
      (scanHops g target user rest hop t) := by
  induction rest generalizing hop all t with
  | zero =>
    rw [Index.slice_zero, List.flatMap_nil, List.append_nil]
    exact h
  | succ rest ih =>
    rw [Contract.scanHops]
    split
    · cases hslot : g.following.idx.get (user, hop) with
      | none =>
        rw [Index.slice_succ, hslot]
        exact ih (hop + 1) h
      | some mid =>
        have hmid := h.scanFollowees hwf (g.following.size mid) 0 (Nat.zero_add _).le
        have hloop := ih (hop + 1) hmid
        rw [Index.slice_succ, hslot]
        show Walked g user target (all ++ (mid :: _).flatMap g.followees) _
        rw [List.flatMap_cons, ← List.append_assoc]
        exact hloop
    · rename_i hstop
      exact h.stopped hstop _

/-- However the walk ended, it has the suggestions as far as they were asked for. -/
theorem Walked.results_eq {t : Suggest} (h : Walked g user target (g.secondHop user) t) :
    t.results = (g.suggestions user).take target := by
  obtain ⟨seen, hfront, hafter, hall⟩ := h
  have hlength : seen.length ≤ MAX_SUGGEST_SCAN := hafter.scans ▸ hafter.budget
  have hseen : seen <+: (g.secondHop user).take MAX_SUGGEST_SCAN :=
    List.prefix_take_iff.mpr ⟨hfront, hlength⟩
  have hresults : t.results <+: g.suggestions user := by
    rw [hafter.results]
    exact eraseDups_prefix (hseen.filter _)
  by_cases htarget : t.results.length < target
  · have hwhole : seen = (g.secondHop user).take MAX_SUGGEST_SCAN := by
      refine hseen.eq_of_length_le ?_
      rw [List.length_take]
      by_cases hscans : t.scans < MAX_SUGGEST_SCAN
      · rw [hall ⟨htarget, hscans⟩]
        exact Nat.min_le_right _ _
      · have hmax := hafter.scans
        omega
    have heq : t.results = g.suggestions user := by rw [hafter.results, hwhole, Graph.suggestions]
    rw [← heq, List.take_of_length_le htarget.le]
  · have hshort := hafter.short
    have htake := List.prefix_iff_eq_take.mp hresults
    rw [Nat.le_antisymm hshort (Nat.le_of_not_lt htarget)] at htake
    exact htake

end Suggest

namespace Graph

variable {g : Graph}

theorem suggestions_length (g : Graph) (user : Address) :
    (g.suggestions user).length ≤ MAX_SUGGEST_SCAN := by
  have hdups : (g.suggestions user).length ≤
      (((g.secondHop user).take MAX_SUGGEST_SCAN).filter fun a => g.isStranger user a).length :=
    ((nodup_eraseDups _).subperm fun a ha => List.mem_eraseDups.mp ha).length_le
  have hfilter := List.length_filter_le (fun a => g.isStranger user a)
    ((g.secondHop user).take MAX_SUGGEST_SCAN)
  have htake := List.length_take_le MAX_SUGGEST_SCAN (g.secondHop user)
  omega

theorem mem_suggestions {user a : Address} : a ∈ g.suggestions user ↔
    a ∈ (g.secondHop user).take MAX_SUGGEST_SCAN ∧ a ≠ user ∧ a ∉ g.followees user := by
  have hstranger : g.isStranger user a = true ↔ a ≠ user ∧ a ∉ g.followees user := by
    rw [← Bool.not_eq_false, isStranger_eq_false, not_or]
  rw [suggestions, List.mem_eraseDups, List.mem_filter, hstranger]

theorem WellFormed.mem_followees (h : g.WellFormed) {user a : Address} :
    a ∈ g.followees user ↔ g.Edges user a := by
  constructor
  · exact fun ha => Index.mem_slice_mem (h.following user) ha
  · intro ha
    obtain ⟨p, hp, hslot⟩ := (h.following user).exists_slot ha
    rw [followees, Index.slice, List.mem_filterMap]
    exact ⟨p, List.mem_range'_1.mpr ⟨Nat.zero_le _, by omega⟩, hslot⟩

end Graph

/-- What `paginate` reads of the part of a list that a walk has found for this very page. -/
theorem paginate_take {α : Type} (l : List α) (offset : Nat) {limit : Nat}
    (hlimit : limit ≤ MAX_PAGE_LIMIT) (hlength : l.length ≤ MAX_SUGGEST_SCAN) :
    paginate (l.take (min (offset + limit) U32_MAX)) offset limit = .ok (page l offset limit) := by
  have hfits : MAX_SUGGEST_SCAN + MAX_PAGE_LIMIT ≤ U32_MAX := by decide
  have hpage : page (l.take (min (offset + limit) U32_MAX)) offset limit = page l offset limit :=
    page.take_eq l (by omega)
  have htake := List.length_take_le' (min (offset + limit) U32_MAX) l
  rw [← hpage, paginate]
  split
  · rename_i hend
    rw [page, List.drop_of_length_le hend, List.take_nil]
  · rename_i hmore
    have hstop : u32 (offset + limit) = .ok (offset + limit) := if_pos (by omega)
    rw [hstop, page.eq_drop_take, List.take_eq_take_min (i := offset + limit)]
    rfl

theorem getSuggestedFollows_eq {s : State} (hwf : s.graph.WellFormed) {user : Address}
    (huser : isZeroAddress user = false) (offset : Nat) {limit : Nat} (hpos : 0 < limit)
    (hle : limit ≤ MAX_PAGE_LIMIT) :
    getSuggestedFollows s user offset limit =
      .ok (page (s.graph.suggestions user) offset limit) := by
  have hvalid : validateNonDefaultAddress "user" user = .ok () :=
    validateNonDefaultAddress_eq_ok.mpr huser
  have hlimit : requireWithError (0 < limit ∧ limit ≤ MAX_PAGE_LIMIT)
      "limit must be between 1 and 50" = .ok () := requireWithError_eq_ok.mpr ⟨hpos, hle⟩
  have hwalk := (Suggest.After.start s.graph user (min (offset + limit) U32_MAX)).walked.scanHops
    hwf (s.graph.following.size user) 0
  rw [getSuggestedFollows, Checked.bind_of_ok hvalid, Checked.bind_of_ok hlimit]
  show paginate (scanHops s.graph (min (offset + limit) U32_MAX) user _ 0 _).results _ _ = _
  rw [Suggest.Walked.results_eq hwalk]
  exact paginate_take _ offset hle (Graph.suggestions_length _ _)

/-- In a well-formed graph every page of suggestions is a stretch of one list, which has
the accounts that are neither the user nor followed by the user among the first
`MAX_SUGGEST_SCAN` second-hop accounts, each once and where it is met first. -/
theorem suggested_follows_paged {s : State} (hwf : s.graph.WellFormed) {user : Address}
    (huser : isZeroAddress user = false) :
    (∀ offset limit, 0 < limit → limit ≤ MAX_PAGE_LIMIT →
      getSuggestedFollows s user offset limit =
        .ok (((s.graph.suggestions user).drop offset).take limit)) ∧
    (∀ a, a ∈ s.graph.suggestions user ↔
      a ∈ (s.graph.secondHop user).take MAX_SUGGEST_SCAN ∧ a ≠ user ∧ ¬s.graph.Edges user a) ∧
    (s.graph.suggestions user).Nodup ∧
    ∀ offset limit found, getSuggestedFollows s user offset limit = .ok found →
      found.Nodup ∧ (∀ a ∈ found, a ≠ user ∧ ¬s.graph.Edges user a) ∧
      ∀ offset' limit' found', getSuggestedFollows s user offset' limit' = .ok found' →
        offset + limit ≤ offset' → List.Disjoint found found' := by
  have hmem : ∀ a, a ∈ s.graph.suggestions user ↔
      a ∈ (s.graph.secondHop user).take MAX_SUGGEST_SCAN ∧ a ≠ user ∧ ¬s.graph.Edges user a := by
    intro a
    rw [Graph.mem_suggestions, hwf.mem_followees]
  have hpage : ∀ {offset limit found}, getSuggestedFollows s user offset limit = .ok found →
      found = page (s.graph.suggestions user) offset limit := by
    intro offset limit found hfound
    have hlimit : 0 < limit ∧ limit ≤ MAX_PAGE_LIMIT := by
      rw [getSuggestedFollows, Checked.bind_eq_ok] at hfound
      obtain ⟨-, -, hfound⟩ := hfound
      obtain ⟨_, hchecked, -⟩ := Checked.bind_eq_ok.mp hfound
      exact requireWithError_eq_ok.mp hchecked
    rw [getSuggestedFollows_eq hwf huser offset hlimit.1 hlimit.2] at hfound
    exact (Except.ok.inj hfound).symm
  have hdistinct : (s.graph.suggestions user).Nodup := nodup_eraseDups _
  refine ⟨fun offset limit hpos hle => getSuggestedFollows_eq hwf huser offset hpos hle, hmem,
    hdistinct, fun offset limit found hfound => ?_⟩
  rw [hpage hfound]
  refine ⟨page.nodup hdistinct offset limit, fun a ha => ((hmem a).mp (page.mem ha)).2, ?_⟩
  intro offset' limit' found' hfound' hle
  rw [hpage hfound']
  exact page.disjoint hdistinct hle

/-- Two followees who follow the same account suggest it once. -/
theorem suggested_follows_of_carol :
    ∃ w : World Book, Reachable (bookHost linkora) w ∧
      getSuggestedFollows w.store carol 0 50 = .ok [linkora] := by
  have hdemo : (demo QuietRegistrations (fun _ _ => 0)
      [(signedAt 2, .follow carol alice), (signedAt 3, .follow carol bob),
        (signedAt 4, .follow alice linkora), (signedAt 5, .follow bob linkora),
        (signedAt 6, .follow bob carol)]).map
        (fun w => w.store.graph.suggestions carol) = some [linkora] := by decide
  obtain ⟨w, hw, hsuggestions⟩ := reachable_demo hdemo
  have hcarol : isZeroAddress carol = false := by decide
  have hpaged := (suggested_follows_paged (GraphOk.of_reachable hw).1 hcarol).1
  refine ⟨w, hw.reachable, ?_⟩
  rw [hpaged 0 50 (by decide) (by decide), hsuggestions]
  rfl

end Contract
end Linkora
