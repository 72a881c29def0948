import Linkora.Contract.FollowModel
import Linkora.Contract.Registration
import Linkora.Lib.Pages
import Linkora.Sdk.Pagination

/-!
# The lists that the pages make

Where the pages that are fetched are pages of one list, an iteration yields the list up to the
last page that it may fetch, and the pages from a cursor on are the rest of the list.  The reads
of the contract are such pages as long as they are no longer than the contract allows.
-/

namespace Linkora
namespace Sdk

/-! ## Walking a list -/

section Walk

variable {ε α : Type} {G : Globals} {fetchPage : Nat → Nat → Except ε (List α)} {l : List α}
  {limit : Nat}

theorem checkPageSize_natCast (hlimit : 0 < limit) :
    checkPageSize (some (.finite limit)) = .ok limit := by
  have hsize : ¬((Number.finite limit).isInteger = false ∨ (Number.finite limit).toInt ≤ 0) := by
    rw [Number.isInteger_natCast, Number.toInt_natCast]
    simp
    omega
  simp only [checkPageSize, Option.getD_some]
  rw [if_neg hsize, Number.toInt_natCast, Int.toNat_natCast]

theorem checkPageSize_none : checkPageSize none = .ok 100 := by
  have hdefault : Number.finite 100 = Number.finite (100 : Nat) := rfl
  simp only [checkPageSize, Option.getD_none]
  rw [hdefault, Number.isInteger_natCast, Number.toInt_natCast]
  rfl

/-- Up to `n` pages of this length, one after another, are pages of the list. -/
def Serves (fetchPage : Nat → Nat → Except ε (List α)) (l : List α) (limit n o : Nat) : Prop :=
  ∀ k < n, o + k * limit ≤ l.length →
    o + k * limit < 2 ^ 53 ∧ fetchPage (o + k * limit) limit = .ok (page l (o + k * limit) limit)

theorem Serves.next {n o : Nat} (h : Serves fetchPage l limit (n + 1) o) :
    Serves fetchPage l limit n (o + limit) := by
  intro k hk hle
  have hshift : o + limit + k * limit = o + (k + 1) * limit := by
    rw [Nat.succ_mul]
    omega
  rw [hshift] at hle ⊢
  exact h (k + 1) (Nat.succ_lt_succ hk) hle

theorem fetchPageWithCursor_serves (hlimit : 0 < limit) {n o : Nat}
    (h : Serves fetchPage l limit (n + 1) o) (ho : o ≤ l.length) {cursor : Option String}
    (hstart : startOf G cursor = .ok o) :
    fetchPageWithCursor G fetchPage cursor (some (.finite limit)) = .ok {
      items := page l o limit
      nextCursor := if o + limit ≤ l.length then some (encodeCursor (o + limit)) else none } := by
  have hfetch : fetchPage o limit = .ok (page l o limit) := by
    have hzero := (h 0 (Nat.succ_pos n) (by omega)).2
    rwa [Nat.zero_mul, Nat.add_zero] at hzero
  have hlength := page.length_eq l o limit
  rw [fetchPageWithCursor, checkPageSize_natCast hlimit, hstart]
  show (do
    let items ← (fetchPage o limit).mapError Thrown.fetch
    return (⟨items, if limit ≤ items.length then some (encodeCursor (o + items.length)) else none⟩ :
      Page α)) = _
  rw [hfetch]
  by_cases hfull : o + limit ≤ l.length
  · have hmin : (page l o limit).length = limit := by omega
    show Except.ok _ = _
    rw [hmin, if_pos (Nat.le_refl _), if_pos hfull]
  · show Except.ok _ = _
    rw [if_neg (by omega), if_neg hfull]

theorem iteratePages_serves (hlimit : 0 < limit) {n o : Nat}
    (h : Serves fetchPage l limit n o) (ho : o ≤ l.length) {cursor : Option String}
    (hstart : 0 < n → startOf G cursor = .ok o) :
    iteratePages G fetchPage (some (.finite limit)) n cursor = ⟨page l o (n * limit), none⟩ := by
  induction n generalizing o cursor with
  | zero => rw [Nat.zero_mul]; rfl
  | succ n ih =>
    rw [iteratePages, fetchPageWithCursor_serves hlimit h ho (hstart (Nat.succ_pos n))]
    dsimp only
    by_cases hfull : o + limit ≤ l.length
    · have hnext : 0 < n → startOf G (some (encodeCursor (o + limit))) = .ok (o + limit) := by
        intro hn
        have hone := (h 1 (by omega) (by omega)).1
        exact decodeCursor_encodeCursor G (by omega)
      have hrest := ih h.next hfull hnext
      rw [if_pos hfull]
      dsimp only
      rw [hrest, Nat.succ_mul, Nat.add_comm (n * limit), page.add]
    · rw [if_neg hfull, page.eq_drop (by omega), page.eq_drop (by rw [Nat.succ_mul]; omega)]

/-- The items of the pages from a cursor on, to the page without a next cursor. -/
inductive Chain (G : Globals) (fetchPage : Nat → Nat → Except ε (List α))
    (pageSize : Option Number) : Option String → List α → Prop
  | last {cursor : Option String} {items : List α}
      (h : fetchPageWithCursor G fetchPage cursor pageSize = .ok ⟨items, none⟩) :
      Chain G fetchPage pageSize cursor items
  | more {cursor : Option String} {items rest : List α} {next : String}
      (h : fetchPageWithCursor G fetchPage cursor pageSize = .ok ⟨items, some next⟩)
      (hrest : Chain G fetchPage pageSize (some next) rest) :
      Chain G fetchPage pageSize cursor (items ++ rest)

theorem Chain.unique {pageSize : Option Number} {cursor : Option String} {a b : List α}
    (ha : Chain G fetchPage pageSize cursor a) (hb : Chain G fetchPage pageSize cursor b) :
    a = b := by
  induction ha generalizing b with
  | last h =>
    cases hb with
    | last h' =>
      rw [h] at h'
      cases h'
      rfl
    | more h' _ =>
      rw [h] at h'
      cases h'
  | more h _ ih =>
    cases hb with
    | last h' =>
      rw [h] at h'
      cases h'
    | more h' hrest =>
      rw [h] at h'
      cases h'
      rw [ih hrest]

theorem chain_serves (hlimit : 0 < limit) {o : Nat} (h : ∀ n, Serves fetchPage l limit n o)
    (ho : o ≤ l.length) {cursor : Option String} (hstart : startOf G cursor = .ok o) :
    Chain G fetchPage (some (.finite limit)) cursor (l.drop o) := by
  induction hm : l.length - o using Nat.strongRecOn generalizing o cursor with
  | ind m ih =>
    have hpage := fetchPageWithCursor_serves hlimit (h 1) ho hstart
    by_cases hfull : o + limit ≤ l.length
    · have hnext : startOf G (some (encodeCursor (o + limit))) = .ok (o + limit) :=
        decodeCursor_encodeCursor G (by
          have hone := (h 2 1 (by omega) (by omega)).1
          omega)
      have hsplit : l.drop o = page l o limit ++ l.drop (o + limit) := by
        rw [← List.drop_drop]
        exact (List.take_append_drop limit _).symm
      rw [if_pos hfull] at hpage
      rw [hsplit]
      exact .more hpage (ih (l.length - (o + limit)) (by omega) (fun n => (h (n + 1)).next) hfull
        hnext rfl)
    · rw [if_neg hfull, page.eq_drop (by omega)] at hpage
      exact .last hpage

/-- The cursors that pages of any size return, each with the items up to it. -/
inductive Returned (G : Globals) (fetchPage : Nat → Nat → Except ε (List α)) :
    String → List α → Prop
  | first {pageSize : Option Number} {items : List α} {cursor : String}
      (h : fetchPageWithCursor G fetchPage none pageSize = .ok ⟨items, some cursor⟩) :
      Returned G fetchPage cursor items
  | next {done : List α} {cursor : String} {pageSize : Option Number} {items : List α}
      {cursor' : String} (hdone : Returned G fetchPage cursor done)
      (h : fetchPageWithCursor G fetchPage (some cursor) pageSize = .ok ⟨items, some cursor'⟩) :
      Returned G fetchPage cursor' (done ++ items)

theorem checkPageSize_pos {pageSize : Option Number} (h : checkPageSize pageSize = .ok limit) :
    0 < limit := by
  simp only [checkPageSize] at h
  split at h
  · cases h
  · rename_i hsize
    rw [not_or] at hsize
    obtain rfl := Except.ok.inj h
    have hpos := hsize.2
    omega

/-- A page with a next cursor is not empty, and the cursor is the offset behind it. -/
theorem fetchPageWithCursor_more {cursor : Option String} {pageSize : Option Number}
    {items : List α} {next : String}
    (h : fetchPageWithCursor G fetchPage cursor pageSize = .ok ⟨items, some next⟩) :
    ∃ limit o, startOf G cursor = .ok o ∧ fetchPage o limit = .ok items ∧ 0 < items.length ∧
      limit ≤ items.length ∧ next = encodeCursor (o + items.length) := by
  obtain ⟨limit, hlimit, h⟩ := Checked.bind_eq_ok.mp h
  obtain ⟨o, ho, h⟩ := Checked.bind_eq_ok.mp h
  obtain ⟨items', hitems, h⟩ := Checked.bind_eq_ok.mp h
  obtain ⟨rfl, hnext⟩ := Page.mk.inj (Checked.pure_eq_ok.mp h)
  split at hnext
  · rename_i hfull
    have hpos := checkPageSize_pos (Checked.mapError_eq_ok.mp hlimit)
    exact ⟨limit, o, Checked.mapError_eq_ok.mp ho, Checked.mapError_eq_ok.mp hitems, by omega,
      hfull, (Option.some.inj hnext).symm⟩
  · cases hnext

end Walk

/-! ## The lists of the contract -/

section Lists

open Contract

variable {s : State} {user : Address} {isFollowing : Bool} {S : Set Address} {offset limit : Nat}

theorem scvU32_ok {n m : Nat} (h : scvU32 n = .ok m) : n = m := by
  rw [scvU32] at h
  split at h
  · exact Except.ok.inj h
  · cases h

theorem listRead_ok (h : (s.graph.side isFollowing).Enumerates user S) {items : List Address}
    (hread : listRead s user isFollowing offset limit = .ok items) :
    items = page ((s.graph.side isFollowing).entries user) offset limit ∧
      (offset < (s.graph.side isFollowing).size user → offset + limit ≤ U32_MAX) := by
  have hpage : s.graph.paginateIndex user offset limit isFollowing = .ok items := by
    cases isFollowing with
    | true =>
      obtain ⟨o, ho, hread⟩ := Checked.bind_eq_ok.mp hread
      obtain ⟨n, hn, hread⟩ := Checked.bind_eq_ok.mp hread
      rw [scvU32_ok ho, scvU32_ok hn]
      exact getFollowing_ok (Checked.mapError_eq_ok.mp hread)
    | false =>
      obtain ⟨o, ho, hread⟩ := Checked.bind_eq_ok.mp hread
      obtain ⟨n, hn, hread⟩ := Checked.bind_eq_ok.mp hread
      rw [scvU32_ok ho, scvU32_ok hn]
      exact getFollowers_ok (Checked.mapError_eq_ok.mp hread)
  rw [Graph.paginateIndex] at hpage
  split at hpage
  · rename_i hle
    obtain rfl := Except.ok.inj hpage
    refine ⟨?_, fun hlt => absurd hle (by omega)⟩
    rw [page, List.drop_of_length_le (by rw [h.length_entries]; exact hle), List.take_nil]
  · obtain ⟨stop, hstop, hpage⟩ := Checked.bind_eq_ok.mp hpage
    obtain ⟨hfits, rfl⟩ := u32_eq_ok.mp hstop
    obtain rfl := Checked.pure_eq_ok.mp hpage
    exact ⟨h.slice_eq offset limit, fun _ => hfits⟩

theorem listRead_page (h : (s.graph.side isFollowing).Enumerates user S)
    (huser : isZeroAddress user = false) (hlimit : 0 < limit ∧ limit ≤ 50)
    (hoffset : offset ≤ U32_MAX)
    (hfits : offset < (s.graph.side isFollowing).size user → offset + limit ≤ U32_MAX) :
    listRead s user isFollowing offset limit =
      .ok (page ((s.graph.side isFollowing).entries user) offset limit) := by
  have hpage : s.graph.paginateIndex user offset limit isFollowing =
      .ok (page ((s.graph.side isFollowing).entries user) offset limit) := by
    rw [Graph.paginateIndex]
    split
    · rename_i hle
      rw [page, List.drop_of_length_le (by rw [h.length_entries]; exact hle), List.take_nil]
    · rename_i hlt
      have hstop : u32 (offset + limit) = .ok (offset + limit) :=
        u32_eq_ok.mpr ⟨hfits (by omega), rfl⟩
      rw [Checked.bind_of_ok hstop, h.slice_eq offset limit]
      rfl
  have hmax : (50 : Nat) ≤ U32_MAX := by decide
  have hoff : scvU32 offset = .ok offset := if_pos hoffset
  have hlim : scvU32 limit = .ok limit := if_pos (hlimit.2.trans hmax)
  cases isFollowing with
  | true =>
    show getFollowing s user offset limit = _
    rw [getFollowing, Checked.bind_of_ok hoff, Checked.bind_of_ok hlim,
      getFollowing_eq huser hlimit, hpage]
    rfl
  | false =>
    show getFollowers s user offset limit = _
    rw [getFollowers, Checked.bind_of_ok hoff, Checked.bind_of_ok hlim,
      getFollowers_eq huser hlimit, hpage]
    rfl

/-- The offsets that are read stay in `u32` if the ends of the pages do. -/
theorem listRead_serves (h : (s.graph.side isFollowing).Enumerates user S)
    (huser : isZeroAddress user = false) (hlimit : 0 < limit ∧ limit ≤ 50) {n o : Nat}
    (ho : o ≤ U32_MAX)
    (hfits : ∀ k, k < n → o + k * limit < (s.graph.side isFollowing).size user →
      o + k * limit + limit ≤ U32_MAX) :
    Serves (listRead s user isFollowing) ((s.graph.side isFollowing).entries user) limit n o := by
  intro k hk hle
  rw [h.length_entries] at hle
  have hoffset : o + k * limit ≤ U32_MAX := by
    cases k with
    | zero => omega
    | succ k =>
      rw [Nat.succ_mul] at hle ⊢
      have hbefore := hfits k (by omega) (by omega)
      omega
  have hmax : U32_MAX < 2 ^ 53 := by decide
  exact ⟨by omega, listRead_page h huser hlimit hoffset (hfits k hk)⟩

/-- The cursor of a full page stands behind it. -/
theorem listRead_more {G : Globals} (h : (s.graph.side isFollowing).Enumerates user S)
    {cursor : Option String} {pageSize : Option Number} {items : List Address} {next : String}
    (hmore : fetchPageWithCursor G (listRead s user isFollowing) cursor pageSize =
      .ok ⟨items, some next⟩) :
    ∃ o, startOf G cursor = .ok o ∧
      items = page ((s.graph.side isFollowing).entries user) o items.length ∧
      o + items.length ≤ (s.graph.side isFollowing).size user ∧ o + items.length ≤ U32_MAX ∧
      startOf G (some next) = .ok (o + items.length) := by
  obtain ⟨limit, o, hstart, hread, hpos, hfull, rfl⟩ := fetchPageWithCursor_more hmore
  obtain ⟨hitems, hfits⟩ := listRead_ok h hread
  have hlength := page.length_eq ((s.graph.side isFollowing).entries user) o limit
  rw [← hitems, h.length_entries] at hlength
  have hlimit : items.length = limit := by omega
  have hend := hfits (by omega)
  have hmax : U32_MAX < 2 ^ 53 := by decide
  refine ⟨o, hstart, ?_, by omega, by omega, decodeCursor_encodeCursor G (by omega)⟩
  rw [hlimit]
  exact hitems

theorem Returned.start {G : Globals} (h : (s.graph.side isFollowing).Enumerates user S)
    {cursor : String} {done : List Address}
    (hdone : Returned G (listRead s user isFollowing) cursor done) :
    startOf G (some cursor) = .ok done.length ∧
      done = ((s.graph.side isFollowing).entries user).take done.length ∧
      done.length ≤ (s.graph.side isFollowing).size user ∧ done.length ≤ U32_MAX := by
  induction hdone with
  | first hmore =>
    obtain ⟨o, hstart, hitems, hsize, hmax, hnext⟩ := listRead_more h hmore
    obtain rfl := Except.ok.inj hstart
    rw [Nat.zero_add] at hsize hmax hnext
    exact ⟨hnext, hitems, hsize, hmax⟩
  | next _ hmore ih =>
    obtain ⟨hcursor, htake, -, -⟩ := ih
    obtain ⟨o, hstart, hitems, hsize, hmax, hnext⟩ := listRead_more h hmore
    obtain rfl := Except.ok.inj (hcursor.symm.trans hstart)
    rw [List.length_append]
    refine ⟨hnext, ?_, hsize, hmax⟩
    rw [List.take_add, ← htake]
    exact congrArg _ hitems

theorem chain_returned {G : Globals} (h : (s.graph.side isFollowing).Enumerates user S)
    (huser : isZeroAddress user = false) (hlimit : 0 < limit ∧ limit ≤ 50) {cursor : String}
    {done : List Address} (hdone : Returned G (listRead s user isFollowing) cursor done)
    (hfits : ∀ k, done.length + k * limit < (s.graph.side isFollowing).size user →
      done.length + k * limit + limit ≤ U32_MAX) (rest : List Address) :
    Chain G (listRead s user isFollowing) (some (.finite limit)) (some cursor) rest ↔
      done ++ rest = (s.graph.side isFollowing).entries user := by
  obtain ⟨hstart, htake, hsize, hmax⟩ := hdone.start h
  have hchain := chain_serves hlimit.1
    (fun n => listRead_serves h huser hlimit (n := n) hmax fun k _ => hfits k)
    (by rw [h.length_entries]; exact hsize) hstart
  constructor
  · intro hrest
    rw [hrest.unique hchain]
    exact (congrArg (· ++ _) htake).trans (List.take_append_drop _ _)
  · intro hall
    rw [← hall, List.drop_left] at hchain
    exact hchain

theorem paginateList_reads {G : Globals} (h : (s.graph.side isFollowing).Enumerates user S)
    (huser : isZeroAddress user = false) (hlimit : 0 < limit ∧ limit ≤ 50) :
    paginateList G (listRead s user isFollowing) { pageSize := some (.finite limit) } =
      ⟨((s.graph.side isFollowing).entries user).take (100 * limit), none⟩ := by
  have hmax : (5000 : Nat) ≤ U32_MAX := by decide
  have hserves := listRead_serves h huser hlimit (n := 100) (Nat.zero_le _) fun k hk _ => by
    have hpages := Nat.mul_le_mul (Nat.succ_le_of_lt hk) hlimit.2
    rw [Nat.succ_mul] at hpages
    omega
  exact iteratePages_serves hlimit.1 hserves (Nat.zero_le _) fun _ => rfl

end Lists

/-! ## Iterations over the contract's lists -/

section Whole

open Contract

variable {s : State}

/-- The accounts that a list of the graph is made of. -/
def neighbours (s : State) (user : Address) (isFollowing : Bool) : Set Address :=
  {v | if isFollowing = true then s.graph.Edges user v else s.graph.Edges v user}

theorem enumerates_neighbours (hgraph : s.graph.WellFormed) (user : Address) (isFollowing : Bool) :
    (s.graph.side isFollowing).Enumerates user (neighbours s user isFollowing) := by
  cases isFollowing with
  | true => exact hgraph.following user
  | false => exact hgraph.followers user

theorem list_read_by_pages (G : Globals) (hgraph : s.graph.WellFormed) {user : Address}
    (huser : isZeroAddress user = false) (isFollowing : Bool) {pageSize : Nat}
    (hsize : 0 < pageSize ∧ pageSize ≤ 50) :
    let read := listRead s user isFollowing
    let list := (s.graph.side isFollowing).entries user
    (list.Nodup ∧ (∀ v, v ∈ list ↔ v ∈ neighbours s user isFollowing) ∧
      ∀ i, list[i]? = (s.graph.side isFollowing).idx.get (user, i)) ∧
    paginateList G read { pageSize := some (.finite pageSize) } =
      ⟨list.take (100 * pageSize), none⟩ ∧
    (list.length ≤ 100 * pageSize →
      paginateList G read { pageSize := some (.finite pageSize) } = ⟨list, none⟩) ∧
    (∀ cursor done, Returned G read cursor done →
      (∀ k, done.length + k * pageSize < list.length →
        done.length + k * pageSize + pageSize ≤ U32_MAX) →
      ∀ rest, Chain G read (some (.finite pageSize)) (some cursor) rest ↔ done ++ rest = list) ∧
    (∀ n < 2 ^ 53, decodeCursor G (encodeCursor n) = .ok n) ∧
    ∀ token, (∀ n, decodeCursor G token = .ok n ↔ Encodes G token n) ∧
      ((∀ n, ¬Encodes G token n) → decodeCursor G token = .error (malformedCursor token)) := by
  intro read list
  have h := enumerates_neighbours hgraph user isFollowing
  have hread := paginateList_reads (G := G) h huser hsize
  refine ⟨⟨h.nodup_entries, h.mem_entries_iff, h.getElem?_entries⟩, hread, ?_, ?_, ?_, ?_⟩
  · intro hshort
    rw [hread, List.take_of_length_le hshort]
  · intro cursor done hdone hfits
    exact chain_returned h huser hsize hdone fun k hk =>
      hfits k (by rw [h.length_entries]; exact hk)
  · intro n hn
    exact decodeCursor_encodeCursor G hn
  · intro token
    exact ⟨fun n => decodeCursor_eq_ok, decodeCursor_rejects⟩

/-! ## Longer lists and pages -/

/-- Account `n`, for a number of followers. -/
def fan (n : Nat) : Address := .account (BitVec.ofNat 256 (n + 1))

def star : Address := .contract 1

/-- A graph in which `n` accounts follow one. -/
theorem exists_crowd {n : Nat} (hn : n < U32_MAX) : ∃ g : Graph, g.WellFormed ∧
    g.followers.size star = n ∧ (∀ a, g.following.size a ≤ n) ∧
    ∀ a b, g.Edges a b → ∃ i < n, a = fan i := by
  induction n with
  | zero =>
    exact ⟨_, Graph.WellFormed.empty, rfl, fun _ => Nat.le_refl 0, nofun⟩
  | succ n ih =>
    obtain ⟨g, hgraph, hfollowers, hfollowing, hfans⟩ := ih (by omega)
    have hnew : ¬g.Edges (fan n) star := by
      intro hedge
      obtain ⟨i, hi, heq⟩ := hfans _ _ hedge
      have hkey := congrArg BitVec.toNat (Address.account.inj heq)
      rw [BitVec.toNat_ofNat, BitVec.toNat_ofNat] at hkey
      have hmax : U32_MAX < 2 ^ 256 - 1 := by decide
      rw [Nat.mod_eq_of_lt (by omega), Nat.mod_eq_of_lt (by omega)] at hkey
      omega
    have hone : u32 (g.following.size (fan n) + 1) = .ok (g.following.size (fan n) + 1) :=
      u32_eq_ok.mpr ⟨by have hsize := hfollowing (fan n); omega, rfl⟩
    have htwo : u32 (g.followers.size star + 1) = .ok (g.followers.size star + 1) :=
      u32_eq_ok.mpr ⟨by omega, rfl⟩
    have hadd : g.addEdge (fan n) star = .ok { g with
        edge := g.edge.set (fan n, star) true
        following := g.following.append (fan n) star
        followers := g.followers.append star (fan n) } := by
      rw [Graph.addEdge, Checked.bind_of_ok hone, Checked.bind_of_ok htwo]
      rfl
    refine ⟨_, hgraph.addEdge hnew hadd, ?_, fun a => ?_, fun a b hedge => ?_⟩
    · rw [Index.append_size, hfollowers]
    · by_cases ha : a = fan n
      · rw [ha, Index.append_size]
        exact Nat.succ_le_succ (hfollowing (fan n))
      · rw [(Index.append_agreeAt ha star).size_eq]
        exact (hfollowing a).trans (Nat.le_succ n)
    · rcases (Graph.edges_set rfl a b).mp hedge with hold | ⟨rfl, -⟩
      · obtain ⟨i, hi, ha⟩ := hfans a b hold
        exact ⟨i, by omega, ha⟩
      · exact ⟨n, Nat.lt_succ_self n, rfl⟩

theorem list_read_by_pages_of_crowd : ∃ s : State, (s.graph.followers.entries star).length = 75 ∧
    paginateList ⟨true⟩ (listRead s star false) { pageSize := some (.finite (50 : Nat)) } =
      ⟨s.graph.followers.entries star, none⟩ := by
  obtain ⟨g, hgraph, hsize, -⟩ := exists_crowd (n := 75) (by decide)
  have hlength : (g.followers.entries star).length = 75 :=
    (hgraph.followers star).length_entries.trans hsize
  have huser : isZeroAddress star = false := by decide
  have hlimit : 0 < 50 ∧ 50 ≤ 50 := by decide
  have hread := list_read_by_pages ⟨true⟩ (s := { State.empty with graph := g }) hgraph huser false
    hlimit
  exact ⟨{ State.empty with graph := g }, hlength, hread.2.2.1 (by
    show (g.followers.entries star).length ≤ 100 * 50
    omega)⟩

/-- With one entry a page the last of 101 is never read, the default is more than the contract
allows, and a cursor is taken that is no safe integer. -/
theorem long_list_cut : ∃ s : State, s.graph.WellFormed ∧
    (s.graph.followers.entries star).length = 101 ∧ ∀ G,
      paginateList G (listRead s star false) { pageSize := some (.finite (1 : Nat)) } =
        ⟨(s.graph.followers.entries star).take 100, none⟩ ∧
      paginateList G (listRead s star false) { } =
        ⟨[], some (.fetch (.simulation (.message "limit must be between 1 and 50")))⟩ ∧
      decodeCursor G (encodeCursor (2 ^ 53)) = .ok (2 ^ 53) := by
  obtain ⟨g, hgraph, hsize, -⟩ := exists_crowd (n := 101) (by decide)
  have hlength : (g.followers.entries star).length = 101 :=
    (hgraph.followers star).length_entries.trans hsize
  refine ⟨{ State.empty with graph := g }, hgraph, hlength, fun G => ⟨?_, ?_, ?_⟩⟩
  · have henum : ((({ State.empty with graph := g } : State).graph.side false).Enumerates star
        {v | g.Edges v star}) := hgraph.followers star
    exact paginateList_reads henum (by decide) (by decide)
  · have hread : getFollowers { State.empty with graph := g } star 0 100 =
        .error (.simulation (.message "limit must be between 1 and 50")) := rfl
    have hpage : fetchPageWithCursor G (listRead { State.empty with graph := g } star false) none
        none = .error (.fetch (.simulation (.message "limit must be between 1 and 50"))) := by
      rw [fetchPageWithCursor, checkPageSize_none]
      show (do
        let items ← (getFollowers { State.empty with graph := g } star 0 100).mapError Thrown.fetch
        return (⟨items,
          if 100 ≤ items.length then some (encodeCursor (0 + items.length)) else none⟩ :
            Page Address)) = _
      rw [hread]
      rfl
    show iteratePages G _ none (99 + 1) none = _
    rw [iteratePages, hpage]
  · exact decodeCursor_exact G (Number.ofRat_two_pow (by decide))

end Whole

end Sdk
end Linkora
