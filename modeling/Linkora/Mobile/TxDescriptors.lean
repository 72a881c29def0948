import Mathlib.Data.List.DropRight
import Mathlib.Data.List.Forall2
import Mathlib.Data.List.TakeWhile
import Linkora.Lib.Scan

/-!
# Transaction descriptors

`apps/mobile/utils/txDescriptors.ts` reads a text of fields joined by colons and calls a helper
of the SDK with them.  The builder of a method looks up the fields that it needs by their
places, and nothing looks at the others.
-/

namespace Linkora
namespace Mobile

/-! ## Fields -/

/-- How a builder reads a field. -/
inductive FieldKind where
  | text
  | u64
  | i128
  | approvals
  deriving DecidableEq

/-- A parameter of a helper. -/
inductive TxParam where
  | text (s : String)
  | integer (n : Nat)
  | signers (addresses : List String)
  deriving DecidableEq

/-- The start of every error about a field. -/
def malformed (method : String) : String := "Malformed \"" ++ method ++ "\" descriptor: "

def requireField (args : List String) (index : Nat) (method label : String) :
    Except String String :=
  match args[index]? with
  | none => .error (malformed method ++ "missing " ++ label)
  | some value =>
    if Scan.trim value = "" then .error (malformed method ++ "missing " ++ label)
    else .ok (Scan.trim value)

/-- `requireU64` and `requireI128`, which differ in one message. -/
def requireInteger (notDigits : String) (args : List String) (index : Nat)
    (method label : String) : Except String Nat :=
  match requireField args index method label with
  | .error e => .error e
  | .ok raw =>
    if raw.toList = [] ∨ ¬raw.toList.all Char.isDigit = true then
      .error (malformed method ++ label ++ notDigits)
    else
      let parsed := Nat.ofDigitChars 10 raw.toList 0
      if parsed ≤ 0 then .error (malformed method ++ label ++ " must be greater than zero")
      else .ok parsed

def requireU64 : List String → Nat → String → String → Except String Nat :=
  requireInteger " must be a non-negative integer"

def requireI128 : List String → Nat → String → String → Except String Nat :=
  requireInteger " must be a whole number of base units"

/-- The entries of an approval list that are not empty. -/
def approvalEntries (raw : String) : List String :=
  ((Text.split ',' raw).map Scan.trim).filter (· ≠ "")

/-- `const [address, signature] = entry.split("=")`, without the trim. -/
def approvalAddress (entry : String) : Option String :=
  match Text.split '=' entry with
  | address :: signature :: _ => if address = "" ∨ signature = "" then none else some address
  | _ => none

def parseApprovalList (raw method : String) : Except String (List String) :=
  match (approvalEntries raw).mapM approvalAddress with
  | none => .error (malformed method ++ "approval entries must be \"address=hash\"")
  | some [] => .error (malformed method ++ "at least one signer is required")
  | some addresses => .ok (addresses.map Scan.trim)

/-! ## Builders -/

/-- A parameter of a helper, and the place and the name of the field that it is read from. -/
structure TxSlot where
  kind : FieldKind
  index : Nat
  label : String
  deriving DecidableEq

def TxSlot.read (method : String) (args : List String) (slot : TxSlot) : Except String TxParam :=
  match slot.kind with
  | .text => (requireField args slot.index method slot.label).map .text
  | .u64 => (requireU64 args slot.index method slot.label).map .integer
  | .i128 => (requireI128 args slot.index method slot.label).map .integer
  | .approvals =>
    match requireField args slot.index method slot.label with
    | .error e => .error e
    | .ok raw => (parseApprovalList raw method).map .signers

/-- The helper that a builder calls, with its parameters in their order. -/
structure TxBuilder where
  helper : String
  slots : List TxSlot
  deriving DecidableEq

def like_post : TxBuilder := ⟨"prepareLikePostTx", [⟨.text, 0, "user"⟩, ⟨.u64, 1, "postId"⟩]⟩

def follow : TxBuilder := ⟨"prepareFollowTx", [⟨.text, 0, "follower"⟩, ⟨.text, 1, "followee"⟩]⟩

def unfollow : TxBuilder :=
  ⟨"prepareUnfollowTx", [⟨.text, 0, "follower"⟩, ⟨.text, 1, "followee"⟩]⟩

def block_user : TxBuilder :=
  ⟨"prepareBlockUserTx", [⟨.text, 0, "blocker"⟩, ⟨.text, 1, "blocked"⟩]⟩

def unblock_user : TxBuilder :=
  ⟨"prepareUnblockUserTx", [⟨.text, 0, "blocker"⟩, ⟨.text, 1, "blocked"⟩]⟩

def tip : TxBuilder := ⟨"prepareTipTx", [⟨.text, 0, "tipper"⟩, ⟨.u64, 1, "postId"⟩,
  ⟨.text, 2, "token"⟩, ⟨.i128, 3, "amount"⟩]⟩

def delete_post : TxBuilder :=
  ⟨"prepareDeletePostTx", [⟨.text, 0, "author"⟩, ⟨.u64, 1, "postId"⟩]⟩

def set_profile : TxBuilder := ⟨"prepareSetProfileTx", [⟨.text, 0, "user"⟩,
  ⟨.text, 1, "username"⟩, ⟨.text, 2, "creatorToken"⟩]⟩

def pool_deposit : TxBuilder := ⟨"preparePoolDepositTx", [⟨.text, 0, "depositor"⟩,
  ⟨.text, 1, "poolId"⟩, ⟨.text, 2, "token"⟩, ⟨.i128, 3, "amount"⟩]⟩

def pool_withdraw : TxBuilder := ⟨"preparePoolWithdrawTx", [⟨.approvals, 3, "approvals"⟩,
  ⟨.text, 0, "poolId"⟩, ⟨.i128, 2, "amount"⟩, ⟨.text, 1, "recipient"⟩]⟩

def add_pool_admin : TxBuilder := ⟨"prepareAddPoolAdminTx", [⟨.approvals, 3, "approvals"⟩,
  ⟨.text, 0, "poolId"⟩, ⟨.text, 1, "newAdmin"⟩]⟩

def remove_pool_admin : TxBuilder := ⟨"prepareRemovePoolAdminTx", [⟨.approvals, 3, "approvals"⟩,
  ⟨.text, 0, "poolId"⟩, ⟨.text, 1, "admin"⟩]⟩

def update_pool_threshold : TxBuilder := ⟨"prepareUpdatePoolThresholdTx",
  [⟨.approvals, 3, "approvals"⟩, ⟨.text, 0, "poolId"⟩, ⟨.u64, 1, "threshold"⟩]⟩

def DESCRIPTOR_BUILDERS : List (String × TxBuilder) :=
  [("like_post", like_post), ("follow", follow), ("unfollow", unfollow),
    ("block_user", block_user), ("unblock_user", unblock_user), ("tip", tip),
    ("delete_post", delete_post), ("set_profile", set_profile), ("pool_deposit", pool_deposit),
    ("pool_withdraw", pool_withdraw), ("add_pool_admin", add_pool_admin),
    ("remove_pool_admin", remove_pool_admin), ("update_pool_threshold", update_pool_threshold)]

def SUPPORTED_TX_METHODS : List String := DESCRIPTOR_BUILDERS.map Prod.fst

/-! ## Building -/

/-- What `buildTxXdr` resolves to: what a helper gives for its parameters, or a value that no
helper has made. -/
inductive Built where
  | prepared (helper : String) (params : List TxParam)
  | client
  | text (s : String)
  deriving DecidableEq

/-- The functions that every object inherits, called with the client and the fields and without
`this`. -/
def inherited (name : String) : Option (Except String Built) :=
  if name = "constructor" then some (.ok .client)
  else if name = "toString" then some (.ok (.text "[object Undefined]"))
  else if name ∈ ["__defineGetter__", "__defineSetter__", "hasOwnProperty", "__lookupGetter__",
      "__lookupSetter__", "isPrototypeOf", "propertyIsEnumerable", "valueOf", "__proto__",
      "toLocaleString"] then some (.error "TypeError")
  else none

def parseTxDescriptor (descriptor : String) : Except String (String × List String) :=
  if Scan.trim descriptor = "" then .error "Transaction descriptor must be a non-empty string"
  else
    match Text.split ':' (Scan.trim descriptor) with
    | [] => .ok ("", [])
    | method :: args => .ok (method, args)

def builderOf (method : String) : Option TxBuilder :=
  (DESCRIPTOR_BUILDERS.find? (·.1 = method)).map Prod.snd

def TxBuilder.build (b : TxBuilder) (method : String) (args : List String) :
    Except String Built :=
  (b.slots.mapM (TxSlot.read method args)).map (.prepared b.helper)

def buildTxXdr (descriptor : String) : Except String Built :=
  match parseTxDescriptor descriptor with
  | .error e => .error e
  | .ok (method, args) =>
    match builderOf method with
    | some b => b.build method args
    | none =>
      match inherited method with
      | some result => result
      | none => .error ("Unsupported transaction descriptor: \"" ++ method ++ "\"")

/-- A method and its arguments as one text. -/
def descriptorOf (method : String) (args : List String) : String :=
  ":".intercalate (method :: args)

/-! ## What a descriptor says -/

/-- The helper of a method, and for each of its parameters the place of the argument. -/
structure TxFormat where
  helper : String
  params : List (FieldKind × Nat)
  deriving DecidableEq

/-- The formats as the screens of the app write them. -/
def TX_FORMATS : List (String × TxFormat) :=
  [("like_post", ⟨"prepareLikePostTx", [(.text, 0), (.u64, 1)]⟩),
    ("follow", ⟨"prepareFollowTx", [(.text, 0), (.text, 1)]⟩),
    ("unfollow", ⟨"prepareUnfollowTx", [(.text, 0), (.text, 1)]⟩),
    ("block_user", ⟨"prepareBlockUserTx", [(.text, 0), (.text, 1)]⟩),
    ("unblock_user", ⟨"prepareUnblockUserTx", [(.text, 0), (.text, 1)]⟩),
    ("tip", ⟨"prepareTipTx", [(.text, 0), (.u64, 1), (.text, 2), (.i128, 3)]⟩),
    ("delete_post", ⟨"prepareDeletePostTx", [(.text, 0), (.u64, 1)]⟩),
    ("set_profile", ⟨"prepareSetProfileTx", [(.text, 0), (.text, 1), (.text, 2)]⟩),
    ("pool_deposit", ⟨"preparePoolDepositTx", [(.text, 0), (.text, 1), (.text, 2), (.i128, 3)]⟩),
    ("pool_withdraw", ⟨"preparePoolWithdrawTx",
      [(.approvals, 3), (.text, 0), (.i128, 2), (.text, 1)]⟩),
    ("add_pool_admin", ⟨"prepareAddPoolAdminTx", [(.approvals, 2), (.text, 0), (.text, 1)]⟩),
    ("remove_pool_admin", ⟨"prepareRemovePoolAdminTx",
      [(.approvals, 2), (.text, 0), (.text, 1)]⟩),
    ("update_pool_threshold", ⟨"prepareUpdatePoolThresholdTx",
      [(.approvals, 2), (.text, 0), (.u64, 1)]⟩)]

def formatOf (method : String) : Option TxFormat :=
  (TX_FORMATS.find? (·.1 = method)).map Prod.snd

/-- An argument up to surrounding blanks, an integer by its value, a list of approvals by its
addresses. -/
def FieldKind.value (kind : FieldKind) (arg : String) : TxParam :=
  match kind with
  | .text => .text (Scan.trim arg)
  | .u64 | .i128 => .integer (Nat.ofDigitChars 10 (Scan.trim arg).toList 0)
  | .approvals => .signers ((approvalEntries (Scan.trim arg)).filterMap fun entry =>
      (approvalAddress entry).map Scan.trim)

/-- The one call that a method with these arguments stands for. -/
def meant (method : String) (args : List String) : Option Built :=
  match formatOf method with
  | none => none
  | some f =>
    if args.length = f.params.length ∧ ∀ arg ∈ args, ':' ∉ arg.toList then
      some (.prepared f.helper (f.params.map fun p => p.1.value (args.getD p.2 "")))
    else none

/-- The descriptor is refused, or the call is the one that it stands for. -/
def SignsWhatItSays (method : String) (args : List String) : Prop :=
  ∀ built, buildTxXdr (descriptorOf method args) = .ok built → meant method args = some built

/-! ## Reading the fields -/

/-- What the checks of a field let pass. -/
def FieldKind.accepts (kind : FieldKind) (arg : String) : Bool :=
  let value := Scan.trim arg
  decide (value ≠ "") &&
    match kind with
    | .text => true
    | .u64 | .i128 =>
      value.toList.all Char.isDigit && decide (0 < Nat.ofDigitChars 10 value.toList 0)
    | .approvals =>
      decide (approvalEntries value ≠ []) &&
        (approvalEntries value).all fun entry => (approvalAddress entry).isSome

theorem requireField_eq_ok {args : List String} {index : Nat} {method label s : String} :
    requireField args index method label = .ok s ↔
      ∃ arg, args[index]? = some arg ∧ Scan.trim arg ≠ "" ∧ s = Scan.trim arg := by
  rw [requireField]
  cases args[index]? with
  | none => simp
  | some arg =>
    simp only [Option.some.injEq, exists_eq_left']
    split
    · rename_i hblank
      simp [hblank]
    · rename_i hne
      rw [Except.ok.injEq]
      exact ⟨fun h => ⟨hne, h.symm⟩, fun h => h.2.symm⟩

theorem requireInteger_eq_ok {notDigits : String} {args : List String} {index : Nat}
    {method label : String} {n : Nat} :
    requireInteger notDigits args index method label = .ok n ↔
      ∃ arg, args[index]? = some arg ∧ FieldKind.accepts .u64 arg = true ∧
        n = Nat.ofDigitChars 10 (Scan.trim arg).toList 0 := by
  have hfield := @requireField_eq_ok args index method label
  rw [requireInteger]
  cases hread : requireField args index method label with
  | error e =>
    simp only [reduceCtorEq, false_iff]
    rintro ⟨arg, harg, haccepts, -⟩
    have hne : Scan.trim arg ≠ "" := of_decide_eq_true (Bool.and_eq_true_iff.mp haccepts).1
    rw [hfield.mpr ⟨arg, harg, hne, rfl⟩] at hread
    cases hread
  | ok raw =>
    obtain ⟨arg, harg, hne, rfl⟩ := hfield.mp hread
    have hlist : (Scan.trim arg).toList ≠ [] := fun h => hne (String.toList_eq_nil_iff.mp h)
    simp only [harg, Option.some.injEq, exists_eq_left', FieldKind.accepts]
    split
    · rename_i hbad
      have hnot := hbad.resolve_left hlist
      simp [hnot]
    · rename_i hgood
      have hall : (Scan.trim arg).toList.all Char.isDigit = true := by
        by_contra hnot
        exact hgood (.inr hnot)
      split
      · rename_i hzero
        have hnot : ¬0 < Nat.ofDigitChars 10 (Scan.trim arg).toList 0 := Nat.not_lt.mpr hzero
        simp [hnot]
      · rename_i hpos
        rw [Except.ok.injEq]
        simp only [hne, hall, Nat.lt_of_not_le hpos, ne_eq, not_false_eq_true, decide_true,
          Bool.true_and, true_and]
        exact eq_comm

theorem mapM_option_eq_some {α β : Type} {f : α → Option β} {l : List α} {bs : List β} :
    l.mapM f = some bs ↔ (l.all fun a => (f a).isSome) = true ∧ bs = l.filterMap f := by
  induction l generalizing bs with
  | nil => simp [eq_comm]
  | cons a l ih =>
    rw [List.mapM_cons]
    cases ha : f a with
    | none => simp [ha]
    | some b =>
      rw [List.filterMap_cons_some ha, List.all_cons, ha]
      cases hl : l.mapM f with
      | none =>
        have hnot : ¬(l.all fun a => (f a).isSome) = true := fun hall => by
          have hsome : l.mapM f = some (l.filterMap f) := ih.mpr ⟨hall, rfl⟩
          rw [hsome] at hl
          cases hl
        simp [hnot]
      | some cs =>
        obtain ⟨hall, hcs⟩ := ih.mp hl
        simp [hall, hcs, eq_comm]

theorem parseApprovalList_eq_ok {raw method : String} {addresses : List String} :
    parseApprovalList raw method = .ok addresses ↔
      approvalEntries raw ≠ [] ∧
        ((approvalEntries raw).all fun entry => (approvalAddress entry).isSome) = true ∧
          addresses = (approvalEntries raw).filterMap fun entry =>
            (approvalAddress entry).map Scan.trim := by
  rw [parseApprovalList]
  cases hread : (approvalEntries raw).mapM approvalAddress with
  | none =>
    simp only [reduceCtorEq, false_iff]
    rintro ⟨-, hall, -⟩
    rw [mapM_option_eq_some.mpr ⟨hall, rfl⟩] at hread
    cases hread
  | some found =>
    obtain ⟨hall, hfound⟩ := mapM_option_eq_some.mp hread
    have hmap : (approvalEntries raw).filterMap (fun entry =>
        (approvalAddress entry).map Scan.trim) = found.map Scan.trim := by
      rw [hfound, List.map_filterMap]
    rw [hmap]
    cases found with
    | nil =>
      have hnil : approvalEntries raw = [] := by
        rw [List.eq_nil_iff_forall_not_mem]
        intro entry hentry
        have hnone := List.filterMap_eq_nil_iff.mp hfound.symm entry hentry
        have hsome := List.all_eq_true.mp hall entry hentry
        rw [hnone] at hsome
        cases hsome
      simp [hnil]
    | cons address rest =>
      have hne : approvalEntries raw ≠ [] := by
        intro hnil
        rw [hnil] at hfound
        cases hfound
      simp only [hne, hall, Except.ok.injEq, ne_eq, not_false_eq_true, true_and]
      exact eq_comm

/-- A slot reads a field that its checks accept, and takes its value. -/
theorem read_eq_ok {method : String} {args : List String} {slot : TxSlot} {param : TxParam} :
    slot.read method args = .ok param ↔ ∃ arg, args[slot.index]? = some arg ∧
      slot.kind.accepts arg = true ∧ param = slot.kind.value arg := by
  obtain ⟨kind, index, label⟩ := slot
  have hmap : ∀ {α : Type} {x : Except String α} {f : α → TxParam},
      x.map f = .ok param ↔ ∃ a, x = .ok a ∧ param = f a := by
    intro α x f
    cases x with
    | error e => simp [Except.map]
    | ok a => simp [Except.map, eq_comm]
  cases kind with
  | text =>
    simp only [TxSlot.read, hmap, requireField_eq_ok, FieldKind.accepts, FieldKind.value,
      Bool.and_true, decide_eq_true_eq]
    constructor
    · rintro ⟨s, ⟨arg, harg, hne, rfl⟩, rfl⟩
      exact ⟨arg, harg, hne, rfl⟩
    · rintro ⟨arg, harg, hne, rfl⟩
      exact ⟨_, ⟨arg, harg, hne, rfl⟩, rfl⟩
  | u64 =>
    simp only [TxSlot.read, hmap, requireU64, requireInteger_eq_ok, FieldKind.value]
    constructor
    · rintro ⟨n, ⟨arg, harg, haccepts, rfl⟩, rfl⟩
      exact ⟨arg, harg, haccepts, rfl⟩
    · rintro ⟨arg, harg, haccepts, rfl⟩
      exact ⟨_, ⟨arg, harg, haccepts, rfl⟩, rfl⟩
  | i128 =>
    have hsame : ∀ arg, FieldKind.accepts .i128 arg = FieldKind.accepts .u64 arg := fun arg => by
      simp only [FieldKind.accepts]
    simp only [TxSlot.read, hmap, requireI128, requireInteger_eq_ok, FieldKind.value, hsame]
    constructor
    · rintro ⟨n, ⟨arg, harg, haccepts, rfl⟩, rfl⟩
      exact ⟨arg, harg, haccepts, rfl⟩
    · rintro ⟨arg, harg, haccepts, rfl⟩
      exact ⟨_, ⟨arg, harg, haccepts, rfl⟩, rfl⟩
  | approvals =>
    have hfield := @requireField_eq_ok args index method label
    simp only [TxSlot.read, FieldKind.value, FieldKind.accepts, Bool.and_eq_true,
      decide_eq_true_eq]
    cases hread : requireField args index method label with
    | error e =>
      simp only [reduceCtorEq, false_iff]
      rintro ⟨arg, harg, ⟨hne, -⟩, -⟩
      rw [hfield.mpr ⟨arg, harg, hne, rfl⟩] at hread
      cases hread
    | ok raw =>
      obtain ⟨arg, harg, hne, rfl⟩ := hfield.mp hread
      simp only [hmap, parseApprovalList_eq_ok, harg, Option.some.injEq, exists_eq_left']
      constructor
      · rintro ⟨addresses, ⟨hentries, hall, haddresses⟩, hparam⟩
        rw [haddresses] at hparam
        exact ⟨⟨hne, hentries, hall⟩, hparam⟩
      · rintro ⟨⟨-, hentries, hall⟩, hparam⟩
        exact ⟨_, ⟨hentries, hall, rfl⟩, hparam⟩

theorem mapM_eq_ok {ε α β : Type} {f : α → Except ε β} {l : List α} {bs : List β} :
    l.mapM f = .ok bs ↔ List.Forall₂ (fun a b => f a = .ok b) l bs := by
  induction l generalizing bs with
  | nil =>
    rw [List.forall₂_nil_left_iff]
    exact ⟨fun h => (Except.ok.inj h).symm, fun h => by rw [h]; rfl⟩
  | cons a l ih =>
    rw [List.mapM_cons]
    cases ha : f a with
    | error e =>
      constructor
      · intro h
        cases h
      · intro h
        cases h with
        | cons hb _ =>
          rw [ha] at hb
          cases hb
    | ok b =>
      cases hl : l.mapM f with
      | error e =>
        constructor
        · intro h
          cases h
        · intro h
          cases h with
          | cons _ hrest =>
            rw [ih.mpr hrest] at hl
            cases hl
      | ok cs =>
        constructor
        · intro h
          obtain rfl : b :: cs = bs := Except.ok.inj h
          exact .cons ha (ih.mp hl)
        · intro h
          cases h with
          | cons hb hrest =>
            rw [ha] at hb
            cases hb
            rw [ih.mpr hrest] at hl
            cases hl
            rfl

/-- The fields that a builder needs are there and pass their checks. -/
def TxBuilder.Fits (b : TxBuilder) (fields : List String) : Prop :=
  ∀ slot ∈ b.slots, ∃ arg, fields[slot.index]? = some arg ∧ slot.kind.accepts arg = true

theorem build_eq_ok {b : TxBuilder} {method : String} {fields : List String} {built : Built} :
    b.build method fields = .ok built ↔ b.Fits fields ∧ built = .prepared b.helper
      (b.slots.map fun slot => slot.kind.value (fields.getD slot.index "")) := by
  have hvalue : ∀ {slot : TxSlot} {arg : String}, fields[slot.index]? = some arg →
      fields.getD slot.index "" = arg := by
    intro slot arg h
    rw [List.getD_eq_getElem?_getD, h]
    rfl
  have hslots : ∀ {params}, b.slots.mapM (TxSlot.read method fields) = .ok params ↔
      b.Fits fields ∧
        params = b.slots.map fun slot => slot.kind.value (fields.getD slot.index "") := by
    intro params
    rw [mapM_eq_ok, TxBuilder.Fits]
    generalize b.slots = slots
    induction slots generalizing params with
    | nil => simp
    | cons slot slots ih =>
      rw [List.forall₂_cons_left_iff, List.forall_mem_cons, List.map_cons]
      constructor
      · rintro ⟨param, rest, hread, hrest, rfl⟩
        obtain ⟨arg, harg, haccepts, rfl⟩ := read_eq_ok.mp hread
        obtain ⟨hfits, rfl⟩ := ih.mp hrest
        rw [hvalue harg]
        exact ⟨⟨⟨arg, harg, haccepts⟩, hfits⟩, rfl⟩
      · rintro ⟨⟨⟨arg, harg, haccepts⟩, hfits⟩, rfl⟩
        rw [hvalue harg]
        exact ⟨_, _, read_eq_ok.mpr ⟨arg, harg, haccepts, rfl⟩, ih.mpr ⟨hfits, rfl⟩, rfl⟩
  rw [TxBuilder.build]
  cases hread : b.slots.mapM (TxSlot.read method fields) with
  | error e =>
    constructor
    · intro h
      cases h
    · rintro ⟨hfits, -⟩
      rw [hslots.mpr ⟨hfits, rfl⟩] at hread
      cases hread
  | ok params =>
    obtain ⟨hfits, rfl⟩ := hslots.mp hread
    constructor
    · intro h
      exact ⟨hfits, (Except.ok.inj h).symm⟩
    · rintro ⟨-, rfl⟩
      rfl

end Mobile
end Linkora
