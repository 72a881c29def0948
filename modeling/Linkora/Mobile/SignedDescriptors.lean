import Linkora.Mobile.TxDescriptors

/-!
# What a descriptor signs

The text that a method and its arguments make is read back field by field.  The call is the one
that was meant if the arguments have no colon and there are as many as the builder looks up,
and else only if the text is refused.
-/

namespace Linkora
namespace Mobile

/-! ## The fields of a text -/

theorem trimChars_eq (l : List Char) : Scan.trimChars l =
    (l.dropWhile Scan.isSpace).rdropWhile Scan.isSpace := rfl

theorem trimChars_concat {x : Char} (hx : Scan.isSpace x = true) (l : List Char) :
    Scan.trimChars (l ++ [x]) = Scan.trimChars l := by
  rw [trimChars_eq, trimChars_eq, List.dropWhile_append]
  split
  · rename_i hempty
    rw [List.isEmpty_iff.mp hempty, List.dropWhile_cons_of_pos hx, List.dropWhile_nil]
  · rw [List.rdropWhile_concat_pos _ _ _ hx]

theorem trimChars_rdropWhile (l : List Char) :
    Scan.trimChars (l.rdropWhile Scan.isSpace) = Scan.trimChars l := by
  induction l using List.reverseRecOn with
  | nil => rfl
  | append_singleton l x ih =>
    by_cases hx : Scan.isSpace x = true
    · rw [List.rdropWhile_concat_pos _ _ _ hx, ih, trimChars_concat hx]
    · rw [List.rdropWhile_concat_neg _ _ _ hx]

theorem rdropWhile_append_cons {p : Char → Bool} {x : Char} (hx : p x = false) (a l : List Char) :
    (a ++ x :: l).rdropWhile p = a ++ x :: l.rdropWhile p := by
  induction l using List.reverseRecOn with
  | nil =>
    rw [List.rdropWhile_concat_neg _ _ _ (by rw [hx]; exact Bool.false_ne_true)]
    rfl
  | append_singleton l y ih =>
    have hshape : a ++ x :: (l ++ [y]) = a ++ x :: l ++ [y] := by
      rw [List.append_assoc, List.cons_append]
    rw [hshape]
    by_cases hy : p y = true
    · rw [List.rdropWhile_concat_pos _ _ _ hy, List.rdropWhile_concat_pos _ _ _ hy, ih]
    · rw [List.rdropWhile_concat_neg _ _ _ hy, List.rdropWhile_concat_neg _ _ _ hy, hshape]

theorem intercalate_concat {α : Type} (sep last : List α) {ls : List (List α)} (h : ls ≠ []) :
    sep.intercalate (ls ++ [last]) = sep.intercalate ls ++ (sep ++ last) := by
  induction ls with
  | nil => exact absurd rfl h
  | cons l ls ih =>
    cases ls with
    | nil => simp
    | cons l' ls =>
      rw [List.cons_append, List.intercalate_cons_of_ne_nil (by simp),
        ih (List.cons_ne_nil _ _), List.intercalate_cons_of_ne_nil (List.cons_ne_nil _ _)]
      simp only [List.append_assoc]

/-- The fields that the text is read as. -/
def fieldsOf (method : String) (args : List String) : List String :=
  Text.split ':' (Scan.trim (descriptorOf method args))

/-- Only blanks at the end of the last argument are lost. -/
theorem fieldsOf_eq {method : String} {args : List String} (hargs : args ≠ [])
    (hhead : ∃ c l, method.toList = c :: l ∧ Scan.isSpace c = false)
    (hmethod : ':' ∉ method.toList) (hcolon : ∀ arg ∈ args, ':' ∉ arg.toList) :
    ∃ fields, fieldsOf method args = method :: fields ∧
      fields.map Scan.trim = args.map Scan.trim := by
  obtain ⟨init, last, rfl⟩ := (List.eq_nil_or_concat' args).resolve_left hargs
  obtain ⟨c, l, hlist, hc⟩ := hhead
  have hlast : ':' ∉ last.toList := hcolon last (List.mem_append_right _ List.mem_cons_self)
  have hne : (method :: init).map String.toList ≠ [] := List.cons_ne_nil _ _
  -- The whole text up to the last colon, which no trim reaches.
  have htext : (descriptorOf method (init ++ [last])).toList =
      [':'].intercalate ((method :: init).map String.toList) ++ ':' :: last.toList := by
    have hsep : ":".toList = [':'] := rfl
    rw [descriptorOf, String.toList_intercalate, ← List.cons_append, List.map_append, hsep,
      List.map_singleton, intercalate_concat _ _ hne]
    rfl
  have hfront : ([':'].intercalate ((method :: init).map String.toList) ++ ':' ::
      last.toList).dropWhile Scan.isSpace =
        [':'].intercalate ((method :: init).map String.toList) ++ ':' :: last.toList := by
    rw [List.map_cons, hlist, List.intercalate_cons_cons_left, List.cons_append,
      List.dropWhile_cons_of_neg (by rw [hc]; exact Bool.false_ne_true)]
  have htrim : (Scan.trim (descriptorOf method (init ++ [last]))).toList =
      [':'].intercalate ((method :: init).map String.toList ++
        [last.toList.rdropWhile Scan.isSpace]) := by
    rw [Scan.trim, String.toList_ofList, htext, trimChars_eq, hfront,
      rdropWhile_append_cons (by decide), intercalate_concat _ _ hne]
    rfl
  have hparts : ∀ part ∈ (method :: init).map String.toList ++
      [last.toList.rdropWhile Scan.isSpace], ':' ∉ part := by
    intro part hpart
    rcases List.mem_append.mp hpart with hpart | hpart
    · obtain ⟨s, hs, rfl⟩ := List.mem_map.mp hpart
      rcases List.mem_cons.mp hs with rfl | hs
      · exact hmethod
      · exact hcolon s (List.mem_append_left _ hs)
    · rw [List.mem_singleton.mp hpart]
      exact fun hmem => hlast ((List.rdropWhile_prefix _ _).subset hmem)
  refine ⟨init ++ [String.ofList (last.toList.rdropWhile Scan.isSpace)], ?_, ?_⟩
  · rw [fieldsOf, Text.split, htrim, List.splitOn_intercalate ':' hparts (by simp)]
    simp
  · rw [List.map_append, List.map_append, List.map_singleton, List.map_singleton, Scan.trim,
      String.toList_ofList, trimChars_rdropWhile]
    rfl

/-- The builders look at the fields through `trim` only. -/
theorem fits_congr {b : TxBuilder} {fields args : List String}
    (h : fields.map Scan.trim = args.map Scan.trim) :
    (b.Fits fields ↔ b.Fits args) ∧ ∀ slot : TxSlot,
      slot.kind.value (fields.getD slot.index "") = slot.kind.value (args.getD slot.index "") := by
  have hat : ∀ i : Nat, (fields[i]?).map Scan.trim = (args[i]?).map Scan.trim := fun i => by
    rw [← List.getElem?_map, ← List.getElem?_map, h]
  have haccepts : ∀ (kind : FieldKind) {a a' : String}, Scan.trim a = Scan.trim a' →
      kind.accepts a = kind.accepts a' := fun kind a a' heq => by
    simp only [FieldKind.accepts, heq]
  have hvalue : ∀ (kind : FieldKind) {a a' : String}, Scan.trim a = Scan.trim a' →
      kind.value a = kind.value a' := fun kind a a' heq => by
    cases kind <;> simp only [FieldKind.value, heq]
  have hmove : ∀ {xs ys : List String} {slot : TxSlot},
      (∀ i : Nat, (xs[i]?).map Scan.trim = (ys[i]?).map Scan.trim) →
      (∃ arg, xs[slot.index]? = some arg ∧ slot.kind.accepts arg = true) →
      ∃ arg, ys[slot.index]? = some arg ∧ slot.kind.accepts arg = true := by
    rintro xs ys slot hxy ⟨arg, harg, hok⟩
    have htrim := hxy slot.index
    rw [harg, Option.map_some] at htrim
    obtain ⟨arg', harg', heq⟩ := Option.map_eq_some_iff.mp htrim.symm
    exact ⟨arg', harg', by rw [haccepts slot.kind heq]; exact hok⟩
  refine ⟨⟨fun hfits slot hslot => hmove hat (hfits slot hslot),
    fun hfits slot hslot => hmove (fun i => (hat i).symm) (hfits slot hslot)⟩, fun slot => ?_⟩
  refine hvalue slot.kind ?_
  rw [List.getD_eq_getElem?_getD, List.getD_eq_getElem?_getD]
  have htrim := hat slot.index
  cases hf : fields[slot.index]? with
  | none =>
    rw [hf, Option.map_none] at htrim
    rw [Option.map_eq_none_iff.mp htrim.symm]
  | some f =>
    rw [hf, Option.map_some] at htrim
    obtain ⟨a, ha, heq⟩ := Option.map_eq_some_iff.mp htrim.symm
    rw [ha]
    exact heq.symm

/-! ## Methods -/

/-- The methods whose builders look for the approvals one field further on. -/
def POOL_ADMIN_METHODS : List String :=
  ["add_pool_admin", "remove_pool_admin", "update_pool_threshold"]

/-- The format of a builder that looks up every argument. -/
def TxBuilder.format (b : TxBuilder) : TxFormat :=
  ⟨b.helper, b.slots.map fun slot => (slot.kind, slot.index)⟩

theorem mem_of_builderOf {method : String} {b : TxBuilder} (h : builderOf method = some b) :
    (method, b) ∈ DESCRIPTOR_BUILDERS := by
  obtain ⟨x, hx, rfl⟩ := Option.map_eq_some_iff.mp h
  have hkey : x.1 = method := by simpa using List.find?_some hx
  rw [← hkey]
  exact List.mem_of_find?_eq_some hx

theorem mem_of_formatOf {method : String} {f : TxFormat} (h : formatOf method = some f) :
    (method, f) ∈ TX_FORMATS := by
  obtain ⟨x, hx, rfl⟩ := Option.map_eq_some_iff.mp h
  have hkey : x.1 = method := by simpa using List.find?_some hx
  rw [← hkey]
  exact List.mem_of_find?_eq_some hx

theorem format_of_builder {method : String} {b : TxBuilder} (h : builderOf method = some b)
    (hmethod : method ∉ POOL_ADMIN_METHODS) : formatOf method = some b.format := by
  have hall : ∀ x ∈ DESCRIPTOR_BUILDERS, x.1 ∉ POOL_ADMIN_METHODS →
      formatOf x.1 = some x.2.format := by decide +kernel
  exact hall (method, b) (mem_of_builderOf h) hmethod

theorem builder_of_format {method : String} {f : TxFormat} (h : formatOf method = some f) :
    ∃ b, builderOf method = some b ∧ b.slots.length = f.params.length ∧
      (method ∈ POOL_ADMIN_METHODS → ∃ slot ∈ b.slots, f.params.length ≤ slot.index) := by
  have hall : ∀ x ∈ TX_FORMATS, ∃ b ∈ DESCRIPTOR_BUILDERS.map Prod.snd,
      builderOf x.1 = some b ∧ b.slots.length = x.2.params.length ∧
        (x.1 ∈ POOL_ADMIN_METHODS → ∃ slot ∈ b.slots, x.2.params.length ≤ slot.index) := by
    decide +kernel
  obtain ⟨b, -, hb⟩ := hall (method, f) (mem_of_formatOf h)
  exact ⟨b, hb⟩

theorem method_chars {method : String} {b : TxBuilder} (h : builderOf method = some b) :
    (∃ c l, method.toList = c :: l ∧ Scan.isSpace c = false) ∧ ':' ∉ method.toList := by
  have hall : ∀ x ∈ DESCRIPTOR_BUILDERS,
      (x.1.toList.head?.any fun c => !Scan.isSpace c) = true ∧ ':' ∉ x.1.toList := by decide
  obtain ⟨hhead, hcolon⟩ := hall (method, b) (mem_of_builderOf h)
  refine ⟨?_, hcolon⟩
  cases hlist : method.toList with
  | nil =>
    rw [hlist] at hhead
    cases hhead
  | cons c l =>
    rw [hlist] at hhead
    exact ⟨c, l, rfl, Bool.not_eq_eq_eq_not.mp hhead⟩

/-! ## What is refused -/

/-- The text is no descriptor that anything is called for: the first field names neither a
method nor one of the two inherited functions that give a value, or a field that the builder
looks up is missing or does not pass its check. -/
structure Refused (method : String) (args : List String) : Prop where
  unfit : ∀ {name fields b}, fieldsOf method args = name :: fields → builderOf name = some b →
    ¬b.Fits fields
  unnamed : ∀ {name fields}, fieldsOf method args = name :: fields →
    name ≠ "constructor" ∧ name ≠ "toString"

/-- The builder of the method looks up every argument, and the arguments have no colon. -/
def Exact (method : String) (args : List String) : Prop :=
  ∃ b, builderOf method = some b ∧ method ∉ POOL_ADMIN_METHODS ∧
    args.length = b.slots.length ∧ ∀ arg ∈ args, ':' ∉ arg.toList

theorem parse_fields (method : String) (args : List String) :
    (∃ e, parseTxDescriptor (descriptorOf method args) = .error e ∧
      fieldsOf method args = [""]) ∨
    ∃ name fields, parseTxDescriptor (descriptorOf method args) = .ok (name, fields) ∧
      fieldsOf method args = name :: fields := by
  by_cases hblank : Scan.trim (descriptorOf method args) = ""
  · refine .inl ⟨_, by rw [parseTxDescriptor, if_pos hblank], ?_⟩
    rw [fieldsOf, hblank]
    decide
  · have hne : fieldsOf method args ≠ [] := by
      rw [fieldsOf, Text.split]
      exact fun h => List.splitOn_ne_nil _ _ (List.map_eq_nil_iff.mp h)
    obtain ⟨name, fields, hfields⟩ := List.exists_cons_of_ne_nil hne
    refine .inr ⟨name, fields, ?_, hfields⟩
    rw [fieldsOf] at hfields
    rw [parseTxDescriptor, if_neg hblank, hfields]

theorem not_ok_of_refused {method : String} {args : List String} (h : Refused method args)
    (built : Built) : buildTxXdr (descriptorOf method args) ≠ .ok built := by
  intro hok
  rw [buildTxXdr] at hok
  rcases parse_fields method args with ⟨e, hparse, -⟩ | ⟨name, fields, hparse, hfields⟩
  · rw [hparse] at hok
    cases hok
  · obtain ⟨hconstructor, htoString⟩ := h.unnamed hfields
    rw [hparse] at hok
    simp only at hok
    cases hb : builderOf name with
    | some b =>
      rw [hb] at hok
      exact h.unfit hfields hb (build_eq_ok.mp hok).1
    | none =>
      rw [hb] at hok
      simp only [inherited, if_neg hconstructor, if_neg htoString] at hok
      split at hok
      · rename_i result hresult
        split at hresult
        · cases hresult
          cases hok
        · cases hresult
      · cases hok

/-- What is not refused gives a value. -/
theorem ok_of_not_refused {method : String} {args : List String} (h : ¬Refused method args) :
    ∃ name fields, fieldsOf method args = name :: fields ∧
      ((∃ b, builderOf name = some b ∧ b.Fits fields ∧
        buildTxXdr (descriptorOf method args) = .ok (.prepared b.helper
          (b.slots.map fun slot => slot.kind.value (fields.getD slot.index "")))) ∨
      ∃ built, buildTxXdr (descriptorOf method args) = .ok built ∧
        ∀ helper params, built ≠ .prepared helper params) := by
  by_contra hnone
  refine h ⟨fun {name fields b} hfields hb hfits => ?_, fun {name fields} hfields => ?_⟩
  · rcases parse_fields method args with ⟨e, -, hempty⟩ | ⟨name', fields', hparse, hfields'⟩
    · have hnot : builderOf "" = none := by decide
      rw [hempty] at hfields
      obtain ⟨rfl, rfl⟩ := List.cons.inj hfields
      rw [hnot] at hb
      cases hb
    · rw [hfields] at hfields'
      obtain ⟨rfl, rfl⟩ := List.cons.inj hfields'
      refine hnone ⟨name, fields, hfields, .inl ⟨b, hb, hfits, ?_⟩⟩
      rw [buildTxXdr, hparse]
      simp only [hb]
      exact build_eq_ok.mpr ⟨hfits, rfl⟩
  · rcases parse_fields method args with ⟨e, -, hempty⟩ | ⟨name', fields', hparse, hfields'⟩
    · rw [hempty] at hfields
      obtain ⟨rfl, rfl⟩ := List.cons.inj hfields
      exact ⟨by decide, by decide⟩
    · rw [hfields] at hfields'
      obtain ⟨rfl, rfl⟩ := List.cons.inj hfields'
      constructor
      · rintro rfl
        have hb : builderOf "constructor" = none := by decide
        refine hnone ⟨_, fields, hfields, .inr ⟨.client, ?_, fun _ _ heq => by cases heq⟩⟩
        rw [buildTxXdr, hparse]
        simp only [hb]
        rfl
      · rintro rfl
        have hb : builderOf "toString" = none := by decide
        refine hnone ⟨_, fields, hfields, .inr ⟨.text "[object Undefined]", ?_,
          fun _ _ heq => by cases heq⟩⟩
        rw [buildTxXdr, hparse]
        simp only [hb]
        rfl

/-! ## What is signed -/

theorem meant_eq_some {method : String} {args : List String} {built : Built}
    (h : meant method args = some built) : ∃ f, formatOf method = some f ∧
      args.length = f.params.length ∧ (∀ arg ∈ args, ':' ∉ arg.toList) ∧
        built = .prepared f.helper (f.params.map fun p => p.1.value (args.getD p.2 "")) := by
  rw [meant] at h
  cases hf : formatOf method with
  | none =>
    rw [hf] at h
    cases h
  | some f =>
    rw [hf] at h
    simp only at h
    split at h
    · rename_i hargs
      exact ⟨f, rfl, hargs.1, hargs.2, (Option.some.inj h).symm⟩
    · cases h

theorem slots_ne {method : String} {b : TxBuilder} (h : builderOf method = some b) :
    b.slots.length ≠ 0 := by
  have hall : ∀ x ∈ DESCRIPTOR_BUILDERS, x.2.slots.length ≠ 0 := by decide
  exact hall (method, b) (mem_of_builderOf h)

theorem signs_of_exact {method : String} {args : List String} (h : Exact method args) :
    SignsWhatItSays method args := by
  obtain ⟨b, hb, hmethod, hlength, hcolon⟩ := h
  obtain ⟨hhead, hname⟩ := method_chars hb
  have hargs : args ≠ [] := by
    rintro rfl
    exact slots_ne hb hlength.symm
  obtain ⟨fields, hfields, htrim⟩ := fieldsOf_eq hargs hhead hname hcolon
  obtain ⟨-, hvalue⟩ := fits_congr (b := b) htrim
  intro built hok
  have hbuild : b.build method fields = .ok built := by
    rcases parse_fields method args with ⟨e, hparse, -⟩ | ⟨name, fields', hparse, hfields'⟩
    · rw [buildTxXdr, hparse] at hok
      cases hok
    · rw [hfields] at hfields'
      obtain ⟨rfl, rfl⟩ := List.cons.inj hfields'
      rw [buildTxXdr, hparse] at hok
      simp only [hb] at hok
      exact hok
  obtain ⟨-, rfl⟩ := build_eq_ok.mp hbuild
  have hformat := format_of_builder hb hmethod
  have hcount : args.length = b.format.params.length := by
    rw [hlength, TxBuilder.format, List.length_map]
  rw [meant, hformat]
  simp only
  rw [if_pos ⟨hcount, hcolon⟩, TxBuilder.format, List.map_map]
  simp only [hvalue]
  rfl

theorem exact_of_signs {method : String} {args : List String} (h : SignsWhatItSays method args)
    (hrefused : ¬Refused method args) : Exact method args := by
  obtain ⟨name, fields, hfields, hbuilt⟩ := ok_of_not_refused hrefused
  rcases hbuilt with ⟨b', hb', hfits, hok⟩ | ⟨built, hok, hother⟩
  · obtain ⟨f, hf, hlength, hcolon, -⟩ := meant_eq_some (h _ hok)
    obtain ⟨b, hb, hslots, hadmin⟩ := builder_of_format hf
    refine ⟨b, hb, fun hmethod => ?_, by rw [hlength, hslots], hcolon⟩
    -- The builder looks for one more argument than the format has.
    obtain ⟨slot, hslot, hindex⟩ := hadmin hmethod
    obtain ⟨hhead, hname⟩ := method_chars hb
    have hargs : args ≠ [] := by
      rintro rfl
      exact slots_ne hb (by rw [hslots, ← hlength]; rfl)
    obtain ⟨fields', hfields', htrim⟩ := fieldsOf_eq hargs hhead hname hcolon
    rw [hfields] at hfields'
    obtain ⟨rfl, rfl⟩ := List.cons.inj hfields'
    rw [hb] at hb'
    obtain rfl := Option.some.inj hb'
    obtain ⟨arg, harg, -⟩ := (fits_congr htrim).1.mp hfits slot hslot
    have hin := (List.getElem?_eq_some_iff.mp harg).1
    omega
  · obtain ⟨f, -, -, -, hprepared⟩ := meant_eq_some (h _ hok)
    exact absurd hprepared (hother _ _)

/-- A descriptor signs what it says, or nothing, just if it is refused or its builder looks up
every argument and no argument has a colon. -/
theorem signs_iff (method : String) (args : List String) :
    SignsWhatItSays method args ↔ Refused method args ∨ Exact method args := by
  constructor
  · intro h
    cases Classical.em (Refused method args) with
    | inl hrefused => exact Or.inl hrefused
    | inr hrefused => exact Or.inr (exact_of_signs h hrefused)
  · intro h
    cases h with
    | inl hrefused => exact fun built hok => absurd hok (not_ok_of_refused hrefused built)
    | inr hexact => exact signs_of_exact hexact

/-- A method without a format, a wrong number of arguments or a colon in one has to be
refused. -/
theorem not_signs_of_unmeant {method : String} {args : List String} {built : Built}
    (hok : buildTxXdr (descriptorOf method args) = .ok built) (h : meant method args = none) :
    ¬SignsWhatItSays method args := by
  intro hsigns
  have hmeant := hsigns built hok
  rw [h] at hmeant
  cases hmeant

/-- A name with a colon shifts the token, an argument too many is dropped, the builders of the
pool's admins skip an argument, and an inherited function takes the place of a builder. -/
theorem unmeant_calls_signed :
    ¬SignsWhatItSays "set_profile" ["GA", "a:b", "CT"] ∧
      ¬SignsWhatItSays "follow" ["GA", "GB", "GC"] ∧
      ¬SignsWhatItSays "add_pool_admin" ["1", "GA", "GB", "GC=h"] ∧
      ¬SignsWhatItSays "constructor" ["GA"] := by
  have hprofile : buildTxXdr (descriptorOf "set_profile" ["GA", "a:b", "CT"]) =
      .ok (.prepared "prepareSetProfileTx" [.text "GA", .text "a", .text "b"]) := by
    decide +kernel
  have hfollow : buildTxXdr (descriptorOf "follow" ["GA", "GB", "GC"]) =
      .ok (.prepared "prepareFollowTx" [.text "GA", .text "GB"]) := by decide +kernel
  have hadmin : buildTxXdr (descriptorOf "add_pool_admin" ["1", "GA", "GB", "GC=h"]) =
      .ok (.prepared "prepareAddPoolAdminTx" [.signers ["GC"], .text "1", .text "GA"]) := by
    decide +kernel
  have hinherited : buildTxXdr (descriptorOf "constructor" ["GA"]) = .ok .client := by
    decide +kernel
  exact ⟨not_signs_of_unmeant hprofile (by decide +kernel),
    not_signs_of_unmeant hfollow (by decide +kernel),
    not_signs_of_unmeant hadmin (by decide +kernel),
    not_signs_of_unmeant hinherited (by decide +kernel)⟩

end Mobile
end Linkora
