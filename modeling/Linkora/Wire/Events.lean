import Linkora.Wire.Decoders

/-!
# Which events decode

The topic fields are published by position, and both readers look for them by name.  An event
with a topic field that is read decodes to what was published only where the text of
`undefined` was published, and no case of the indexer has the name of a struct that it could
read.
-/

namespace Linkora
namespace Wire

/-! ## The readers -/

theorem Payload.get_eq {payload : Payload} {name : String} {v : JsValue}
    (hex : ∃ entry ∈ payload, entry.1 = name) (h : ∀ entry ∈ payload, entry.1 = name → entry.2 = v) :
    payload.get name = v := by
  rw [Payload.get]
  split
  · rename_i entry hentry
    have hname : entry.1 = name := by simpa using List.find?_some hentry
    exact h entry (List.mem_reverse.mp (List.mem_of_find?_eq_some hentry)) hname
  · rename_i hnone
    obtain ⟨entry, hentry, hname⟩ := hex
    have hne := List.find?_eq_none.mp hnone entry (List.mem_reverse.mpr hentry)
    simp [hname] at hne

theorem all_isDigit_toString (n : Nat) : (toString n).toList.all Char.isDigit = true := by
  rw [Nat.toString_eq_ofList_toDigits, String.toList_ofList, List.all_eq_true]
  intro c hc
  exact Nat.isDigit_of_mem_toDigits (by decide) (by decide) hc

theorem exists_mapM {α β : Type} {f : α → Option β} {P : β → Prop} {l : List α}
    (h : ∀ x ∈ l, ∃ y, f x = some y ∧ P y) : ∃ outs, l.mapM f = some outs ∧ ∀ y ∈ outs, P y := by
  induction l with
  | nil => exact ⟨[], rfl, nofun⟩
  | cons x rest ih =>
    obtain ⟨y, hy, hPy⟩ := h x List.mem_cons_self
    obtain ⟨ys, hys, hPys⟩ := ih fun z hz => h z (List.mem_cons_of_mem x hz)
    refine ⟨y :: ys, ?_, List.forall_mem_cons.mpr ⟨hPy, hPys⟩⟩
    rw [List.mapM_cons, hy, hys]
    rfl

theorem mem_of_mapM {α β : Type} {f : α → Option β} {l : List α} {outs : List β}
    (h : l.mapM f = some outs) {x : α} (hx : x ∈ l) : ∃ y ∈ outs, f x = some y := by
  induction l generalizing outs with
  | nil => cases hx
  | cons a rest ih =>
    rw [List.mapM_cons] at h
    obtain ⟨y, hy, h⟩ := Option.bind_eq_some_iff.mp h
    obtain ⟨ys, hys, h⟩ := Option.bind_eq_some_iff.mp h
    obtain rfl := Option.some.inj h
    rcases List.mem_cons.mp hx with rfl | hx
    · exact ⟨y, List.mem_cons_self, hy⟩
    · obtain ⟨z, hz, hxz⟩ := ih hys hx
      exact ⟨z, List.mem_cons_of_mem y hz, hxz⟩

theorem findEventType_eq_none {l : List JsValue}
    (h : ∀ v ∈ l, ∀ topic, v = .scalar (.string topic) → nameOf topic = none) :
    findEventType l = none := by
  induction l with
  | nil => rfl
  | cons v rest ih =>
    have hrest := ih fun w hw => h w (List.mem_cons_of_mem v hw)
    cases v with
    | array items => exact hrest
    | scalar v =>
      cases v with
      | string topic =>
        rw [findEventType, h _ List.mem_cons_self topic rfl, hrest]
        rfl
      | undefined | boolean | number | bigint | bytes => exact hrest

namespace Published

variable {e : Published} {type : String}

def natives (e : Published) : List JsValue := e.topics.map scValToNative

def payload (e : Published) : Payload :=
  payloadFrom e.natives (decodeMap e.data)

theorem not_numeric {f : FieldDecl} (hf : f ∈ e.struct.fields) {n : Nat}
    (h : f.name = toString n) : False := by
  have hdigits := names_not_numeric e.struct e.mem f hf
  rw [h, all_isDigit_toString] at hdigits
  cases hdigits

/-- A topic field is not there under its name. -/
theorem get_of_topic {f : FieldDecl} (hf : f ∈ e.struct.fields) (htopic : f.isTopic = true) :
    e.payload.get f.name = .undefined := by
  apply Payload.get_of_forall_ne
  intro entry hentry heq
  rcases List.mem_append.mp hentry with hentry | hentry
  · obtain ⟨pair, hpair, rfl⟩ := List.mem_map.mp hentry
    obtain ⟨g, hg, rfl⟩ := List.mem_map.mp hpair
    obtain ⟨hg, hdata⟩ := List.mem_filter.mp hg
    obtain rfl := List.inj_on_of_nodup_map (names_nodup e.struct e.mem) hg hf heq
    rw [htopic] at hdata
    cases hdata
  · obtain ⟨v, _, hentry⟩ := List.mem_flatMap.mp hentry
    obtain ⟨n, hn⟩ := topicEntries_numeric entry hentry
    exact not_numeric hf (heq.symm.trans hn)

/-- A field that is read is in the result. -/
theorem mem_of_parse {fields : List (String × Out)}
    (h : parseContractEvent e.topics e.data = some ⟨type, fields⟩) {name : String} {r : Reader}
    (hread : (name, r) ∈ reads type) :
    ∃ out, r.read e.payload name = some out ∧ (name, out) ∈ fields := by
  unfold parseContractEvent parseDecoded at h
  split at h
  · obtain ⟨cases, hcases, h⟩ := Option.bind_eq_some_iff.mp h
    obtain ⟨outs, houts, h⟩ := Option.map_eq_some_iff.mp h
    obtain ⟨rfl, rfl⟩ := ParsedEvent.mk.injEq .. ▸ h
    have hread' : (name, r) ∈ cases := by
      rw [reads, hcases] at hread
      exact hread
    obtain ⟨out, hout, hfield⟩ := mem_of_mapM houts hread'
    obtain ⟨value, hvalue, rfl⟩ := Option.map_eq_some_iff.mp hfield
    exact ⟨value, hvalue, hout⟩
  · cases h

/-- A topic field that is read is right only if it is the text that undefined is read as. -/
theorem undefined_of_parsed (h : e.Parsed type) {f : FieldDecl} (hf : f ∈ e.struct.fields)
    (htopic : f.isTopic = true) {r : Reader} (hr : r ∈ [Reader.str, .num, .big])
    (hread : (f.name, r) ∈ reads type) :
    (Out.text "undefined").Equals (e.value f.name) := by
  obtain ⟨fields, hparse, hequal⟩ := h
  obtain ⟨out, hout, hmem⟩ := mem_of_parse hparse hread
  have hright := hequal _ hmem
  have hget := get_of_topic hf htopic
  simp only [List.mem_cons, List.not_mem_nil, or_false] at hr
  rcases hr with rfl | rfl | rfl
  · have hread' : some (Out.text (e.payload.get f.name).str) = some out := hout
    rw [hget] at hread'
    obtain rfl := Option.some.inj hread'
    exact hright
  · have hread' : some (Out.number (e.payload.get f.name).number) = some out := hout
    rw [hget] at hread'
    obtain rfl := Option.some.inj hread'
    cases hvalue : e.value f.name <;> rw [hvalue] at hright <;> cases hright
  · have hread' : (e.payload.get f.name).bigInt.map Out.bigint = some out := hout
    rw [hget, bigInt_undefined] at hread'
    cases hread'

theorem not_parsed_of_readsTopic (hreads : ReadsTopic e.struct type) : ¬e.Parsed type := by
  intro h
  obtain ⟨f, hf, htopic, htype, r, hr, hread⟩ := hreads
  have hequal := undefined_of_parsed h hf htopic hr hread
  have htyped := e.typed f hf
  -- No address and no bytes are written so, and it is no variant.
  cases hvalue : e.value f.name with
  | symbol s =>
    rw [hvalue] at htyped
    cases hf : f.type <;> rw [hf] at htyped htype
    case symbol => exact htype (by decide)
    all_goals exact htyped
  | string s =>
    rw [hvalue] at htyped
    cases hf : f.type <;> rw [hf] at htyped htype
    case string => exact htype (by decide)
    all_goals exact htyped
  | address a =>
    rw [hvalue] at hequal
    exact strkey_ne_undefined a hequal.symm
  | bytes b =>
    rw [hvalue] at hequal
    exact base64_ne_undefined b hequal.symm
  | unit variant =>
    rw [hvalue] at hequal htyped
    obtain rfl : "undefined" = variant := hequal
    cases hf : f.type <;> rw [hf] at htyped
    case role => exact absurd htyped (by decide : "undefined" ∉ roles)
    case govParameter => exact absurd htyped (by decide : "undefined" ∉ govParameters)
    case pauseModule => exact absurd htyped (by decide : "undefined" ∉ pauseModules)
    all_goals exact htyped
  | u32 | u64 | i128 | bool | addresses =>
    rw [hvalue] at hequal
    exact hequal

theorem not_parsed_of_onlySymbols (hname : nameOf e.struct.topicName = none)
    (honly : OnlySymbols e.struct type) : ¬e.Parsed type := by
  intro h
  have hnone : findEventType e.natives = none := by
    apply findEventType_eq_none
    intro v hv name hvname
    obtain ⟨w, hw, rfl⟩ := List.mem_map.mp hv
    rcases List.mem_cons.mp hw with rfl | hw
    · have heq : JsValue.scalar (.string e.struct.topicName) = .scalar (.string name) := hvname
      simp only [JsValue.scalar.injEq, JsScalar.string.injEq] at heq
      rw [← heq]
      exact hname
    · obtain ⟨f, hf, rfl⟩ := List.mem_map.mp hw
      obtain ⟨hf, htopic⟩ := List.mem_filter.mp hf
      have htyped := e.typed f hf
      rcases honly f hf htopic with htype | ⟨htype, hread⟩
      · rw [htype] at htyped
        cases hvalue : e.value f.name <;> rw [hvalue] at htyped hvname
        case u32 => cases hvname
        all_goals exact absurd htyped id
      · have hequal := undefined_of_parsed h hf htopic List.mem_cons_self hread
        rw [htype] at htyped
        cases hvalue : e.value f.name <;> rw [hvalue] at htyped hvname hequal
        case symbol s =>
          have heq : JsValue.scalar (.string s) = .scalar (.string name) := hvname
          simp only [JsValue.scalar.injEq, JsScalar.string.injEq] at heq
          obtain rfl : "undefined" = s := hequal
          rw [← heq]
          decide
        all_goals exact absurd htyped id
  obtain ⟨fields, hparse, _⟩ := h
  have hnatives : findEventType (e.topics.map scValToNative) = none := hnone
  rw [parseContractEvent, parseDecoded, hnatives] at hparse
  cases hparse

/-! ## What is read right -/

/-- A field of the data is there under its name. -/
theorem get_of_data {f : FieldDecl} (hf : f ∈ e.struct.fields) (hdata : f.isTopic = false) :
    e.payload.get f.name = scValToNative (e.value f.name) := by
  apply Payload.get_eq
  · refine ⟨(f.name, scValToNative (e.value f.name)), List.mem_append_left _ ?_, rfl⟩
    apply List.mem_map.mpr
    refine ⟨(f.name, e.value f.name), List.mem_map.mpr ⟨f, List.mem_filter.mpr ⟨hf, ?_⟩, rfl⟩, rfl⟩
    rw [hdata]
    rfl
  · intro entry hentry heq
    rcases List.mem_append.mp hentry with hentry | hentry
    · obtain ⟨pair, hpair, rfl⟩ := List.mem_map.mp hentry
      obtain ⟨g, hg, rfl⟩ := List.mem_map.mp hpair
      obtain rfl := List.inj_on_of_nodup_map (names_nodup e.struct e.mem)
        (List.mem_filter.mp hg).1 hf heq
      rfl
    · obtain ⟨v, _, hentry⟩ := List.mem_flatMap.mp hentry
      obtain ⟨n, hn⟩ := topicEntries_numeric entry hentry
      exact absurd (not_numeric hf (heq.symm.trans hn)) id

theorem parsed_of_reads (cases : List (String × Reader))
    (hfind : findEventType e.natives = some (.event type))
    (hcases : parseCases.lookup type = some cases)
    (h : ∀ c ∈ cases, ∃ out, c.2.read e.payload c.1 = some out ∧ out.Equals (e.value c.1)) :
    e.Parsed type := by
  obtain ⟨outs, houts, hequal⟩ := exists_mapM (f := readField e.payload)
    (P := fun field => field.2.Equals (e.value field.1)) (l := cases) fun c hc => by
      obtain ⟨out, hout, hequal⟩ := h c hc
      refine ⟨(c.1, out), ?_, hequal⟩
      rw [readField, hout]
      rfl
  refine ⟨outs, ?_, hequal⟩
  have hfind' : findEventType (e.topics.map scValToNative) = some (.event type) := hfind
  have houts' : cases.mapM (readField (payloadFrom (e.topics.map scValToNative)
    (decodeMap e.data))) = some outs := houts
  rw [parseContractEvent, parseDecoded, hfind']
  show (parseCases.lookup type).bind _ = _
  rw [hcases, Option.bind_some, houts']
  rfl

theorem upgraded_parsed (h : e.struct = upgraded) : e.Parsed "contract_upgraded" := by
  have hf : Wire.data "new_wasm_hash" .bytes32 ∈ e.struct.fields := h ▸ List.mem_cons_self
  have hget := get_of_data hf rfl
  have htyped := e.typed _ hf
  have hname : upgraded.topicName = "contract_upgraded" := by decide
  have hfind : findEventType e.natives = some (.event "contract_upgraded") := by
    rw [natives, topics, h, hname]
    show findEventType [.scalar (.string "contract_upgraded")] = _
    decide
  refine parsed_of_reads [("new_wasm_hash", .asBytes)] hfind (by decide) ?_
  intro c hc
  obtain rfl := List.mem_singleton.mp hc
  refine ⟨_, rfl, ?_⟩
  show (Out.raw (e.payload.get "new_wasm_hash")).Equals (e.value "new_wasm_hash")
  rw [show e.payload.get "new_wasm_hash" = _ from hget]
  show (Out.raw (scValToNative (e.value "new_wasm_hash"))).Equals (e.value "new_wasm_hash")
  cases hvalue : e.value "new_wasm_hash" with
  | bytes b => rfl
  | _ =>
    have htyped' : FieldType.bytes32.Has (e.value "new_wasm_hash") := htyped
    rw [hvalue] at htyped'
    exact absurd htyped' id

/-- An amount in the data is read right. -/
theorem big_of_data {f : FieldDecl} (hf : f ∈ e.struct.fields) (hdata : f.isTopic = false)
    (htype : f.type = .i128) : ∃ out, Reader.big.read e.payload f.name = some out ∧
      out.Equals (e.value f.name) := by
  have htyped := e.typed f hf
  rw [htype] at htyped
  rw [Reader.read, get_of_data hf hdata]
  cases hvalue : e.value f.name with
  | i128 z => exact ⟨.bigint z, rfl, rfl⟩
  | _ =>
    rw [hvalue] at htyped
    exact absurd htyped id

theorem slippageExceeded_reads :
    ("pool_id", Reader.str) ∈ reads "withdrawal_slippage_exceeded" := by
  decide

theorem slippageExceeded_parsed_iff (h : e.struct = slippageExceeded) :
    e.Parsed "withdrawal_slippage_exceeded" ↔ e.value "pool_id" = .symbol "undefined" := by
  have hpool : Wire.topic "pool_id" .symbol ∈ e.struct.fields := by
    rw [h]
    decide
  constructor
  · intro hparsed
    have hequal := undefined_of_parsed hparsed hpool rfl (List.mem_cons_self)
      slippageExceeded_reads
    have htyped : FieldType.symbol.Has (e.value "pool_id") := e.typed _ hpool
    have hequal' : (Out.text "undefined").Equals (e.value "pool_id") := hequal
    cases hvalue : e.value "pool_id" with
    | symbol s =>
      rw [hvalue] at hequal'
      exact congrArg ScVal.symbol (Eq.symm hequal')
    | _ =>
      rw [hvalue] at htyped
      exact absurd htyped id
  · intro hvalue
    have hname : slippageExceeded.topicName = "withdrawal_slippage_exceeded" := rfl
    have hfind : findEventType e.natives = some (.event "withdrawal_slippage_exceeded") := by
      rw [natives, topics, h, hname, List.map_cons]
      show (nameOf "withdrawal_slippage_exceeded").or _ = _
      rw [show nameOf "withdrawal_slippage_exceeded" =
        some (.event "withdrawal_slippage_exceeded") by decide]
      rfl
    refine parsed_of_reads [("pool_id", .str), ("requested_amount", .big),
      ("received_amount", .big), ("min_out_amount", .big)] hfind (by decide) ?_
    have hamount : ∀ name ∈ ["requested_amount", "received_amount", "min_out_amount"],
        Wire.data name .i128 ∈ e.struct.fields := by
      rw [h]
      decide
    intro c hc
    simp only [List.mem_cons, List.not_mem_nil, or_false] at hc
    rcases hc with rfl | rfl | rfl | rfl
    · refine ⟨.text "undefined", ?_, ?_⟩
      · show some (Out.text (e.payload.get "pool_id").str) = _
        rw [show e.payload.get "pool_id" = .undefined from get_of_topic hpool rfl]
        rfl
      · show (Out.text "undefined").Equals (e.value "pool_id")
        rw [hvalue]
        rfl
    · exact big_of_data (hamount "requested_amount" (by decide)) rfl rfl
    · exact big_of_data (hamount "received_amount" (by decide)) rfl rfl
    · exact big_of_data (hamount "min_out_amount" (by decide)) rfl rfl

theorem parsed_iff (h : sdkType e.struct = some type) :
    e.Parsed type ↔ e.struct.name = "ContractUpgraded" ∨
      (e.struct.name = "WithdrawalSlippageExceededEvent" ∧
        e.value "pool_id" = .symbol "undefined") := by
  by_cases hup : e.struct = upgraded
  · have htype : type = "contract_upgraded" := by
      rw [hup] at h
      exact Option.some.inj (h.symm.trans (by decide))
    rw [htype]
    exact iff_of_true (upgraded_parsed hup) (Or.inl (congrArg EventStruct.name hup))
  have hname : e.struct.name ≠ "ContractUpgraded" := fun hname => hup (eq_upgraded _ e.mem hname)
  rw [or_iff_right hname]
  by_cases hslip : e.struct = slippageExceeded
  · have htype : type = "withdrawal_slippage_exceeded" := by
      rw [hslip] at h
      exact Option.some.inj (h.symm.trans (by decide))
    rw [htype, slippageExceeded_parsed_iff hslip]
    exact (and_iff_right (congrArg EventStruct.name hslip)).symm
  apply iff_of_false
  · rcases topic_read _ e.mem type h hup hslip with hreads | honly
    · exact not_parsed_of_readsTopic hreads
    · have hdel : e.struct ≠ deleted := by
        intro hdel
        rw [hdel] at h honly
        have htype : type = "post_deleted" :=
          Option.some.inj (h.symm.trans (by decide))
        rw [htype] at honly
        revert honly
        decide
      exact not_parsed_of_onlySymbols
        (nameOf_of_endsInEvent (topicName_endsInEvent e.mem hup hslip hdel)) honly
  · rintro ⟨hname, _⟩
    exact hslip (eq_slippageExceeded _ e.mem hname)

end Published

/-! ## The indexer -/

theorem mem_dropWhile_of_not {p : Char → Bool} {l : List Char} {c : Char} (h : c ∈ l)
    (hp : p c = false) : c ∈ l.dropWhile p := by
  rw [← List.takeWhile_append_dropWhile (p := p) (l := l)] at h
  rcases List.mem_append.mp h with h | h
  · have hc := List.all_eq_true.mp List.all_takeWhile c h
    rw [hp] at hc
    cases hc
  · exact h

/-- A text that starts with a digit and goes on with a hyphen later is no integer. -/
theorem integerOfText_of_hyphen {text : String} {c : Char} {rest : List Char}
    (h : text.toList = c :: rest) (hdigit : c.isDigit = true) (hblank : isBlank c = false)
    (hmem : '-' ∈ rest) : integerOfText text = none := by
  have hdrop : text.toList.dropWhile isBlank = c :: rest := by
    rw [h, List.dropWhile_cons, hblank]
    rfl
  have hstarts : ((c :: rest).reverse.dropWhile isBlank).reverse <+: c :: rest := by
    apply List.reverse_suffix.mp
    rw [List.reverse_reverse]
    exact List.dropWhile_suffix isBlank
  have hhyphen : '-' ∈ ((c :: rest).reverse.dropWhile isBlank).reverse :=
    List.mem_reverse.mpr <| mem_dropWhile_of_not
      (List.mem_reverse.mpr (List.mem_cons_of_mem c hmem)) (by decide)
  rw [integerOfText, hdrop]
  generalize ((c :: rest).reverse.dropWhile isBlank).reverse = trimmed at hstarts hhyphen
  cases trimmed with
  | nil => cases hhyphen
  | cons first digits =>
    obtain ⟨rfl, _⟩ := List.cons_prefix_cons.mp hstarts
    have hnone : digitsValue (first :: digits) = none := by
      apply if_neg
      rintro ⟨_, hall⟩
      have hdigit' := List.all_eq_true.mp hall '-' hhyphen
      revert hdigit'
      decide
    split
    case h_1 heq => cases heq
    case h_2 heq =>
      obtain ⟨rfl, _⟩ := List.cons.inj heq
      cases hdigit
    case h_3 heq =>
      obtain ⟨rfl, _⟩ := List.cons.inj heq
      cases hdigit
    case h_4 => rw [hnone]; rfl

theorem digitChars_spec (k n : Nat) : ∀ c ∈ digitChars k n,
    c.isDigit = true ∧ isBlank c = false := by
  intro c hc
  obtain ⟨d, hd, rfl⟩ := List.mem_map.mp hc
  have hlt := Indexer.baseDigits_lt (by decide : 0 < 10) k n d hd
  have hall : ∀ d < 10, (Char.ofNat (48 + d)).isDigit = true ∧
      isBlank (Char.ofNat (48 + d)) = false := by decide
  exact hall d hlt

theorem EventInfo.id_no_integer (info : EventInfo) : integerOfText info.id = none := by
  have hlength : (digitChars 19 info.toid).length = 19 := by
    rw [digitChars, List.length_map, Indexer.length_baseDigits]
  have hid : info.id.toList = digitChars 19 info.toid ++ '-' :: digitChars 10 info.index :=
    String.toList_ofList
  cases hdigits : digitChars 19 info.toid with
  | nil =>
    rw [hdigits] at hlength
    cases hlength
  | cons c rest =>
    have hc := digitChars_spec 19 info.toid c (hdigits ▸ List.mem_cons_self)
    rw [hdigits] at hid
    exact integerOfText_of_hyphen hid hc.1 hc.2
      (List.mem_append_right rest List.mem_cons_self)

/-- With no data a field is looked for in what was delivered with the event. -/
theorem indexerPayload_get_empty {name : String} (hdigits : name.toList.all Char.isDigit = false)
    (topics : List JsValue) (value : String) (info : EventInfo) :
    (indexerPayload topics [] value info).get name =
      (indexerPayload [] [] value info).get name := by
  have hnone : ((topics.flatMap topicEntries).reverse.find? fun entry => entry.1 == name) =
      none := by
    apply List.find?_eq_none.mpr
    intro entry hentry
    obtain ⟨v, _, hentry⟩ := List.mem_flatMap.mp (List.mem_reverse.mp hentry)
    obtain ⟨n, hn⟩ := topicEntries_numeric entry hentry
    have hne : entry.1 ≠ name := by
      intro heq
      rw [← heq, hn, all_isDigit_toString] at hdigits
      cases hdigits
    simpa using hne
  rw [Payload.get, Payload.get, indexerPayload, indexerPayload, List.reverse_append,
    List.find?_append, hnone, Option.none_or, List.flatMap_nil, List.append_nil]

/-- A deleted post is looked for under the id of the event, which is no number. -/
theorem postId_malformed (topics : List JsValue) (value : String) (info : EventInfo) :
    (big "post_id" ["post_id", "id"]).read (indexerPayload topics [] value info) = none := by
  have hpost : (indexerPayload topics [] value info).get "post_id" = .undefined := by
    rw [indexerPayload_get_empty (by decide)]
    simp [Payload.get, indexerPayload]
  have hid : (indexerPayload topics [] value info).get "id" = .scalar (.string info.id) := by
    rw [indexerPayload_get_empty (by decide)]
    simp [Payload.get, indexerPayload]
  have hvalue : (indexerPayload topics [] value info).getFirst ["post_id", "id"] =
      .scalar (.string info.id) := by
    rw [Payload.getFirst, if_pos hpost, Payload.getFirst, hid]
    exact if_neg fun h => by cases h
  have hnumber : (JsValue.scalar (.string info.id)).number = none := by
    rw [JsValue.number]
    · rw [show (JsValue.scalar (.string info.id)).text = info.id from rfl, EventInfo.id_no_integer]
      rfl
    all_goals simp
  unfold Argument.read
  simp only [big, hvalue, hnumber, Option.map_none]

namespace Published

/-- No handler is called for a published event. -/
theorem not_handled (e : Published) (db : Bool) (value : String) (info : EventInfo)
    (call : HandlerCall) : processEvent db e.topics e.data value info ≠ .ok (some call) := by
  have htopic : topicText (e.topics.map scValToNative) = lowerCase e.struct.topicName := rfl
  rw [processEvent, processDecoded, htopic]
  by_cases hdel : e.struct = deleted
  · have hlookup : handlerCases.lookup (lowerCase e.struct.topicName) =
        some ⟨"markPostDeleted", true, [big "post_id" ["post_id", "id"]]⟩ := by
      rw [hdel]
      decide
    have hdata : decodeMap e.data = [] := by
      rw [data, hdel]
      rfl
    rw [hlookup, hdata]
    cases db with
    | false => nofun
    | true =>
      have hargs : [big "post_id" ["post_id", "id"]].mapM
          (Argument.read (indexerPayload (e.topics.map scValToNative) [] value info)) = none := by
        rw [List.mapM_cons, postId_malformed]
        rfl
      simp only [hargs]
      nofun
  · rw [handler_of_topicName e.mem hdel]
    nofun

/-! ## What decodes -/

/-- What is aimed at is returned by the SDK and handed to its handler by the indexer. -/
def Decoded (e : Published) (db : Bool) (value : String) (info : EventInfo) : Prop :=
  (∀ type, sdkType e.struct = some type → e.Parsed type) ∧
    ∀ topic, indexerTopic e.struct = some topic → e.Dispatched topic db value info

theorem indexerTopic_upgraded : indexerTopic upgraded = none := by decide

theorem indexerTopic_slippageExceeded : indexerTopic slippageExceeded = none := by
  decide

theorem indexerTopic_of_name {e : Published} (h : e.struct.name = "ContractUpgraded" ∨
    e.struct.name = "WithdrawalSlippageExceededEvent") : indexerTopic e.struct = none := by
  rcases h with h | h
  · rw [eq_upgraded _ e.mem h, indexerTopic_upgraded]
  · rw [eq_slippageExceeded _ e.mem h, indexerTopic_slippageExceeded]

/-- An event decodes as published exactly if nobody looks for its struct, if it tells of an
upgrade, or if it tells of a withdrawal from the pool that is called `undefined`; the indexer
calls no handler for any. -/
theorem decoded_iff (e : Published) (db : Bool) (value : String) (info : EventInfo) :
    (e.Decoded db value info ↔
      (sdkType e.struct = none ∧ indexerTopic e.struct = none) ∨
        e.struct.name = "ContractUpgraded" ∨
        (e.struct.name = "WithdrawalSlippageExceededEvent" ∧
          e.value "pool_id" = .symbol "undefined")) ∧
      ∀ call, processEvent db e.topics e.data value info ≠ .ok (some call) := by
  refine ⟨⟨?_, ?_⟩, not_handled e db value info⟩
  · rintro ⟨hparsed, hdispatched⟩
    cases htype : sdkType e.struct with
    | some type => exact Or.inr ((parsed_iff htype).mp (hparsed type htype))
    | none =>
      refine Or.inl ⟨rfl, ?_⟩
      cases htopic : indexerTopic e.struct with
      | none => rfl
      | some topic =>
        obtain ⟨c, arguments, _, hcall, _⟩ := hdispatched topic htopic
        exact absurd hcall (not_handled e db value info _)
  · rintro (⟨hsdk, hindexer⟩ | hname)
    · constructor
      · intro type htype
        rw [hsdk] at htype
        cases htype
      · intro topic htopic
        rw [hindexer] at htopic
        cases htopic
    · refine ⟨fun type htype => (parsed_iff htype).mpr hname, ?_⟩
      intro topic htopic
      have hnone := indexerTopic_of_name (hname.imp_right And.left)
      rw [hnone] at htopic
      cases htopic

end Published

/-- A follow, with what two accounts have as their addresses. -/
def followed : Published where
  struct := ⟨"FollowEvent", none, [version, topic "follower" .address, topic "followee" .address]⟩
  mem := by decide
  value := fun name => if name = "version" then .u32 1 else
    if name = "follower" then .address (.account 1) else .address (.account 2)
  typed := by
    intro f hf
    simp only [List.mem_cons, List.not_mem_nil, or_false] at hf
    rcases hf with rfl | rfl | rfl
    · show 1 < 2 ^ 32
      decide
    · trivial
    · trivial

def followedInfo : EventInfo := ⟨4294967296, 0, "tx", "2024-01-01T00:00:00Z", "0"⟩

/-- A follow is no event for the SDK, and the indexer passes over it. -/
theorem follow_passed_over :
    parseContractEvent followed.topics followed.data = none ∧
      processEvent true followed.topics followed.data "" followedInfo = .ok none ∧
      sdkType followed.struct = some "follow" ∧
      indexerTopic followed.struct = some "follow" ∧
      ¬followed.Decoded true "" followedInfo := by
  have hparse : parseContractEvent followed.topics followed.data = none := by decide +kernel
  have hsdk : sdkType followed.struct = some "follow" := by decide +kernel
  refine ⟨hparse, by decide +kernel, hsdk, by decide +kernel, ?_⟩
  rintro ⟨hparsed, _⟩
  obtain ⟨fields, hfields, _⟩ := hparsed "follow" hsdk
  rw [hparse] at hfields
  cases hfields

end Wire
end Linkora
