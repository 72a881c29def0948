import Linkora.Indexer.Multipart

/-!
# What the upload parser reads back

Whatever the body, the parser ends, and what it returns stands in one piece of the body.  A
file comes back as it was sent just if the delimiter stands nowhere in it and its names are
ones that the regular expressions tell apart.
-/

namespace Linkora
namespace Indexer

/-! ## Every body -/

/-- The part stands in the bytes: its content behind the headers that its texts are from. -/
structure Contained (U : Utf8) (part : ParsedFilePart) (headerBuf : Octets) (bytes : Octets) :
    Prop where
  stands : headerBuf ++ (crlf ++ crlf ++ part.content) <:+: bytes
  fieldName : part.fieldName.toList <:+: (U.toText headerBuf).toList
  filename : ∃ f, part.filename = some f ∧ f.toList <:+: (U.toText headerBuf).toList
  contentType : ∀ t, part.contentType = some t → t.toList <:+: (U.toText headerBuf).toList

theorem dispositionIn_within (headers : List Char) : dispositionIn headers <:+: headers := by
  rw [dispositionIn]
  cases h : Match.exec (Match.headerAt (fun _ => true) "content-disposition:".toList) none
      headers with
  | none => exact List.nil_infix
  | some v => exact (Match.exec_headerAt_spec h).1

theorem not_isBreak_of_mem_dispositionIn {headers : List Char} {c : Char}
    (hc : c ∈ dispositionIn headers) : Match.isBreak c = false := by
  rw [dispositionIn] at hc
  cases h : Match.exec (Match.headerAt (fun _ => true) "content-disposition:".toList) none
      headers with
  | none =>
    rw [h] at hc
    cases hc
  | some v =>
    rw [h] at hc
    exact (Match.exec_headerAt_spec h).2 c hc

/-- What the regular expressions can capture. -/
structure Captured (headers : List Char) (part : ParsedFilePart) : Prop where
  fieldName_ne : part.fieldName ≠ ""
  fieldName : part.fieldName.toList <:+: headers
  fieldName_plain : ∀ c ∈ part.fieldName.toList, c ≠ '"' ∧ Match.isBreak c = false
  filename : ∃ f, part.filename = some f ∧ f.toList <:+: headers ∧
    ∀ c ∈ f.toList, c ≠ '"' ∧ Match.isBreak c = false
  contentType : ∀ t, part.contentType = some t → t.toList <:+: headers

theorem captured_param {headers key v : List Char}
    (h : Match.exec (Match.paramAt key) none (dispositionIn headers) = some v) :
    v <:+: headers ∧ ∀ c ∈ v, c ≠ '"' ∧ Match.isBreak c = false := by
  obtain ⟨hin, hquote⟩ := Match.exec_paramAt_spec h
  refine ⟨hin.trans (dispositionIn_within headers), fun c hc => ⟨?_, ?_⟩⟩
  · rintro rfl
    exact hquote hc
  · exact not_isBreak_of_mem_dispositionIn (hin.subset hc)

theorem readPart_spec {headers : List Char} {content : Octets} {part : ParsedFilePart}
    (h : readPart headers content = some part) :
    part.content = content ∧ Captured headers part := by
  simp only [readPart] at h
  cases hname : nameIn (dispositionIn headers) with
  | none =>
    rw [hname] at h
    cases h
  | some name =>
    rw [hname] at h
    simp only at h
    split at h
    · cases h
    rename_i hne
    cases hfilename : filenameIn (dispositionIn headers) with
    | none =>
      rw [hfilename] at h
      cases h
    | some filename =>
      rw [hfilename] at h
      cases h
      obtain ⟨hname_in, hname_plain⟩ := captured_param hname
      obtain ⟨hfile_in, hfile_plain⟩ := captured_param hfilename
      refine ⟨rfl, ?_, ?_, ?_, ⟨_, rfl, ?_, ?_⟩, ?_⟩
      · intro heq
        exact hne (String.ofList_eq_empty_iff.mp heq)
      · rwa [String.toList_ofList]
      · rwa [String.toList_ofList]
      · rwa [String.toList_ofList]
      · rwa [String.toList_ofList]
      · intro t ht
        obtain ⟨v, hv, rfl⟩ := Option.map_eq_some_iff.mp ht
        obtain ⟨w, hw, rfl⟩ := Option.map_eq_some_iff.mp hv
        rw [String.toList_ofList]
        exact (Scan.trimChars_within w).trans (Match.exec_headerAt_spec hw).1

variable {U : Utf8}

theorem readFrame_spec {frame : Octets} {part : ParsedFilePart}
    (h : readFrame U frame = some part) :
    ∃ headerBuf, headerBuf ++ (crlf ++ crlf ++ part.content) <+: frame ∧
      Captured (U.toText headerBuf).toList part := by
  rw [readFrame] at h
  split at h
  · cases h
  · rename_i headerBuf content hcut
    obtain ⟨rfl, hcaptured⟩ := readPart_spec h
    refine ⟨headerBuf, ?_, hcaptured⟩
    rw [← Cut.eq_append_of_cut hcut]
    exact List.take_prefix _ _

theorem delimiter_ne (boundary : String) : delimiter boundary ≠ [] := by
  rw [delimiter, Text.utf8_append]
  exact List.append_ne_nil_of_left_ne_nil (by decide) _

/-- A part comes from a piece that does not have the delimiter. -/
theorem parse_ok {turns : Nat} {body : Octets} {boundary : String} {part : ParsedFilePart}
    (h : parseMultipartFile U turns body boundary = some (.ok part)) :
    ∃ piece headerBuf, piece <:+: body ∧ ¬delimiter boundary <:+: piece ∧
      headerBuf ++ (crlf ++ crlf ++ part.content) <+: piece ∧
        Captured (U.toText headerBuf).toList part := by
  obtain ⟨pieces, hpieces, hfound⟩ := Option.map_eq_some_iff.mp h
  split at hfound
  · rename_i part' hpart
    cases hfound
    obtain ⟨piece, hmem, hread⟩ := List.exists_of_findSome?_eq_some hpart
    obtain ⟨hin, hnot⟩ := Cut.mem_split (delimiter_ne boundary) hpieces piece
      (List.mem_of_mem_filter hmem)
    obtain ⟨headerBuf, hstands, hcaptured⟩ := readFrame_spec hread
    exact ⟨piece, headerBuf, hin, hnot, hstands, hcaptured⟩
  · cases hfound

theorem parse_ends (U : Utf8) {turns : Nat} {body : Octets} (boundary : String)
    (h : body.length < turns) :
    (∃ part headerBuf, parseMultipartFile U turns body boundary = some (.ok part) ∧
        Contained U part headerBuf body) ∨
      parseMultipartFile U turns body boundary =
        some (.error "No file field found in the multipart request") := by
  obtain ⟨pieces, hpieces⟩ := Cut.split_returns (delimiter_ne boundary) h
  cases hfound : (pieces.filter (· ≠ [])).findSome? (readFrame U) with
  | none =>
    refine .inr ?_
    rw [parseMultipartFile, hpieces, Option.map_some, hfound]
  | some part =>
    have hok : parseMultipartFile U turns body boundary = some (.ok part) := by
      rw [parseMultipartFile, hpieces, Option.map_some, hfound]
    obtain ⟨piece, headerBuf, hin, -, hstands, hcaptured⟩ := parse_ok hok
    obtain ⟨f, hf, hf_in, -⟩ := hcaptured.filename
    exact .inl ⟨part, headerBuf, hok, hstands.isInfix.trans hin, hcaptured.fieldName,
      ⟨f, hf, hf_in⟩, hcaptured.contentType⟩

/-! ## The headers of a part -/

/-- The characters of a name that can stand between quotes. -/
def Plain (l : List Char) : Prop := ∀ c ∈ l, c ≠ '"' ∧ Match.isBreak c = false

theorem escape_of_plain {s : String} (h : Plain s.toList) : escape s = s.toList := by
  rw [escape]
  generalize s.toList = l at h ⊢
  induction l with
  | nil => rfl
  | cons c rest ih =>
    obtain ⟨hquote, hbreak⟩ := h c List.mem_cons_self
    simp only [Match.isBreak, Bool.or_eq_false_iff, beq_eq_false_iff_ne] at hbreak
    rw [List.flatMap_cons, if_neg hquote, if_neg hbreak.2, if_neg hbreak.1,
      ih fun d hd => h d (List.mem_cons_of_mem c hd)]
    rfl

/-- The escaped characters are none that are escaped. -/
theorem plain_escape (s : String) : Plain (escape s) := by
  intro c hc
  obtain ⟨d, -, hd⟩ := List.mem_flatMap.mp hc
  split at hd
  · simp only [List.mem_cons, List.not_mem_nil, or_false] at hd
    rcases hd with rfl | rfl | rfl <;> decide
  split at hd
  · simp only [List.mem_cons, List.not_mem_nil, or_false] at hd
    rcases hd with rfl | rfl | rfl <;> decide
  split at hd
  · simp only [List.mem_cons, List.not_mem_nil, or_false] at hd
    rcases hd with rfl | rfl | rfl <;> decide
  · rename_i hquote hreturn hnewline
    rw [List.mem_singleton.mp hd]
    exact ⟨hquote, by simp [Match.isBreak, hreturn, hnewline]⟩

theorem quote_not_mem_of_plain {l : List Char} (h : Plain l) : '"' ∉ l :=
  fun hmem => (h _ hmem).1 rfl

/-- Both expressions on a disposition with the name first. -/
theorem params_nameFirst {n f : List Char} (hn : '"' ∉ n) (hf : '"' ∉ f) :
    nameIn ("form-data; name=".toList ++ '"' :: (n ++ '"' ::
      ("; filename=".toList ++ '"' :: (f ++ ['"'])))) = some n ∧
    filenameIn ("form-data; name=".toList ++ '"' :: (n ++ '"' ::
      ("; filename=".toList ++ '"' :: (f ++ ['"'])))) =
        some (if Match.endsIn "filename=".toList n = true then "; filename=".toList else f) := by
  constructor
  · rw [nameIn, Match.exec_paramAt_quote (by decide) (by decide) (by decide), if_pos (by decide),
      Match.untilQuote_value hn]
    rfl
  · rw [filenameIn, Match.exec_paramAt_quote (by decide) (by decide) (by decide),
      if_neg (by decide), Match.exec_paramAt_quote (by decide) (by decide) hn]
    split
    · rw [Match.untilQuote_value (by decide)]
      rfl
    · rw [Match.exec_paramAt_quote (by decide) (by decide) (by decide), if_pos (by decide),
        Match.untilQuote_value hf]
      rfl

/-- Both expressions on a disposition with the file name first: `name=` stands in
`filename=`. -/
theorem params_filenameFirst {n f : List Char} (hf : '"' ∉ f) :
    nameIn ("form-data; filename=".toList ++ '"' :: (f ++ '"' ::
      ("; name=".toList ++ '"' :: (n ++ ['"'])))) = some f ∧
    filenameIn ("form-data; filename=".toList ++ '"' :: (f ++ '"' ::
      ("; name=".toList ++ '"' :: (n ++ ['"'])))) = some f := by
  constructor
  · rw [nameIn, Match.exec_paramAt_quote (by decide) (by decide) (by decide), if_pos (by decide),
      Match.untilQuote_value hf]
    rfl
  · rw [filenameIn, Match.exec_paramAt_quote (by decide) (by decide) (by decide),
      if_pos (by decide), Match.untilQuote_value hf]
    rfl

/-- A text field has no file name. -/
theorem filenameIn_field {n : List Char} (hn : '"' ∉ n) :
    filenameIn ("form-data; name=".toList ++ '"' :: (n ++ ['"'])) = none := by
  rw [filenameIn, Match.exec_paramAt_quote (by decide) (by decide) (by decide),
    if_neg (by decide), Match.exec_paramAt_quote (by decide) (by decide) hn]
  split
  · rfl
  · rfl

/-! ### The lines -/

/-- What a line may be that a header has as its value. -/
structure Value (l : List Char) : Prop where
  ne : l ≠ []
  head : ∀ c, l.head? = some c → Scan.isSpace c = false
  line : ∀ c ∈ l, Match.isBreak c = false

theorem restOfLine_value {l : List Char} (h : Value l) {rest : List Char}
    (hrest : rest = [] ∨ ∃ c more, rest = c :: more ∧ Match.isBreak c = true) :
    Match.restOfLine (' ' :: (l ++ rest)) = some l :=
  Match.restOfLine_line h.ne h.head h.line hrest

/-- The headers of a piece begin with the line break behind the delimiter. -/
def headersOf (header : List Char) : List Char := '\r' :: '\n' :: header

/-- A line without the header is passed over. -/
theorem exec_line {g : Option Char → Bool} {k : Char} {key a : List Char} {before : Option Char}
    (hr : ∀ k' ∈ k :: key, '\r'.toLower ≠ k') (hn : ∀ k' ∈ k :: key, '\n'.toLower ≠ k')
    (ha : Match.marks g (k :: key) before a = false) (rest : List Char) :
    Match.exec (Match.headerAt g (k :: key)) before (a ++ headersOf rest) =
      Match.exec (Match.headerAt g (k :: key)) (some '\n') rest := by
  have hempty : Match.marks g (k :: key) (some '\r') [] = false := by
    rw [Match.marks, Match.exec]
    split
    · rfl
    · rfl
  have hnewline : Match.exec (Match.headerAt g (k :: key)) (some '\r') ([] ++ '\n' :: rest) =
      Match.exec (Match.headerAt g (k :: key)) (some '\n') rest :=
    Match.exec_headerAt_skip hn hempty
  exact (Match.exec_headerAt_skip hr ha).trans hnewline

theorem dispositionIn_first {v rest : List Char} (hv : Value v)
    (hrest : rest = [] ∨ ∃ c more, rest = c :: more ∧ Match.isBreak c = true) :
    dispositionIn (headersOf ("Content-Disposition:".toList ++ ' ' :: (v ++ rest))) = v := by
  have hline := restOfLine_value hv hrest
  have hfound : Match.exec (Match.headerAt (fun _ => true) "content-disposition:".toList) none
      ([] ++ headersOf ("Content-Disposition:".toList ++ ' ' :: (v ++ rest))) = some v :=
    (exec_line (Text.forall_chars (by decide)) (Text.forall_chars (by decide)) rfl _).trans
      (Match.exec_headerAt_here rfl (by decide) hline)
  rw [List.nil_append] at hfound
  rw [dispositionIn, hfound]
  rfl

theorem dispositionIn_second {v t : List Char} (hv : Value v)
    (ht : Match.marks (fun _ => true) "content-disposition:".toList (some ' ') t = false) :
    dispositionIn (headersOf ("Content-Type: ".toList ++ t ++
      headersOf ("Content-Disposition:".toList ++ ' ' :: (v ++ [])))) = v := by
  have hline := restOfLine_value hv (.inl rfl)
  have hpassed : Match.marks (fun _ => true) "content-disposition:".toList none
      ('\r' :: '\n' :: "Content-Type: ".toList ++ t) = false := by
    rw [Match.marks_append (by decide)]
    exact ht
  have hfound : Match.exec (Match.headerAt (fun _ => true) "content-disposition:".toList) none
      ('\r' :: '\n' :: "Content-Type: ".toList ++ t ++
        headersOf ("Content-Disposition:".toList ++ ' ' :: (v ++ []))) = some v :=
    (exec_line (Text.forall_chars (by decide)) (Text.forall_chars (by decide)) hpassed _).trans
      (Match.exec_headerAt_here rfl (by decide) hline)
  have hshape : headersOf ("Content-Type: ".toList ++ t ++
      headersOf ("Content-Disposition:".toList ++ ' ' :: (v ++ []))) =
      '\r' :: '\n' :: "Content-Type: ".toList ++ t ++
        headersOf ("Content-Disposition:".toList ++ ' ' :: (v ++ [])) := by
    rw [headersOf, List.cons_append, List.cons_append, List.cons_append, List.cons_append]
  rw [dispositionIn, hshape, hfound]
  rfl

theorem contentTypeIn_first {t rest : List Char} (ht : Value t) (htrim : Scan.trimChars t = t)
    (hrest : rest = [] ∨ ∃ c more, rest = c :: more ∧ Match.isBreak c = true) :
    contentTypeIn (headersOf ("Content-Type:".toList ++ ' ' :: (t ++ rest))) = some t := by
  have hline := restOfLine_value ht hrest
  have hfound : Match.exec (Match.headerAt Match.lineStart "content-type:".toList) none
      ([] ++ headersOf ("Content-Type:".toList ++ ' ' :: (t ++ rest))) = some t :=
    (exec_line (Text.forall_chars (by decide)) (Text.forall_chars (by decide)) rfl _).trans
      (Match.exec_headerAt_here rfl (by decide) hline)
  rw [List.nil_append] at hfound
  rw [contentTypeIn, hfound, Option.map_some, htrim]

theorem contentTypeIn_second {v t : List Char} (ht : Value t) (htrim : Scan.trimChars t = t)
    (hv : Match.marks Match.lineStart "content-type:".toList (some ' ') v = false) :
    contentTypeIn (headersOf ("Content-Disposition: ".toList ++ v ++
      headersOf ("Content-Type:".toList ++ ' ' :: (t ++ [])))) = some t := by
  have hline := restOfLine_value ht (.inl rfl)
  have hpassed : Match.marks Match.lineStart "content-type:".toList none
      ('\r' :: '\n' :: "Content-Disposition: ".toList ++ v) = false := by
    rw [Match.marks_append (by decide)]
    exact hv
  have hfound : Match.exec (Match.headerAt Match.lineStart "content-type:".toList) none
      ('\r' :: '\n' :: "Content-Disposition: ".toList ++ v ++
        headersOf ("Content-Type:".toList ++ ' ' :: (t ++ []))) = some t :=
    (exec_line (Text.forall_chars (by decide)) (Text.forall_chars (by decide)) hpassed _).trans
      (Match.exec_headerAt_here rfl (by decide) hline)
  have hshape : headersOf ("Content-Disposition: ".toList ++ v ++
      headersOf ("Content-Type:".toList ++ ' ' :: (t ++ []))) =
      '\r' :: '\n' :: "Content-Disposition: ".toList ++ v ++
        headersOf ("Content-Type:".toList ++ ' ' :: (t ++ [])) := by
    rw [headersOf, List.cons_append, List.cons_append, List.cons_append, List.cons_append]
  rw [contentTypeIn, hshape, hfound, Option.map_some, htrim]

end Indexer
end Linkora
