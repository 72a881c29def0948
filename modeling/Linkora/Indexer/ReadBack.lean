import Mathlib
import Linkora.Indexer.Uploads

/-!
# Files that come back as they were sent

The parser cuts a body at the raw delimiter.  A part without it is one piece, and what the
regular expressions read in the headers of the piece says whether the file comes back.
-/

namespace Linkora
namespace Indexer

/-! ## The header of a file -/

namespace FilePart

/-- What `name="…"` finds: the file name, if that comes first. -/
def readName (f : FilePart) : List Char :=
  if f.filenameFirst = true then escape f.filename else escape f.name

/-- What `filename="…"` finds, also where a name ends in `filename=`. -/
def readFilename (f : FilePart) : List Char :=
  if f.filenameFirst = true then escape f.filename
  else if Match.endsIn "filename=".toList (escape f.name) = true then "; filename=".toList
  else escape f.filename

end FilePart

theorem names_of_disposition (f : FilePart) :
    nameIn f.disposition = some f.readName ∧
      filenameIn f.disposition = some f.readFilename := by
  have hname := quote_not_mem_of_plain (plain_escape f.name)
  have hfilename := quote_not_mem_of_plain (plain_escape f.filename)
  rw [FilePart.disposition, FilePart.readName, FilePart.readFilename]
  split
  · exact params_filenameFirst hfilename
  · exact params_nameFirst hname hfilename

theorem not_isBreak_quoted {key v rest : List Char} (hkey : ∀ c ∈ key, Match.isBreak c = false)
    (hv : Plain v) (hrest : ∀ c ∈ rest, Match.isBreak c = false) :
    ∀ c ∈ key ++ '"' :: (v ++ '"' :: rest), Match.isBreak c = false := by
  intro c hc
  simp only [List.mem_append, List.mem_cons] at hc
  rcases hc with hc | rfl | hc | rfl | hc
  · exact hkey c hc
  · decide
  · exact (hv c hc).2
  · decide
  · exact hrest c hc

/-- What both kinds of parts have behind `Content-Disposition:`. -/
theorem quoted_value {k : Char} {key v rest : List Char} (hk : Scan.isSpace k = false)
    (hkey : ∀ c ∈ k :: key, Match.isBreak c = false) (hv : Plain v)
    (hrest : ∀ c ∈ rest, Match.isBreak c = false) :
    Value (k :: key ++ '"' :: (v ++ '"' :: rest)) := by
  refine ⟨List.append_ne_nil_of_left_ne_nil (List.cons_ne_nil k key) _, fun c hc => ?_,
    not_isBreak_quoted hkey hv hrest⟩
  cases hc
  exact hk

theorem disposition_value (f : FilePart) : Value f.disposition := by
  have hname := plain_escape f.name
  have hfilename := plain_escape f.filename
  have hnil : ∀ c ∈ ([] : List Char), Match.isBreak c = false := fun c hc => by cases hc
  rw [FilePart.disposition]
  split
  · exact quoted_value (by decide) (Text.forall_chars (by decide)) hfilename
      (not_isBreak_quoted (Text.forall_chars (by decide)) hname hnil)
  · exact quoted_value (by decide) (Text.forall_chars (by decide)) hname
      (not_isBreak_quoted (Text.forall_chars (by decide)) hfilename hnil)

namespace TextField

def disposition (t : TextField) : List Char :=
  "form-data; name=".toList ++ '"' :: (escape t.name ++ ['"'])

end TextField

theorem field_value (t : TextField) : Value t.disposition :=
  quoted_value (by decide) (Text.forall_chars (by decide)) (plain_escape t.name) fun c hc => by
    cases hc

/-- The literal of the one header does not stand in the line of the other. -/
structure Apart (f : FilePart) : Prop where
  typeFirst : f.typeFirst = true → Match.marks (fun _ => true) "content-disposition:".toList
    (some ' ') f.contentType.toList = false
  typeSecond : f.typeFirst = false → Match.marks Match.lineStart "content-type:".toList
    (some ' ') f.disposition = false

theorem dispositionLine_eq (v : List Char) :
    "Content-Disposition: ".toList ++ v = "Content-Disposition:".toList ++ ' ' :: (v ++ []) := by
  rw [List.append_nil]
  rfl

theorem typeLine_eq (t : List Char) :
    "Content-Type: ".toList ++ t = "Content-Type:".toList ++ ' ' :: (t ++ []) := by
  rw [List.append_nil]
  rfl

theorem headers_of_file {f : FilePart} (hvalue : Value f.contentType.toList)
    (htrim : Scan.trimChars f.contentType.toList = f.contentType.toList) (hapart : Apart f) :
    dispositionIn (headersOf f.header) = f.disposition ∧
      contentTypeIn (headersOf f.header) = some f.contentType.toList := by
  have hdisposition := disposition_value f
  have hline : ∀ rest, headersOf rest = [] ∨
      ∃ c more, headersOf rest = c :: more ∧ Match.isBreak c = true :=
    fun rest => .inr ⟨'\r', '\n' :: rest, rfl, by decide⟩
  cases hfirst : f.typeFirst with
  | true =>
    have hheader : f.header = "Content-Type: ".toList ++ f.contentType.toList ++
        headersOf ("Content-Disposition: ".toList ++ f.disposition) := by
      rw [FilePart.header, hfirst]
      rfl
    constructor
    · rw [hheader, dispositionLine_eq]
      exact dispositionIn_second hdisposition (hapart.typeFirst hfirst)
    · rw [hheader, List.append_assoc]
      exact contentTypeIn_first hvalue htrim (hline _)
  | false =>
    have hheader : f.header = "Content-Disposition: ".toList ++ f.disposition ++
        headersOf ("Content-Type: ".toList ++ f.contentType.toList) := by
      rw [FilePart.header, hfirst]
      rfl
    constructor
    · rw [hheader, List.append_assoc]
      exact dispositionIn_first hdisposition (hline _)
    · rw [hheader, typeLine_eq]
      exact contentTypeIn_second hvalue htrim (hapart.typeSecond hfirst)

theorem readPart_file {f : FilePart} (hvalue : Value f.contentType.toList)
    (htrim : Scan.trimChars f.contentType.toList = f.contentType.toList) (hapart : Apart f)
    (content : Octets) :
    readPart (headersOf f.header) content =
      if f.readName = [] then none
      else some ⟨String.ofList f.readName, some (String.ofList f.readFilename),
        some f.contentType, content⟩ := by
  obtain ⟨hdisposition, htype⟩ := headers_of_file hvalue htrim hapart
  obtain ⟨hname, hfilename⟩ := names_of_disposition f
  simp only [readPart, hdisposition, htype, hname, hfilename, Option.map_some,
    String.ofList_toList]

/-- A text field is no file. -/
theorem readPart_field (t : TextField) (content : Octets) :
    readPart (headersOf t.header) content = none := by
  have hdisposition : dispositionIn (headersOf t.header) = t.disposition := by
    have hfirst := dispositionIn_first (field_value t) (.inl rfl)
    rw [List.append_nil] at hfirst
    exact hfirst
  have hnone : filenameIn t.disposition = none :=
    filenameIn_field (quote_not_mem_of_plain (plain_escape t.name))
  simp only [readPart, hdisposition, hnone]
  cases nameIn t.disposition with
  | none => rfl
  | some name =>
    simp only
    split
    · rfl
    · rfl

/-! ## The piece of a part -/

theorem toText_utf8 (U : Utf8) (s : String) : U.toText (Text.utf8 s) = s := by
  rw [Utf8.toText, Text.fromUtf8_utf8]
  rfl

theorem headersOf_bytes (header : List Char) :
    crlf ++ Text.utf8 (String.ofList header) = Text.utf8 (String.ofList (headersOf header)) := by
  have hcrlf : crlf = Text.utf8 (String.ofList ['\r', '\n']) := by decide
  rw [hcrlf, ← Text.utf8_append, ← String.ofList_append]
  rfl

/-- The blank line does not begin at a line that has no return in it. -/
theorem cut_line {line : Octets} (hne : line ≠ []) (hline : 13 ∉ line) (rest : Octets) :
    Cut.cut (crlf ++ crlf) (crlf ++ line ++ rest) =
      (Cut.cut (crlf ++ crlf) rest).map fun x => (crlf ++ line ++ x.1, x.2) := by
  obtain ⟨b, more, rfl⟩ := List.exists_cons_of_ne_nil hne
  have hb : b ≠ 13 := fun h => hline (h ▸ List.mem_cons_self)
  have hstart : ∀ (a : UInt8) l, a ≠ 13 → ¬crlf ++ crlf <+: a :: l :=
    fun a l ha h => ha (List.cons_prefix_cons.mp h).1.symm
  refine Cut.cut_append fun s hs hsne => ?_
  rcases List.suffix_cons_iff.mp hs with rfl | hs
  · intro h
    have h10 := (List.cons_prefix_cons.mp h).2
    have h13 := (List.cons_prefix_cons.mp h10).2
    exact hb (List.cons_prefix_cons.mp h13).1.symm
  rcases List.suffix_cons_iff.mp hs with rfl | hs
  · exact hstart 10 _ (by decide)
  · obtain ⟨a, tail, rfl⟩ := List.exists_cons_of_ne_nil hsne
    exact hstart a _ fun h => hline (hs.subset (h ▸ List.mem_cons_self))

theorem return_not_mem_utf8 {line : List Char} (h : ∀ c ∈ line, Match.isBreak c = false) :
    13 ∉ Text.utf8 (String.ofList line) := by
  intro hmem
  have hin := Text.mem_of_mem_utf8 (c := '\r') (by decide) hmem
  rw [String.toList_ofList] at hin
  exact absurd (h '\r' hin) (by decide)

theorem utf8_ne {line : List Char} (h : line ≠ []) : Text.utf8 (String.ofList line) ≠ [] := by
  intro hempty
  have hnil : Text.utf8 (String.ofList line) = Text.utf8 (String.ofList []) := hempty
  exact h (by simpa using Text.utf8_injective hnil)

/-- The lines of a header. -/
structure Line (l : List Char) : Prop where
  ne : l ≠ []
  line : ∀ c ∈ l, Match.isBreak c = false

theorem line_of_value {name v : List Char} (hname : Line name) (hv : Value v) :
    Line (name ++ v) := by
  refine ⟨List.append_ne_nil_of_left_ne_nil hname.ne v, fun c hc => ?_⟩
  rcases List.mem_append.mp hc with hc | hc
  · exact hname.line c hc
  · exact hv.line c hc

theorem dispositionLine_line {v : List Char} (hv : Value v) :
    Line ("Content-Disposition: ".toList ++ v) :=
  line_of_value ⟨by decide, Text.forall_chars (by decide)⟩ hv

theorem typeLine_line {t : List Char} (ht : Value t) : Line ("Content-Type: ".toList ++ t) :=
  line_of_value ⟨by decide, Text.forall_chars (by decide)⟩ ht

theorem cut_header {l : List Char} (h : Line l) (content : Octets) :
    Cut.cut (crlf ++ crlf) (crlf ++ partBytes l content) =
      some (Text.utf8 (String.ofList (headersOf l)), content) := by
  have hline := cut_line (utf8_ne h.ne) (return_not_mem_utf8 h.line) (crlf ++ crlf ++ content)
  rw [partBytes, ← List.append_assoc, hline, Cut.cut_self, Option.map_some, List.append_nil,
    headersOf_bytes]

theorem cut_headers {l m : List Char} (hl : Line l) (hm : Line m) (content : Octets) :
    Cut.cut (crlf ++ crlf) (crlf ++ partBytes (l ++ headersOf m) content) =
      some (Text.utf8 (String.ofList (headersOf (l ++ headersOf m))), content) := by
  have hbytes : crlf ++ partBytes (l ++ headersOf m) content =
      crlf ++ Text.utf8 (String.ofList l) ++ (crlf ++ partBytes m content) := by
    rw [partBytes, partBytes, String.ofList_append, Text.utf8_append, ← headersOf_bytes]
    simp only [List.append_assoc]
  have hline := cut_line (utf8_ne hl.ne) (return_not_mem_utf8 hl.line)
    (crlf ++ partBytes m content)
  rw [hbytes, hline, cut_header hm, Option.map_some, headersOf_bytes, ← Text.utf8_append,
    ← String.ofList_append]
  rfl

/-- The last two bytes of a piece are the line break before the next delimiter. -/
theorem readFrame_piece {U : Utf8} {bytes content : Octets} {header : List Char}
    (h : Cut.cut (crlf ++ crlf) (crlf ++ bytes) =
      some (Text.utf8 (String.ofList (headersOf header)), content)) :
    readFrame U (crlf ++ bytes ++ crlf) = readPart (headersOf header) content := by
  have htake : (crlf ++ bytes ++ crlf).take ((crlf ++ bytes ++ crlf).length - 2) =
      crlf ++ bytes := by
    rw [List.length_append]
    exact List.take_left
  rw [readFrame, htake, h]
  simp only [toText_utf8, String.toList_ofList]

/-! ## The delimiter -/

/-- The characters of the delimiter. -/
def dashed (boundary : String) : List Char := '-' :: '-' :: boundary.toList

theorem isBoundaryChar_spec {c : Char} (h : isBoundaryChar c = true) :
    c.toNat < 128 ∧ c ≠ '"' ∧ c ≠ '\r' ∧ c ≠ '\n' := by
  rw [isBoundaryChar, Bool.or_eq_true] at h
  rcases h with h | h
  · refine ⟨?_, ?_, ?_, ?_⟩
    · simp only [Char.isAlphanum, Char.isAlpha, Char.isUpper, Char.isLower, Char.isDigit,
        Bool.or_eq_true, Bool.and_eq_true, decide_eq_true_eq, UInt32.le_iff_toNat_le] at h
      simp at h
      omega
    · rintro rfl
      exact absurd h (by decide)
    · rintro rfl
      exact absurd h (by decide)
    · rintro rfl
      exact absurd h (by decide)
  · have hall : ∀ c ∈ "'()+_,-./:=? ".toList,
        c.toNat < 128 ∧ c ≠ '"' ∧ c ≠ '\r' ∧ c ≠ '\n' := Text.forall_chars (by decide)
    exact hall c (List.contains_iff_mem.mp h)

section

variable {boundary : String} (hb : ∀ c ∈ boundary.toList, isBoundaryChar c = true)
include hb

theorem dashed_spec : ∀ c ∈ dashed boundary,
    c.toNat < 128 ∧ c ≠ '"' ∧ c ≠ '\r' ∧ c ≠ '\n' := by
  intro c hc
  rcases List.mem_cons.mp hc with rfl | hc
  · decide
  rcases List.mem_cons.mp hc with rfl | hc
  · decide
  · exact isBoundaryChar_spec (hb c hc)

theorem dashed_ascii : ∀ c ∈ dashed boundary, c.toNat < 128 := fun c hc => (dashed_spec hb c hc).1

theorem delimiter_eq : delimiter boundary = Text.asciiBytes (dashed boundary) := by
  have hchars : "--" ++ boundary = String.ofList (dashed boundary) := by
    rw [← String.toList_inj, String.toList_append]
    exact (String.toList_ofList (l := dashed boundary)).symm
  rw [← Text.utf8_ascii (dashed_ascii hb), delimiter, hchars]

theorem not_mem_delimiter {c : Char} (hc : c.toNat < 128) (hnot : c ∉ dashed boundary) :
    UInt8.ofNat c.toNat ∉ delimiter boundary := by
  intro hmem
  rw [delimiter_eq hb, ← Text.utf8_ascii (dashed_ascii hb)] at hmem
  have hin := Text.mem_of_mem_utf8 hc hmem
  rw [String.toList_ofList] at hin
  exact hnot hin

theorem return_not_mem_delimiter : 13 ∉ delimiter boundary :=
  not_mem_delimiter hb (c := '\r') (by decide) fun h => (dashed_spec hb _ h).2.2.1 rfl

theorem newline_not_mem_delimiter : 10 ∉ delimiter boundary :=
  not_mem_delimiter hb (c := '\n') (by decide) fun h => (dashed_spec hb _ h).2.2.2 rfl

/-- The delimiter stands in the bytes of a text just where its characters do. -/
theorem delimiter_infix_utf8 {l : List Char} :
    delimiter boundary <:+: Text.utf8 (String.ofList l) ↔ dashed boundary <:+: l := by
  rw [delimiter_eq hb]
  constructor
  · intro h
    have hin := Text.infix_of_utf8 (dashed_ascii hb) h
    rwa [String.toList_ofList] at hin
  · intro h
    exact Text.utf8_within (dashed_ascii hb) (by rwa [String.toList_ofList])

/-- What is read of a text does not have the delimiter if the bytes have not. -/
theorem not_infix_toText (U : Utf8) {bytes : Octets} (h : ¬delimiter boundary <:+: bytes) :
    ¬dashed boundary <:+: (U.toText bytes).toList := by
  intro hin
  rw [delimiter_eq hb] at h
  rw [Utf8.toText] at hin
  cases hread : Text.fromUtf8 bytes with
  | none =>
    rw [hread] at hin
    exact h (U.ascii bytes _ (dashed_ascii hb) hin)
  | some s =>
    rw [hread] at hin
    rw [← Text.utf8_of_fromUtf8 hread] at h
    exact h (Text.utf8_within (dashed_ascii hb) hin)

/-- A delimiter in a piece is one in its part. -/
theorem delimiter_infix_piece {bytes : Octets}
    (h : delimiter boundary <:+: crlf ++ bytes ++ [13]) : delimiter boundary <:+: bytes := by
  have hreturn := return_not_mem_delimiter hb
  have hne : ¬delimiter boundary <:+: [] := fun h => delimiter_ne boundary (List.infix_nil.mp h)
  have hfront : delimiter boundary <:+: [] ++ 13 :: ([] ++ 10 :: (bytes ++ 13 :: [])) := h
  rcases Cut.infix_of_infix_sep hreturn hfront with h | h
  · exact absurd h hne
  rcases Cut.infix_of_infix_sep (newline_not_mem_delimiter hb) h with h | h
  · exact absurd h hne
  rcases Cut.infix_of_infix_sep hreturn h with h | h
  · exact h
  · exact absurd h hne

end

/-! ## The pieces of a body -/

section

variable {U : Utf8} {d : Octets}

/-- The first file of the pieces. -/
def firstFile (U : Utf8) (pieces : List Octets) : Option ParsedFilePart :=
  (pieces.filter (· ≠ [])).findSome? (readFrame U)

theorem firstFile_cons {piece : Octets} (h : piece ≠ []) (pieces : List Octets) :
    firstFile U (piece :: pieces) = (readFrame U piece).or (firstFile U pieces) := by
  rw [firstFile, List.filter_cons_of_pos (by simpa using h), List.findSome?_cons]
  cases readFrame U piece with
  | none => rfl
  | some part => rfl

theorem piece_ne (bytes : Octets) : crlf ++ bytes ++ crlf ≠ [] := List.cons_ne_nil _ _

/-- A part without the delimiter is one piece. -/
theorem split_part {turns : Nat} (hne : d ≠ []) (hnewline : 10 ∉ d) {p : Part}
    (hp : ¬d <:+: crlf ++ p.bytes ++ [13]) {rest : List Part}
    (hturns : (Encoding.bodyOf d (p :: rest)).length < turns) :
    ∃ turns', (Encoding.bodyOf d rest).length < turns' ∧
      Cut.split d turns (Encoding.bodyOf d (p :: rest)) =
        (Cut.split d turns' (Encoding.bodyOf d rest)).map ((crlf ++ p.bytes ++ crlf) :: ·) := by
  have hpiece : Cut.cut d (crlf ++ p.bytes ++ [13] ++ [10] ++ (d ++ Encoding.bodyOf d rest)) =
      some (crlf ++ p.bytes ++ [13] ++ [10], Encoding.bodyOf d rest) :=
    Cut.cut_piece hnewline hp
  have hshape : crlf ++ p.bytes ++ [13] ++ [10] = crlf ++ p.bytes ++ crlf := by
    rw [List.append_assoc]
    rfl
  rw [hshape] at hpiece
  have hshort := Cut.length_lt_of_cut hne hpiece
  cases turns with
  | zero => omega
  | succ turns =>
    have hsame : Encoding.bodyOf d (p :: rest) =
        crlf ++ p.bytes ++ crlf ++ (d ++ Encoding.bodyOf d rest) := rfl
    rw [hsame] at hturns
    exact ⟨turns, by omega, Cut.split_succ_of_cut hpiece turns⟩

/-- Text fields are passed over, and then the file decides, if it is read. -/
theorem firstFile_body (hne : d ≠ []) (hnewline : 10 ∉ d) {f : FilePart} {after : List Part}
    {part : ParsedFilePart} (hfile : ¬d <:+: crlf ++ (Part.file f).bytes ++ [13])
    (hread : readFrame U (crlf ++ (Part.file f).bytes ++ crlf) = some part)
    (fields : List TextField)
    (hfields : ∀ t ∈ fields, ¬d <:+: crlf ++ (Part.text t).bytes ++ [13])
    {turns : Nat}
    (hturns : (Encoding.bodyOf d (fields.map Part.text ++ .file f :: after)).length < turns) :
    ∃ pieces, Cut.split d turns (Encoding.bodyOf d (fields.map Part.text ++ .file f :: after)) =
      some pieces ∧ firstFile U pieces = some part := by
  induction fields generalizing turns with
  | nil =>
    obtain ⟨turns', hturns', hsplit⟩ := split_part hne hnewline hfile hturns
    obtain ⟨pieces, hpieces⟩ := Cut.split_returns hne hturns'
    refine ⟨(crlf ++ (Part.file f).bytes ++ crlf) :: pieces, ?_, ?_⟩
    · rw [List.map_nil, List.nil_append, hsplit, hpieces]
      rfl
    · rw [firstFile_cons (piece_ne _), hread]
      rfl
  | cons t fields ih =>
    rw [List.map_cons, List.cons_append] at hturns ⊢
    have ht := hfields t List.mem_cons_self
    obtain ⟨turns', hturns', hsplit⟩ := split_part hne hnewline ht hturns
    obtain ⟨pieces, hpieces, hfound⟩ := ih (fun t' ht' => hfields t' (List.mem_cons_of_mem t ht'))
      hturns'
    have hline : Line t.header := dispositionLine_line (field_value t)
    have hnone : readFrame U (crlf ++ (Part.text t).bytes ++ crlf) = none :=
      (readFrame_piece (cut_header hline t.value)).trans (readPart_field t t.value)
    refine ⟨(crlf ++ (Part.text t).bytes ++ crlf) :: pieces, ?_, ?_⟩
    · rw [hsplit, hpieces]
      rfl
    · rw [firstFile_cons (piece_ne _), hnone, hfound]
      rfl

end

/-! ## The file of an encoding -/

theorem readFrame_file {U : Utf8} {f : FilePart} (hvalue : Value f.contentType.toList)
    (htrim : Scan.trimChars f.contentType.toList = f.contentType.toList) (hapart : Apart f) :
    readFrame U (crlf ++ (Part.file f).bytes ++ crlf) =
      if f.readName = [] then none
      else some ⟨String.ofList f.readName, some (String.ofList f.readFilename),
        some f.contentType, f.content⟩ := by
  have hdisposition := dispositionLine_line (disposition_value f)
  have htype := typeLine_line hvalue
  have hcut : Cut.cut (crlf ++ crlf) (crlf ++ (Part.file f).bytes) =
      some (Text.utf8 (String.ofList (headersOf f.header)), f.content) := by
    cases hfirst : f.typeFirst with
    | true =>
      have hheader : f.header = "Content-Type: ".toList ++ f.contentType.toList ++
          headersOf ("Content-Disposition: ".toList ++ f.disposition) := by
        rw [FilePart.header, hfirst]
        rfl
      rw [Part.bytes, hheader]
      exact cut_headers htype hdisposition f.content
    | false =>
      have hheader : f.header = "Content-Disposition: ".toList ++ f.disposition ++
          headersOf ("Content-Type: ".toList ++ f.contentType.toList) := by
        rw [FilePart.header, hfirst]
        rfl
      rw [Part.bytes, hheader]
      exact cut_headers hdisposition htype f.content
  rw [readFrame_piece hcut]
  exact readPart_file hvalue htrim hapart f.content

namespace Encoding

theorem contentType_value (e : Encoding) : Value e.file.contentType.toList ∧
    Scan.trimChars e.file.contentType.toList = e.file.contentType.toList := by
  have htrim : Scan.trimChars e.file.contentType.toList = e.file.contentType.toList := by
    have h := congrArg String.toList e.contentType_trimmed
    rwa [Scan.trim, String.toList_ofList] at h
  refine ⟨⟨?_, Scan.head_not_space_of_trimChars htrim, e.contentType_line⟩, htrim⟩
  intro hnil
  exact e.contentType_ne (String.toList_eq_nil_iff.mp hnil)

/-- Nothing but the file's own piece is read as the file. -/
structure Ordinary (e : Encoding) : Prop where
  fields : ∀ t ∈ e.before, ¬delimiter e.boundary <:+: (Part.text t).bytes
  apart : Apart e.file
  named : e.file.filenameFirst = true → e.file.filename ≠ ""

/-- The delimiter stands nowhere in the part, and the names are as they stand in it. -/
structure Intact (e : Encoding) : Prop where
  whole : ¬delimiter e.boundary <:+: (Part.file e.file).bytes
  name_ne : e.file.name ≠ ""
  name : Plain e.file.name.toList
  filename : Plain e.file.filename.toList

/-- What the parser needs of a file to read it back. -/
structure Readable (e : Encoding) : Prop extends e.Intact where
  same : e.file.filenameFirst = true → e.file.filename = e.file.name
  ends : e.file.filenameFirst = false →
    Match.endsIn "filename=".toList e.file.name.toList = true → e.file.filename = "; filename="

theorem not_infix_piece (e : Encoding) {bytes : Octets}
    (h : ¬delimiter e.boundary <:+: bytes) :
    ¬delimiter e.boundary <:+: crlf ++ bytes ++ [13] :=
  fun hin => h (delimiter_infix_piece e.boundary_chars hin)

/-- The parts behind the first delimiter decide. -/
theorem parse_body (U : Utf8) (e : Encoding) {turns : Nat} (hturns : e.body.length < turns)
    (hordinary : e.Ordinary) (hwhole : ¬delimiter e.boundary <:+: (Part.file e.file).bytes)
    (hname : e.file.readName ≠ []) :
    parseMultipartFile U turns e.body e.boundary =
      some (.ok ⟨String.ofList e.file.readName, some (String.ofList e.file.readFilename),
        some e.file.contentType, e.file.content⟩) := by
  obtain ⟨hvalue, htrim⟩ := e.contentType_value
  have hne := delimiter_ne e.boundary
  have hread := readFrame_file (U := U) hvalue htrim hordinary.apart
  rw [if_neg hname] at hread
  have hfirst := Cut.cut_self (d := delimiter e.boundary) (bodyOf (delimiter e.boundary) e.parts)
  have hshort := Cut.length_lt_of_cut hne hfirst
  cases turns with
  | zero => omega
  | succ turns =>
    have hrest : (bodyOf (delimiter e.boundary) e.parts).length < turns := by
      rw [Encoding.body] at hturns
      omega
    obtain ⟨pieces, hpieces, hfound⟩ := firstFile_body hne (newline_not_mem_delimiter
      e.boundary_chars) (e.not_infix_piece hwhole) hread e.before
      (fun t ht => e.not_infix_piece (hordinary.fields t ht)) hrest
    have hsplit : Cut.split (delimiter e.boundary) (turns + 1) e.body = some ([] :: pieces) := by
      rw [Encoding.body, Cut.split_succ_of_cut hfirst, Encoding.parts, hpieces]
      rfl
    have hskip : firstFile U ([] :: pieces) = firstFile U pieces := rfl
    rw [parseMultipartFile, hsplit, Option.map_some]
    rw [← firstFile, hskip, hfound]

theorem parse_of_readable (U : Utf8) {e : Encoding} {turns : Nat}
    (hturns : e.body.length < turns) (hordinary : e.Ordinary) (h : e.Readable) :
    parseMultipartFile U turns e.body e.boundary = some (.ok e.file.parsed) := by
  have hname := escape_of_plain h.name
  have hfilename := escape_of_plain h.filename
  have hreadName : e.file.readName = e.file.name.toList := by
    rw [FilePart.readName, hname, hfilename]
    split
    · rename_i hfirst
      rw [h.same hfirst]
    · rfl
  have hreadFilename : e.file.readFilename = e.file.filename.toList := by
    rw [FilePart.readFilename, hname, hfilename]
    split
    · rfl
    · rename_i hfirst
      split
      · rename_i hends
        rw [h.ends (Bool.eq_false_iff.mpr hfirst) hends]
      · rfl
  have hne : e.file.readName ≠ [] := by
    rw [hreadName]
    intro hnil
    exact h.name_ne (String.toList_eq_nil_iff.mp hnil)
  rw [parse_body U e hturns hordinary h.whole hne, hreadName, hreadFilename,
    String.ofList_toList, String.ofList_toList]
  rfl

theorem readable_of_parse {U : Utf8} {e : Encoding} {turns : Nat}
    (hturns : e.body.length < turns) (hordinary : e.Ordinary) (hintact : e.Intact)
    (h : parseMultipartFile U turns e.body e.boundary = some (.ok e.file.parsed)) :
    e.Readable := by
  have hname := escape_of_plain hintact.name
  have hfilename := escape_of_plain hintact.filename
  have hne : e.file.readName ≠ [] := by
    rw [FilePart.readName, hname, hfilename]
    intro hnil
    split at hnil
    · rename_i hfirst
      exact hordinary.named hfirst (String.toList_eq_nil_iff.mp hnil)
    · exact hintact.name_ne (String.toList_eq_nil_iff.mp hnil)
  rw [parse_body U e hturns hordinary hintact.whole hne] at h
  have hparsed : ParsedFilePart.mk _ _ _ _ = e.file.parsed := Except.ok.inj (Option.some.inj h)
  have hreadName : String.ofList e.file.readName = e.file.name :=
    congrArg ParsedFilePart.fieldName hparsed
  have hreadFilename : String.ofList e.file.readFilename = e.file.filename :=
    Option.some.inj (congrArg ParsedFilePart.filename hparsed)
  refine ⟨hintact, fun hfirst => ?_, fun hfirst hends => ?_⟩
  · rw [FilePart.readName, hfirst, if_pos rfl, hfilename, String.ofList_toList] at hreadName
    exact hreadName
  · rw [FilePart.readFilename, hfirst, if_neg Bool.false_ne_true, hname, if_pos hends]
      at hreadFilename
    exact hreadFilename.symm

/-! ## A file that is returned -/

section

variable {boundary : String}

/-- A fixed text without two dashes does not begin the delimiter. -/
theorem dashed_infix_of_append {fixed l : List Char}
    (hfixed : ∀ s ∈ fixed.tails, s ≠ [] → Match.bars ['-', '-'] s = true)
    (h : dashed boundary <:+: fixed ++ l) : dashed boundary <:+: l := by
  induction fixed with
  | nil => exact h
  | cons c fixed ih =>
    rcases List.infix_cons_iff.mp h with hhere | hlater
    · have hbars := Match.literal_of_bars (hfixed (c :: fixed) (by simp) (List.cons_ne_nil _ _)) l
      obtain ⟨rest, hrest⟩ := hhere
      have hsame : c :: fixed ++ l = dashed boundary ++ rest := hrest.symm
      rw [hsame] at hbars
      cases hbars
    · exact ih (fun s hs => hfixed s (by rw [List.tails_cons]; exact List.mem_cons_of_mem _ hs))
        hlater

theorem dashed_infix_of_quoted (hquote : '"' ∉ dashed boundary) {key v rest : List Char}
    (hkey : ∀ s ∈ key.tails, s ≠ [] → Match.bars ['-', '-'] s = true)
    (h : dashed boundary <:+: key ++ '"' :: (v ++ '"' :: rest)) :
    dashed boundary <:+: v ∨ dashed boundary <:+: rest := by
  have hnil : ¬dashed boundary <:+: [] := fun h => List.cons_ne_nil _ _ (List.infix_nil.mp h)
  rcases Cut.infix_of_infix_sep hquote h with h | h
  · exact absurd (dashed_infix_of_append (l := []) hkey (by rwa [List.append_nil])) hnil
  · exact Cut.infix_of_infix_sep hquote h

theorem dashed_infix_of_disposition (hquote : '"' ∉ dashed boundary) {f : FilePart}
    (h : dashed boundary <:+: f.disposition) :
    dashed boundary <:+: escape f.name ∨ dashed boundary <:+: escape f.filename := by
  have hnil : ¬dashed boundary <:+: [] := fun h => List.cons_ne_nil _ _ (List.infix_nil.mp h)
  rw [FilePart.disposition] at h
  split at h
  · rcases dashed_infix_of_quoted hquote (by decide) h with h | h
    · exact .inr h
    · exact (dashed_infix_of_quoted hquote (by decide) h).imp_right fun h => absurd h hnil
  · rcases dashed_infix_of_quoted hquote (by decide) h with h | h
    · exact .inl h
    · exact .inr ((dashed_infix_of_quoted hquote (by decide) h).resolve_right hnil)

theorem dashed_infix_of_lines (hreturn : '\r' ∉ dashed boundary) (hnewline : '\n' ∉ dashed boundary)
    {l m : List Char} (h : dashed boundary <:+: l ++ headersOf m) :
    dashed boundary <:+: l ∨ dashed boundary <:+: m := by
  have hnil : ¬dashed boundary <:+: [] := fun h => List.cons_ne_nil _ _ (List.infix_nil.mp h)
  rcases Cut.infix_of_infix_sep hreturn h with h | h
  · exact .inl h
  · exact .inr ((Cut.infix_of_infix_sep (a := []) hnewline h).resolve_left hnil)

theorem dashed_infix_of_header (hreturn : '\r' ∉ dashed boundary)
    (hnewline : '\n' ∉ dashed boundary) {f : FilePart} (h : dashed boundary <:+: f.header) :
    dashed boundary <:+: f.contentType.toList ∨ dashed boundary <:+: f.disposition := by
  have hdisposition : ∀ v, dashed boundary <:+: "Content-Disposition: ".toList ++ v →
      dashed boundary <:+: v := fun v h => dashed_infix_of_append (by decide) h
  have htype : ∀ v, dashed boundary <:+: "Content-Type: ".toList ++ v →
      dashed boundary <:+: v := fun v h => dashed_infix_of_append (by decide) h
  simp only [FilePart.header] at h
  split at h
  · rcases dashed_infix_of_lines hreturn hnewline h with h | h
    · exact .inl (htype _ h)
    · exact .inr (hdisposition _ h)
  · rcases dashed_infix_of_lines hreturn hnewline h with h | h
    · exact .inr (hdisposition _ h)
    · exact .inl (htype _ h)

end

/-- Whatever piece the file is read from, the delimiter is in none of its values. -/
theorem intact_of_parse {U : Utf8} {e : Encoding} {turns : Nat}
    (h : parseMultipartFile U turns e.body e.boundary = some (.ok e.file.parsed)) :
    e.Intact := by
  have hb := e.boundary_chars
  have hreturn := return_not_mem_delimiter hb
  obtain ⟨piece, headerBuf, -, hpiece, hstands, hcaptured⟩ := parse_ok h
  have hheaders : ¬dashed e.boundary <:+: (U.toText headerBuf).toList :=
    not_infix_toText hb U fun hin =>
      hpiece ((hin.trans (List.prefix_append _ _).isInfix).trans hstands.isInfix)
  have hcontent : ¬delimiter e.boundary <:+: e.file.content := fun hin =>
    hpiece ((hin.trans ((List.suffix_append _ _).trans (List.suffix_append _ _)).isInfix).trans
      hstands.isInfix)
  obtain ⟨f, hf, hf_in, hf_plain⟩ := hcaptured.filename
  obtain rfl : e.file.filename = f := Option.some.inj hf
  have hname : ¬dashed e.boundary <:+: e.file.name.toList :=
    fun hin => hheaders (hin.trans hcaptured.fieldName)
  have hfilename : ¬dashed e.boundary <:+: e.file.filename.toList :=
    fun hin => hheaders (hin.trans hf_in)
  have htype : ¬dashed e.boundary <:+: e.file.contentType.toList :=
    fun hin => hheaders (hin.trans (hcaptured.contentType _ rfl))
  have hspec := dashed_spec hb
  have hheader : ¬dashed e.boundary <:+: e.file.header := by
    intro hin
    rcases dashed_infix_of_header (fun hmem => (hspec _ hmem).2.2.1 rfl)
      (fun hmem => (hspec _ hmem).2.2.2 rfl) hin with hin | hin
    · exact htype hin
    rcases dashed_infix_of_disposition (fun hmem => (hspec _ hmem).2.1 rfl) hin with hin | hin
    · rw [escape_of_plain (s := e.file.name) hcaptured.fieldName_plain] at hin
      exact hname hin
    · rw [escape_of_plain hf_plain] at hin
      exact hfilename hin
  refine ⟨fun hin => ?_, hcaptured.fieldName_ne, hcaptured.fieldName_plain, hf_plain⟩
  rcases Cut.infix_of_infix_sep hreturn hin with hin | hin
  · exact hheader ((delimiter_infix_utf8 hb).mp hin)
  · have hbehind : delimiter e.boundary <:+: crlf ++ e.file.content ++ [13] := by
      refine List.IsInfix.trans ?_ (List.prefix_append (crlf ++ e.file.content) [13]).isInfix
      rcases Cut.infix_of_infix_sep (a := []) (newline_not_mem_delimiter hb) hin with hin | hin
      · exact absurd (List.infix_nil.mp hin) (delimiter_ne e.boundary)
      · exact hin
    exact hcontent (delimiter_infix_piece hb hbehind)

/-- Every body is parsed to a part that stands in it or to an error.  Of an encoding, the file
comes back only if the delimiter stands nowhere in its part, and in an ordinary one just if the
names are also ones that the expressions tell apart. -/
theorem file_comes_back (U : Utf8) (e : Encoding) {turns : Nat} (hturns : e.body.length < turns) :
    (parseMultipartFile U turns e.body e.boundary = some (.ok e.file.parsed) → e.Intact) ∧
      (e.Ordinary → (parseMultipartFile U turns e.body e.boundary = some (.ok e.file.parsed) ↔
        e.Readable)) ∧
      ∀ body boundary turns, body.length < turns →
        (∃ part headerBuf, parseMultipartFile U turns body boundary = some (.ok part) ∧
            Contained U part headerBuf body) ∨
          parseMultipartFile U turns body boundary =
            some (.error "No file field found in the multipart request") := by
  refine ⟨intact_of_parse, fun hordinary => ⟨fun h => ?_, ?_⟩, fun body boundary turns h => ?_⟩
  · exact readable_of_parse hturns hordinary (intact_of_parse h) h
  · exact parse_of_readable U hturns hordinary
  · exact parse_ends U boundary h

/-- A decoder that gives up on ill-formed bytes. -/
def strict : Utf8 where
  replaceIllFormed _ := ""
  ascii _ l _ h := by
    obtain rfl : l = [] := List.infix_nil.mp h
    exact List.nil_infix

def picture (content : Octets) : FilePart :=
  ⟨"file", "a.png", "image/png", content, false, false⟩

/-- A caption and a picture. -/
def upload (content : Octets)
    (h : ¬crlf ++ delimiter "XX" <:+: (Part.file (picture content)).bytes) : Encoding where
  boundary := "XX"
  before := [⟨"text", [104, 105]⟩]
  file := picture content
  after := []
  boundary_chars := Text.forall_chars (by decide)
  contentType_ne := show "image/png" ≠ "" by decide
  contentType_line := show ∀ c ∈ "image/png".toList, Match.isBreak c = false from
    Text.forall_chars (by decide)
  contentType_trimmed := show Scan.trim "image/png" = "image/png" by decide
  separated := by
    intro p hp
    simp only [List.map_cons, List.map_nil, List.cons_append, List.nil_append, List.mem_cons,
      List.not_mem_nil, or_false] at hp
    rcases hp with rfl | rfl
    · decide +kernel
    · exact h

theorem ordinary_upload {content : Octets}
    (h : ¬crlf ++ delimiter "XX" <:+: (Part.file (picture content)).bytes) :
    (upload content h).Ordinary := by
  have htext : ¬delimiter "XX" <:+: (Part.text ⟨"text", [104, 105]⟩).bytes := by decide +kernel
  have htype : Match.marks Match.lineStart "content-type:".toList (some ' ')
      (picture []).disposition = false := by decide +kernel
  refine ⟨fun t ht => ?_, ⟨fun hfirst => ?_, fun _ => htype⟩, fun hfirst => ?_⟩
  · rw [List.mem_singleton.mp ht]
    exact htext
  · cases hfirst
  · cases hfirst

def whole : Encoding := upload [1, 2, 45, 88, 88, 13, 10, 3] (by decide +kernel)

theorem file_comes_back_whole :
    parseMultipartFile strict 400 whole.body "XX" = some (.ok whole.file.parsed) :=
  ((file_comes_back strict whole (by decide +kernel)).2.1 (ordinary_upload _)).mpr
    { whole := by decide +kernel
      name_ne := by decide
      name := Text.forall_chars (by decide)
      filename := Text.forall_chars (by decide)
      same := fun hfirst => by cases hfirst
      ends := fun _ hends => absurd hends (by decide) }

def cutOff : Encoding := upload [1, 2, 3, 45, 45, 88, 88, 4] (by decide +kernel)

/-- The delimiter in the middle of a line cuts the picture, and two more bytes are lost. -/
theorem picture_cut_off :
    parseMultipartFile strict 400 cutOff.body "XX" =
      some (.ok { cutOff.file.parsed with content := [1] }) ∧
    ¬parseMultipartFile strict 400 cutOff.body "XX" = some (.ok cutOff.file.parsed) := by
  have hread : parseMultipartFile strict 400 cutOff.body "XX" =
      some (.ok { cutOff.file.parsed with content := [1] }) := by
    decide +kernel
  exact ⟨hread, by rw [hread]; decide⟩

end Encoding

end Indexer
end Linkora
