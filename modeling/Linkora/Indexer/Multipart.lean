import Linkora.Lib.Cut
import Linkora.Lib.Match

/-!
# Uploads

`parseMultipartFile` splits the body of an upload wherever the delimiter stands, also in the
middle of a line, and reads the headers of each piece with regular expressions.
-/

namespace Linkora
namespace Indexer

abbrev Octets := List UInt8

/-- `"\r\n"` -/
def crlf : Octets := [13, 10]

/-- What `toString("utf8")` makes of bytes that are not well-formed; what is ASCII in its text
stands in the bytes. -/
structure Utf8 where
  replaceIllFormed : Octets → String
  ascii : ∀ bytes l, (∀ c ∈ l, c.toNat < 128) → l <:+: (replaceIllFormed bytes).toList →
    Text.asciiBytes l <:+: bytes

/-- `buffer.toString("utf8")`, which keeps a byte order mark. -/
def Utf8.toText (U : Utf8) (bytes : Octets) : String :=
  (Text.fromUtf8 bytes).getD (U.replaceIllFormed bytes)

/-! ## The parser -/

/-- `/boundary=(?:"([^"]+)"|([^;]+))/i` at one place. -/
def boundaryAt (_ : Option Char) (l : List Char) : Option (List Char) :=
  match Match.literal "boundary=".toList l with
  | none => none
  | some rest =>
    let plain := rest.takeWhile (· ≠ ';')
    let other := if plain = [] then none else some plain
    match rest with
    | '"' :: quoted =>
      match Match.untilQuote quoted with
      | some (c :: value) => some (c :: value)
      | _ => other
    | _ => other

def parseBoundary (contentType : Option String) : Except String String :=
  match contentType with
  | none => .error "Missing Content-Type header"
  | some header =>
    if header = "" then .error "Missing Content-Type header"
    else
      match Match.exec boundaryAt none header.toList with
      | none => .error "Content-Type is not a valid multipart/form-data request"
      | some value => .ok (Scan.trim (String.ofList value))

structure ParsedFilePart where
  fieldName : String
  filename : Option String
  contentType : Option String
  content : Octets
  deriving DecidableEq

def dispositionIn (headers : List Char) : List Char :=
  (Match.exec (Match.headerAt (fun _ => true) "content-disposition:".toList) none headers).getD []

def nameIn (disposition : List Char) : Option (List Char) :=
  Match.exec (Match.paramAt "name=".toList) none disposition

def filenameIn (disposition : List Char) : Option (List Char) :=
  Match.exec (Match.paramAt "filename=".toList) none disposition

def contentTypeIn (headers : List Char) : Option (List Char) :=
  (Match.exec (Match.headerAt Match.lineStart "content-type:".toList) none headers).map
    Scan.trimChars

/-- What the headers of a piece and its content make, if it is a file. -/
def readPart (headers : List Char) (content : Octets) : Option ParsedFilePart :=
  let disposition := dispositionIn headers
  match nameIn disposition with
  | none => none
  | some fieldName =>
    if fieldName = [] then none
    else
      match filenameIn disposition with
      | none => none
      | some filename => some
        { fieldName := String.ofList fieldName
          filename := some (String.ofList filename)
          contentType := (contentTypeIn headers).map String.ofList
          content := content }

/-- A piece between two delimiters, without its last two bytes. -/
def readFrame (U : Utf8) (frame : Octets) : Option ParsedFilePart :=
  match Cut.cut (crlf ++ crlf) (frame.take (frame.length - 2)) with
  | none => none
  | some (headerBuf, content) => readPart (U.toText headerBuf).toList content

def delimiter (boundary : String) : Octets := Text.utf8 ("--" ++ boundary)

/-- `none` if the loop of `splitBuffer` has not ended after that many turns. -/
def parseMultipartFile (U : Utf8) (turns : Nat) (body : Octets) (boundary : String) :
    Option (Except String ParsedFilePart) :=
  (Cut.split (delimiter boundary) turns body).map fun pieces =>
    match (pieces.filter (· ≠ [])).findSome? (readFrame U) with
    | some part => .ok part
    | none => .error "No file field found in the multipart request"

/-! ## Encodings -/

structure TextField where
  name : String
  value : Octets

/-- A file, with the order of its two headers and that of the two parameters. -/
structure FilePart where
  name : String
  filename : String
  contentType : String
  content : Octets
  typeFirst : Bool
  filenameFirst : Bool

/-- Quotes and line breaks of a name are written with a percent sign. -/
def escape (s : String) : List Char :=
  s.toList.flatMap fun c =>
    if c = '"' then ['%', '2', '2']
    else if c = '\r' then ['%', '0', 'D']
    else if c = '\n' then ['%', '0', 'A']
    else [c]

namespace TextField

def header (t : TextField) : List Char :=
  "Content-Disposition: form-data; name=".toList ++ '"' :: (escape t.name ++ ['"'])

end TextField

namespace FilePart

def disposition (f : FilePart) : List Char :=
  if f.filenameFirst = true then
    "form-data; filename=".toList ++ '"' :: (escape f.filename ++
      '"' :: ("; name=".toList ++ '"' :: (escape f.name ++ ['"'])))
  else
    "form-data; name=".toList ++ '"' :: (escape f.name ++
      '"' :: ("; filename=".toList ++ '"' :: (escape f.filename ++ ['"'])))

def header (f : FilePart) : List Char :=
  let dispositionLine := "Content-Disposition: ".toList ++ f.disposition
  let typeLine := "Content-Type: ".toList ++ f.contentType.toList
  if f.typeFirst = true then typeLine ++ '\r' :: '\n' :: dispositionLine
  else dispositionLine ++ '\r' :: '\n' :: typeLine

/-- What the parser should return for the file. -/
def parsed (f : FilePart) : ParsedFilePart :=
  ⟨f.name, some f.filename, some f.contentType, f.content⟩

end FilePart

inductive Part where
  | text (t : TextField)
  | file (f : FilePart)

def partBytes (header : List Char) (content : Octets) : Octets :=
  Text.utf8 (String.ofList header) ++ (crlf ++ crlf ++ content)

def Part.bytes : Part → Octets
  | .text t => partBytes t.header t.value
  | .file f => partBytes f.header f.content

/-- The characters of a boundary. -/
def isBoundaryChar (c : Char) : Bool :=
  c.isAlphanum || "'()+_,-./:=? ".toList.contains c

/-- A body of text fields, a file and other parts. -/
structure Encoding where
  boundary : String
  before : List TextField
  file : FilePart
  after : List Part
  boundary_chars : ∀ c ∈ boundary.toList, isBoundaryChar c = true
  contentType_ne : file.contentType ≠ ""
  contentType_line : ∀ c ∈ file.contentType.toList, Match.isBreak c = false
  contentType_trimmed : Scan.trim file.contentType = file.contentType
  separated : ∀ p ∈ before.map Part.text ++ .file file :: after,
    ¬crlf ++ delimiter boundary <:+: p.bytes

namespace Encoding

def parts (e : Encoding) : List Part := e.before.map Part.text ++ .file e.file :: e.after

/-- What stands behind the first delimiter. -/
def bodyOf (d : Octets) : List Part → Octets
  | [] => [45, 45] ++ crlf
  | p :: rest => crlf ++ p.bytes ++ crlf ++ (d ++ bodyOf d rest)

def body (e : Encoding) : Octets :=
  delimiter e.boundary ++ bodyOf (delimiter e.boundary) e.parts

end Encoding

end Indexer
end Linkora
