import VectorDebugger.Debugger.LoadedSymbols
import VectorDebugger.Debugger.RdbFile
import VectorDebugger.Library.Fields
import VectorDebugger.Library.TextSearch

/-!
# MAP files

`MapLoader` reads the symbols that a linker listed. It recognises a field by its value, wherever it
stands in the line, and a file by a pattern in any line. A file in the documented format is read
symbol by symbol if no field of it has the value of another and no part of it looks like the
configuration of a keyboard.
-/

namespace VectorDebugger.MapLoader

/-! ## Text -/

/-- The blanks of `trim`. -/
def isBlank (c : Byte) : Bool := c = 0x20 || c = 0x09 || c = 0x0d || c = 0x0a

/-- `trim`. -/
def trim (s : Text) : Text := Fields.trim isBlank s

/-- `std::tolower` of the C locale. -/
def tolower (c : Byte) : Byte := if 0x41 ≤ c ∧ c ≤ 0x5a then c + 0x20 else c

/-- `std::string::find`: what stands before a pattern, and the text from it on. -/
def find (pattern : Text) : Text → Option (Text × Text)
  | [] => none
  | c :: rest =>
    if pattern.isPrefixOf (c :: rest) then some ([], c :: rest)
    else (find pattern rest).map fun found => (c :: found.1, found.2)

/-- `containsCI`. -/
def containsCI (haystack needle : Text) : Bool :=
  (find (needle.map tolower) (haystack.map tolower)).isSome

/-- `std::isxdigit`. -/
def isxdigit (c : Byte) : Bool := (hexValue c).isSome

/-- `std::isdigit`. -/
def isdigit (c : Byte) : Bool := decide (0x30 ≤ c ∧ c ≤ 0x39)

/-- `sscanf` of `%x`: a number of 64 bits, of which 32 are stored. -/
def scanHex (hex : Text) : Nat :=
  let value : Nat := hex.foldl (fun value c => 16 * value + (hexValue c).getD 0) 0
  if value < 2 ^ 64 then value % 2 ^ 32 else 2 ^ 32 - 1

/-- `atoi` of digits: a number of 63 bits, of which 32 are stored. -/
def atoi (digits : Text) : Int :=
  let value : Nat := digits.foldl (fun value c => 10 * value + (c.toNat - 0x30)) 0
  if value < 2 ^ 63 then Int.bmod value (2 ^ 32) else -1

/-- `parseHexAddress` of what follows the dollar sign. -/
def parseHexAddress (hex : Text) : Option Word :=
  if hex = [] then none
  else if !hex.all isxdigit then none
  else if scanHex hex > 0xffff then none
  else some (BitVec.ofNat 16 (scanHex hex))

/-! ## Lines -/

/-- The definition of a symbol in a line: what stands before the equals sign, and what stands behind
the dollar sign. -/
def definition (trimmed : Text) : Option (Text × Text) :=
  match find (ascii "= $") trimmed with
  | some found => some (found.1, found.2.drop 3)
  | none => (find (ascii "=$") trimmed).map fun found => (found.1, found.2.drop 2)

/-- What the fields of a line say. -/
structure MapFields where
  /-- `isAddr`. -/
  isAddr : Bool
  /-- `isConst`. -/
  isConst : Bool
  /-- `visibility`. -/
  visibility : MapSymbolVisibility
deriving DecidableEq, Repr

/-- What a field says. -/
def readField (read : MapFields) (f : Text) : MapFields :=
  if f = ascii "addr" then { read with isAddr := true }
  else if f = ascii "const" then { read with isConst := true }
  else if f = ascii "public" then { read with visibility := .isPublic }
  else if f = ascii "local" then { read with visibility := .isLocal }
  else read

/-- The loop over the fields of a comment. -/
def readFields (comment : Text) : MapFields :=
  ((Fields.split 0x2c comment).map trim).foldl readField
    { isAddr := false, isConst := false, visibility := .isPublic }

/-- A token that ends with a colon and a number: the file and the line. -/
def sourceLocation (token : Text) : Option (Text × Int) :=
  if token.contains 0x3a then
    let lineStr := (token.reverse.takeWhile (· ≠ 0x3a)).reverse
    if lineStr ≠ [] ∧ lineStr.all isdigit = true then
      let sourceFile :=
        match find (ascii "::") token with
        | some found => found.1
        | none => token.take (token.length - lineStr.length - 1)
      some (sourceFile, atoi lineStr)
    else none
  else none

/-- `extractSourceLocation`: its loop skips blanks and commas, so it goes over the tokens that are
not blank. -/
def extractSourceLocation (comment : Text) : Text × Int :=
  ((Fields.fields 0x2c isBlank comment).findSome? sourceLocation).getD ([], 0)

/-- The comment behind the address. -/
def commentOf (after : Text) : Text :=
  match TextSearch.cut 0x3b after with
  | none => []
  | some parts => trim parts.2

/-- `parseMapLine`. -/
def parseMapLine (line : Text) : Option MapSymbol :=
  let trimmed := trim line
  if trimmed = [] ∨ trimmed.head? = some 0x3b then none
  else do
    let found ← definition trimmed
    let name := trim found.1
    if name = [] then none
    else
      let address ← parseHexAddress (found.2.takeWhile isxdigit)
      let comment := commentOf (found.2.dropWhile isxdigit)
      let read := readFields comment
      if read.isConst then none
      else
        let source := extractSourceLocation comment
        some
          { name, address, visibility := read.visibility, isAddress := read.isAddr
            sourceFile := source.1, sourceLine := source.2 }

/-! ## Files -/

/-- `validateZ88dkFormat`. -/
def validateZ88dkFormat (content : Text) : Bool :=
  ((Fields.split 0x0a content).any fun line =>
      trim line ≠ [] && ((find (ascii "= $") (trim line)).isSome ||
        (find (ascii "=$") (trim line)).isSome)) &&
    !(containsCI content (ascii "[keyboard]") || containsCI content (ascii "[mapping]") ||
      containsCI content (ascii "[keys]"))

/-- `MapLoadResult`, with its counters and its message. -/
structure MapLoading where
  /-- The fields that the import reads. -/
  result : MapLoadResult
  /-- `errorMessage`. -/
  errorMessage : Text
  /-- `parsedCount`. -/
  parsedCount : Nat
  /-- `skippedLines`. -/
  skippedLines : Nat

/-- The loop of `parseMapContent`, for a line. -/
def addLine (loading : MapLoading) (line : Text) : MapLoading :=
  let trimmed := trim line
  if trimmed = [] ∨ trimmed.head? = some 0x3b then loading
  else
    match parseMapLine trimmed with
    | some sym =>
      { loading with
        result := { loading.result with symbols := loading.result.symbols ++ [sym] }
        parsedCount := loading.parsedCount + 1 }
    | none => { loading with skippedLines := loading.skippedLines + 1 }

/-- `MapLoader::parseMapContent`. -/
def parseMapContent (content : Text) : MapLoading :=
  let empty : MapLoading :=
    { result := { success := false, symbols := [] }, errorMessage := [], parsedCount := 0
      skippedLines := 0 }
  if !validateZ88dkFormat content then
    { empty with errorMessage := ascii "not a Z88DK MAP file (format validation failed)" }
  else
    let read := (Fields.split 0x0a content).foldl addLine empty
    { read with result := { read.result with success := true } }

/-- `MapLoader::loadMapFile`, by the contents of the files that can be opened. -/
def loadMapFile (contents : Text → Option Text) (path : Text) : MapLoading :=
  let failed (message : Text) : MapLoading :=
    { result := { success := false, symbols := [] }, errorMessage := message, parsedCount := 0
      skippedLines := 0 }
  match contents path with
  | none => failed (ascii "cannot open file: " ++ path)
  | some content =>
    if content = [] then failed (ascii "empty MAP file") else parseMapContent content

/-! ## The documented format -/

/-- The characters of names. -/
def isNameChar (c : Byte) : Bool :=
  decide (0x30 ≤ c ∧ c ≤ 0x39) || decide (0x41 ≤ c ∧ c ≤ 0x5a) || decide (0x61 ≤ c ∧ c ≤ 0x7a) ||
    c = 0x5f || c = 0x2e || c = 0x40

/-- Where a symbol is defined. -/
inductive SourceRef
  /-- Nowhere. -/
  | absent
  /-- `file.asm:line`. -/
  | label (file line : Text)
  /-- `file.c::function::N::M:line`. -/
  | function (file name n m line : Text)

/-- A line of a MAP file. -/
structure MapEntry where
  /-- The name. -/
  name : Text
  /-- The blanks behind it. -/
  padding : Nat
  /-- The digits of the address. -/
  hex : Text
  /-- `const` instead of `addr`. -/
  isConst : Bool
  /-- The visibility. -/
  visibility : MapSymbolVisibility
  /-- The fields for `def`, the module and the section, as far as there are any. -/
  fields : List Text
  /-- The source location. -/
  source : SourceRef

/-- The text of a source location, with the colon before the line. -/
def SourceRef.text : SourceRef → List Text
  | .absent => []
  | .label file line => [file ++ 0x3a :: line]
  | .function file name n m line =>
    [file ++ (ascii "::" ++ name ++ ascii "::" ++ n ++ ascii "::" ++ m) ++ 0x3a :: line]

/-- What is read of a source location. -/
def SourceRef.read : SourceRef → Text × Int
  | .absent => ([], 0)
  | .label file line => (file, atoi line)
  | .function file _ _ _ line => (file, atoi line)

/-- Fields behind one another. -/
def joinFields : List Text → Text
  | [] => []
  | [f] => f
  | f :: fs => f ++ 0x2c :: 0x20 :: joinFields fs

namespace MapEntry

/-- The type. -/
def typeText (entry : MapEntry) : Text := if entry.isConst then ascii "const" else ascii "addr"

/-- The visibility. -/
def visibilityText (entry : MapEntry) : Text :=
  match entry.visibility with
  | .isPublic => ascii "public"
  | .isLocal => ascii "local"

/-- The fields of the comment. -/
def comment (entry : MapEntry) : List Text :=
  entry.typeText :: entry.visibilityText :: (entry.fields ++ entry.source.text)

/-- What stands before the comment. -/
def front (entry : MapEntry) : Text :=
  entry.name ++ (List.replicate entry.padding 0x20 ++ (ascii "= $" ++ (entry.hex ++ ascii " ;")))

/-- The line. -/
def render (entry : MapEntry) : Text := entry.front ++ 0x20 :: joinFields entry.comment

/-- The symbol that the line defines. -/
def symbol (entry : MapEntry) : MapSymbol where
  name := entry.name
  address := BitVec.ofNat 16 (scanHex entry.hex)
  visibility := entry.visibility
  isAddress := true
  sourceFile := entry.source.read.1
  sourceLine := entry.source.read.2

end MapEntry

/-- A piece of a source location. -/
abbrev IsPiece (s : Text) : Prop := ∀ c ∈ s, c ≠ 0x2c ∧ c ≠ 0x0a

/-- A number of a source location. -/
abbrev IsLine (s : Text) : Prop := s ≠ [] ∧ ∀ c ∈ s, isdigit c = true

/-- A file of a source location. -/
structure IsFile (s : Text) : Prop where
  /-- No comma and no line end. -/
  piece : IsPiece s
  /-- No colon. -/
  colon : 0x3a ∉ s
  /-- It begins with no blank. -/
  first : ∃ c rest, s = c :: rest ∧ isBlank c = false

/-- A source location as documented. -/
def SourceRef.Documented : SourceRef → Prop
  | .absent => True
  | .label file line => IsFile file ∧ IsLine line
  | .function file name n m line =>
    IsFile file ∧ IsPiece name ∧ IsPiece n ∧ IsPiece m ∧ IsLine line

/-- A line as documented, with no field that has the value of another. -/
structure MapEntry.Documented (entry : MapEntry) : Prop where
  /-- There is a name. -/
  named : entry.name ≠ []
  /-- The characters of the name. -/
  name : ∀ c ∈ entry.name, isNameChar c = true
  /-- The address has four digits. -/
  four : entry.hex.length = 4
  /-- They are hexadecimal ones. -/
  hex : ∀ c ∈ entry.hex, isxdigit c = true
  /-- The characters of the fields. -/
  fields : ∀ f ∈ entry.fields, ∀ c ∈ f, isNameChar c = true
  /-- No field has the value of another. -/
  apart : ∀ f ∈ entry.fields, f ∉ [ascii "const", ascii "public", ascii "local"]
  /-- The source location. -/
  source : entry.source.Documented

/-- A line of a file: an entry or a blank one. -/
abbrev MapLine := Option MapEntry × Bool

/-- The text of a line, with CR/LF or LF behind it. -/
def lineText (line : MapLine) : Text :=
  line.1.elim [] MapEntry.render ++ (if line.2 then [0x0d] else [])

/-- The text of a file. -/
def fileText (lines : List MapLine) : Text := lines.flatMap fun line => lineText line ++ [0x0a]

end VectorDebugger.MapLoader
