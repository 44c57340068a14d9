import VectorDebugger.Debugger.RdbRoundTrip
import VectorDebugger.Debugger.XrefSessions
import VectorDebugger.Library.TextSearch

/-!
# Project files

`ProjectFile::save` writes the symbols, the regions, the enabled breakpoints and the path of the
program as JSON, with escapes in its strings. `ProjectFile::load` does not parse JSON: it looks
for keys, quotes, brackets and braces in the raw text and undoes no escape. A position that
`find` returns is here the text from there on, and `npos + 1` is the start of the text.
-/

namespace VectorDebugger.ProjectFile

open TextSearch

/-- The quotation mark. -/
def quote : Byte := 0x22

/-! ### Save -/

/-- One character of `escapeJson`. -/
def escapeChar (c : Byte) : Text :=
  if c = 0x22 then [0x5c, 0x22]
  else if c = 0x5c then [0x5c, 0x5c]
  else if c = 0x0a then ascii "\\n"
  else if c = 0x0d then ascii "\\r"
  else if c = 0x09 then ascii "\\t"
  else [c]

/-- `escapeJson`. -/
def escapeJson (s : Text) : Text := s.flatMap escapeChar

/-- `addrToHex`: the format `%04X`. -/
def addrToHex (addr : Word) : Text := Disassembler.fmtHex addr.toNat 4

/-- A key and its string. -/
def member (key value : Text) : Text := word quote key ++ (ascii ": " ++ word quote value)

/-- Members, separated by commas. -/
def members : List (Text × Text) → Text
  | [] => []
  | field :: rest =>
    member field.1 field.2 ++ ((if rest = [] then [] else ascii ", ") ++ members rest)

/-- The strings written for the type of a symbol. -/
def symbolTypeText (type : SymbolType) : Text :=
  if type = .function then ascii "function" else ascii "label"

/-- The members of a symbol. -/
def symbolFields (sym : DebugSymbol) : List (Text × Text) :=
  [(ascii "address", addrToHex sym.address), (ascii "name", escapeJson sym.name),
    (ascii "type", symbolTypeText sym.type), (ascii "comment", escapeJson sym.comment)]

/-- The strings written for the type of a region. -/
def regionTypeText : MemoryRegionType → Text
  | .code => ascii "code"
  | .data => ascii "data"
  | .unknown => ascii "unknown"

/-- The members of a region; nothing sets its comment. -/
def regionFields (reg : MemoryRegion) : List (Text × Text) :=
  [(ascii "start", addrToHex reg.start), (ascii "end", addrToHex reg.last),
    (ascii "type", regionTypeText reg.type), (ascii "comment", [])]

/-- Objects, one on a line, separated by commas. -/
def lines : List (List (Text × Text)) → Text
  | [] => []
  | fields :: rest =>
    ascii "        " ++ 0x7b :: (members fields ++ 0x7d ::
      ((if rest = [] then [] else ascii ",") ++ (ascii "\n" ++ lines rest)))

/-- A key and its list of objects, without the comma. -/
def objectList (key : Text) (objects : List (List (Text × Text))) : Text :=
  word quote key ++ (ascii ": " ++ 0x5b :: (ascii "\n" ++ lines objects ++ ascii "    " ++ [0x5d]))

/-- The strings of the enabled breakpoints; a comma follows each but the last breakpoint. -/
def breakpointStrings : List DebuggerBreakpoint → Text
  | [] => []
  | bp :: rest =>
    (if bp.enabled then
        word quote (addrToHex bp.address) ++ if rest = [] then [] else ascii ", "
      else []) ++ breakpointStrings rest

/-- `SymbolDatabase::allSymbols`, in the order of the addresses. -/
def allSymbols (db : SymbolDatabase) : List DebugSymbol := allAddresses.filterMap db.symbols

/-- What is written before the symbols. -/
def header (romPath : Text) : Text :=
  ascii "\x7b\n    " ++ (word quote (ascii "version") ++ (ascii ": 1,\n    " ++
    (member (ascii "rom_path") (escapeJson romPath) ++ ascii ",\n    ")))

/-- The text that `ProjectFile::save` writes. -/
def save (db : SymbolDatabase) (regions : List MemoryRegion)
    (breakpoints : List DebuggerBreakpoint) (romPath : Text) : Text :=
  header romPath ++ (objectList (ascii "symbols") ((allSymbols db).map symbolFields) ++
    (ascii ",\n    " ++ (objectList (ascii "regions") (regions.map regionFields) ++
      (ascii ",\n    " ++ (word quote (ascii "breakpoints") ++ (ascii ": " ++ 0x5b ::
        (breakpointStrings breakpoints ++ 0x5d :: ascii "\n\x7d\n")))))))

/-! ### Load -/

/-- `hexToAddr`. -/
def hexToAddr (s : Text) : Option Word :=
  (scanHex s).bind fun a => if a.toNat > 0xffff then none else some (a.setWidth 16)

/-- The text between the next two quotes. -/
def quotedText (text : Text) : Option Text :=
  (cut quote text).bind fun opened => (cut quote opened.2).map (·.1)

/-- The string of a key in an object: from its first occurrence on to the next colon, or from the
start of the object when there is none. -/
def fieldText (obj key : Text) : Option Text :=
  (seek (word quote key) obj).bind fun found =>
    quotedText (((cut 0x3a found).map (·.2)).getD obj)

/-- The string of `rom_path`. -/
def romPathText (content : Text) : Option Text :=
  (seek (word quote (ascii "rom_path")) content).bind fun found =>
    (cut 0x3a found).bind fun colon => quotedText colon.2

/-- The text of an array: from the first bracket after the first occurrence of its key to the next
closing bracket. -/
def sectionText (content key : Text) : Option Text :=
  (seek (word quote key) content).bind fun found =>
    (cut 0x5b found).bind fun opened => (cut 0x5d opened.2).map (·.1)

/-- The objects of an array. -/
def objects (text : Text) : List Text :=
  (blocks 0x7b 0x7d text.length text).map fun body => 0x7b :: (body ++ [0x7d])

/-- An address of an object, zero when there is none. -/
def fieldAddr (obj key : Text) : Word := ((fieldText obj key).bind hexToAddr).getD 0

/-- One object of the symbols. -/
def loadSymbol (db : SymbolDatabase) (obj : Text) : SymbolDatabase :=
  let addr := fieldAddr obj (ascii "address")
  let name := (fieldText obj (ascii "name")).getD []
  let type : SymbolType :=
    if fieldText obj (ascii "type") = some (ascii "function") then .function else .label
  let comment := (fieldText obj (ascii "comment")).getD []
  if name = [] then db
  else
    let added := (db.addSymbol addr name type).1
    if comment = [] then added else (added.setComment addr comment).1

/-- The type that a string stands for. -/
def regionTypeOf (text : Option Text) : MemoryRegionType :=
  if text = some (ascii "code") then .code
  else if text = some (ascii "data") then .data
  else .unknown

/-- One object of the regions. -/
def loadRegion (table : XrefTable) (obj : Text) : XrefTable :=
  (table.setRegion (fieldAddr obj (ascii "start")) (fieldAddr obj (ascii "end"))
    (regionTypeOf (fieldText obj (ascii "type")))).1

/-- The breakpoints of an array. -/
def loadBreakpoints (text : Text) : List DebuggerBreakpoint :=
  (blocks quote quote text.length text).filterMap fun s =>
    (hexToAddr s).map fun address => { address, enabled := true }

/-- What `ProjectFile::load` fills. -/
structure Project where
  /-- The symbols of `db`. -/
  symbols : SymbolDatabase
  /-- The regions of `db`. -/
  table : XrefTable
  /-- `breakpoints`. -/
  breakpoints : List DebuggerBreakpoint
  /-- `romPath`. -/
  romPath : Text

/-- `ProjectFile::load`, on the text of a file. -/
def load (content : Text) : Project where
  symbols :=
    (objects ((sectionText content (ascii "symbols")).getD [])).foldl loadSymbol .empty
  table := (objects ((sectionText content (ascii "regions")).getD [])).foldl loadRegion .init
  breakpoints := loadBreakpoints ((sectionText content (ascii "breakpoints")).getD [])
  romPath := (romPathText content).getD []

end VectorDebugger.ProjectFile
