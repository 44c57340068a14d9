import VectorDebugger.Debugger.CodeAnalyzer
import VectorDebugger.Debugger.LoadedSymbols

/-!
# The assembler export

`AsmExporter` writes a program back as assembler source. Every byte of the image belongs to an
instruction that the analysis has decoded, to an object of the ROM database, or to a gap.
`emitLayoutAsm` sorts these units by address and writes one after another, except for those that
are covered already.

What takes no bytes is left out: labels, comments and `equ` lines. So is the text of an
instruction; a unit keeps the instruction itself.
-/

namespace VectorDebugger

/-- `AsmExportConfig`, without its paths. -/
structure AsmExportConfig where
  /-- `origin`. -/
  origin : Word
  /-- `maxAnalysisInstructions`. -/
  maxAnalysisInstructions : Nat
deriving DecidableEq, Repr

/-- A value of `owner_`. -/
inductive Owner
  | gap | code | data
deriving DecidableEq, Repr

/-- `AsmDataUnit`, without its name and comment. -/
structure AsmDataUnit where
  /-- `address`. -/
  address : Word
  /-- `size`. -/
  size : Nat
deriving DecidableEq, Repr

/-- What an `Item` of the layout stands for. -/
inductive ItemKind
  | code (instr : AnalyzedInstruction)
  | data
  | gap
deriving DecidableEq, Repr

/-- `Item`. -/
structure Item where
  /-- `start`. -/
  start : Nat
  /-- `end`, inclusive. -/
  last : Nat
  /-- `kind`, with the instruction that `instr` points at. -/
  kind : ItemKind
deriving DecidableEq, Repr

/-- What `emitLayoutAsm` writes: an instruction, `defb` rows or a `defs`. -/
inductive LayoutUnit
  | instruction (instr : AnalyzedInstruction)
  | byteRows (start last : Nat)
  | padding (size : Nat)
deriving DecidableEq, Repr

namespace LayoutUnit

/-- The unit is `defs` padding. -/
def isPadding : LayoutUnit → Bool
  | .padding _ => true
  | _ => false

/-- The addresses whose bytes a unit writes, in order. -/
def addresses : LayoutUnit → List Nat
  | .instruction instr => List.range' instr.address.toNat instr.size
  | .byteRows start last => List.range' start (last + 1 - start)
  | .padding _ => []

end LayoutUnit

/-- `AsmExporter` after its files are loaded. -/
structure AsmExporter where
  /-- `config_`. -/
  config : AsmExportConfig
  /-- `rom_`. -/
  rom : List Byte
  /-- `rdb_`. -/
  rdb : RdbController
  /-- `hasRdb_`. -/
  hasRdb : Bool

namespace AsmExporter

/-- `config_.origin`, as a number. -/
def origin (exporter : AsmExporter) : Nat := exporter.config.origin.toNat

/-- `winEnd`. -/
def winEnd (exporter : AsmExporter) : Nat := exporter.origin + exporter.rom.length

/-- `readByte`. -/
def readByte (exporter : AsmExporter) (addr : Word) : Byte :=
  if addr.toNat < exporter.origin then 0
  else exporter.rom.getD (addr.toNat - exporter.origin) 0

/-- The object is an entry point of the analysis, if it lies inside the ROM window. -/
def isSeed (exporter : AsmExporter) (obj : RdbObject) : Bool :=
  (obj.type == .function || obj.type == .label || obj.type == .code) &&
    (exporter.origin ≤ obj.address.toNat && obj.address.toNat < exporter.winEnd)

/-- The entry points of the analysis, sorted and without repetitions. -/
def entries (exporter : AsmExporter) : List Word :=
  let seeds :=
    if exporter.hasRdb then (exporter.rdb.listObjects.filter exporter.isSeed).map (·.address)
    else []
  ((0 :: seeds).insertionSort (fun a b => a.toNat ≤ b.toNat)).destutter (· ≠ ·)

/-- The instruction lies inside the ROM window. -/
def inWindow (exporter : AsmExporter) (instr : AnalyzedInstruction) : Bool :=
  exporter.origin ≤ instr.address.toNat && instr.address.toNat + instr.size ≤ exporter.winEnd

/-- `runAnalysis` — the instructions it keeps. -/
def runAnalysis (exporter : AsmExporter) : List AnalyzedInstruction :=
  (analyzeCodeMulti exporter.entries exporter.readByte
    exporter.config.maxAnalysisInstructions).instructions.filter exporter.inWindow

/-- Make code the owner of the bytes of an instruction. `List.set` past the end of the image
changes nothing, as the test of the source has it. -/
def ownInstruction (exporter : AsmExporter) (owner : List Owner) (instr : AnalyzedInstruction) :
    List Owner :=
  (List.range instr.size).foldl
    (fun owner i => owner.set (instr.address.toNat + i - exporter.origin) .code) owner

/-- `owner_` after the first loop of `buildLayout`. -/
def codeOwner (exporter : AsmExporter) : List Owner :=
  exporter.runAnalysis.foldl exporter.ownInstruction
    (List.replicate exporter.rom.length .gap)

/-- The inner loop of `buildLayout`: own the free bytes from an offset on. -/
def claimRun (stop : Nat) : Nat → List Owner → Nat → List Owner × Nat
  | 0, owner, off => (owner, off)
  | fuel + 1, owner, off =>
    if off < stop ∧ owner[off]? = some .gap then
      claimRun stop fuel (owner.set off .data) (off + 1)
    else (owner, off)

/-- The loop of `buildLayout` over the bytes of an object, and the runs it claims, each with its
offset and size. -/
def claimRuns (stop : Nat) : Nat → List Owner → Nat → List Owner × List (Nat × Nat)
  | 0, owner, _ => (owner, [])
  | fuel + 1, owner, off =>
    if off < stop then
      if owner[off]? = some .gap then
        let run := claimRun stop (stop - off) owner off
        let others := claimRuns stop fuel run.1 run.2
        (others.1, (off, run.2 - off) :: others.2)
      else claimRuns stop fuel owner (off + 1)
    else (owner, [])

/-- The bytes of the object come from the instruction stream. -/
def isCodeObject (obj : RdbObject) : Bool :=
  obj.type == .function || obj.type == .code || obj.type == .label

/-- `end - origin` for an object, clipped to the image. The sums are 32-bit sums. -/
def objectStop (exporter : AsmExporter) (owner : List Owner) (obj : RdbObject) : Nat :=
  let size := if obj.size = 0 then 1 else obj.size
  let stop := BitVec.ofNat 32 obj.address.toNat + size - BitVec.ofNat 32 exporter.origin
  if owner.length < stop.toNat then owner.length else stop.toNat

/-- The body of the second loop of `buildLayout`. -/
def layoutObject (exporter : AsmExporter) (layout : List Owner × List (Nat × Nat))
    (obj : RdbObject) : List Owner × List (Nat × Nat) :=
  if isCodeObject obj then layout
  else if obj.address.toNat < exporter.origin ∨
      layout.1.length ≤ obj.address.toNat - exporter.origin then layout
  else
    let off := obj.address.toNat - exporter.origin
    let stop := exporter.objectStop layout.1 obj
    let claimed := claimRuns stop (stop - off) layout.1 off
    (claimed.1, layout.2 ++ claimed.2)

/-- `owner_` after `buildLayout`, with the runs of the data units as offsets and sizes. -/
def layout (exporter : AsmExporter) : List Owner × List (Nat × Nat) :=
  if exporter.hasRdb then
    (exporter.rdb.listObjects.insertionSort
      (fun a b => a.address.toNat ≤ b.address.toNat)).foldl exporter.layoutObject
      (exporter.codeOwner, [])
  else (exporter.codeOwner, [])

/-- `owner_`. -/
def owner (exporter : AsmExporter) : List Owner := exporter.layout.1

/-- `dataUnits_`. -/
def dataUnits (exporter : AsmExporter) : List AsmDataUnit :=
  exporter.layout.2.map fun run =>
    { address := BitVec.ofNat 16 (exporter.origin + run.1), size := run.2 }

/-- The inner loop of `computeCoverage`. -/
def gapEnd (owner : List Owner) : Nat → Nat → Nat
  | 0, j => j
  | fuel + 1, j => if owner[j]? = some .gap then gapEnd owner fuel (j + 1) else j

/-- The loop of `computeCoverage`, and the first and last offset of each gap it finds. -/
def uncoveredFrom (owner : List Owner) : Nat → Nat → List (Nat × Nat)
  | 0, _ => []
  | fuel + 1, i =>
    if i < owner.length then
      if owner[i]? = some .gap then
        let j := gapEnd owner (owner.length - i) i
        (i, j - 1) :: uncoveredFrom owner fuel j
      else uncoveredFrom owner fuel (i + 1)
    else []

/-- `computeCoverage().uncovered`. -/
def uncovered (exporter : AsmExporter) : List (Word × Word) :=
  (uncoveredFrom exporter.owner exporter.owner.length 0).map fun gap =>
    (BitVec.ofNat 16 (exporter.origin + gap.1), BitVec.ofNat 16 (exporter.origin + gap.2))

/-- The item of an instruction. -/
def codeItem (instr : AnalyzedInstruction) : Item where
  start := instr.address.toNat
  last := instr.address.toNat + instr.size - 1
  kind := .code instr

/-- The item of a data unit. -/
def dataItem (data : AsmDataUnit) : Item where
  start := data.address.toNat
  last := data.address.toNat + data.size - 1
  kind := .data

/-- The item of a gap. -/
def gapItem (gap : Word × Word) : Item where
  start := gap.1.toNat
  last := gap.2.toNat
  kind := .gap

/-- `items`, before they are sorted. -/
def items (exporter : AsmExporter) : List Item :=
  exporter.runAnalysis.map codeItem ++ exporter.dataUnits.map dataItem ++
    exporter.uncovered.map gapItem

/-- What is written for an item. -/
def unitOf (item : Item) : LayoutUnit :=
  match item.kind with
  | .code instr => .instruction instr
  | .data | .gap => .byteRows item.start item.last

/-- The loop of `emitLayoutAsm` over the sorted items, and the padding after it. -/
def emit (winEnd : Nat) : List Item → Nat → List LayoutUnit
  | [], pc => if pc < winEnd then [.padding (winEnd - pc)] else []
  | item :: rest, pc =>
    if item.last < pc then emit winEnd rest pc
    else
      (if pc < item.start then [.padding (item.start - pc)] else []) ++
        unitOf item :: emit winEnd rest (item.last + 1)

/-- `emitLayoutAsm` — the units it writes. -/
def emitLayoutAsm (exporter : AsmExporter) : List LayoutUnit :=
  emit exporter.winEnd (exporter.items.insertionSort (fun a b => a.start ≤ b.start))
    exporter.origin

/-- The original byte at an address of the image. -/
def romByte (exporter : AsmExporter) (addr : Nat) : Byte :=
  exporter.rom.getD (addr - exporter.origin) 0

/-- The units write the image: each address once and in order, its own bytes, no padding. -/
structure Reproduces (exporter : AsmExporter) (units : List LayoutUnit) : Prop where
  /-- No `defs`. -/
  unpadded : ∀ part ∈ units, part.isPadding = false
  /-- Each address of the window is written once, in increasing order. -/
  once : units.flatMap LayoutUnit.addresses = List.range' exporter.origin exporter.rom.length
  /-- The bytes written are the image. -/
  bytes : (units.flatMap LayoutUnit.addresses).map exporter.romByte = exporter.rom

/-- An instruction that starts inside another one ends inside one that starts before it. -/
def InstructionsNest (exporter : AsmExporter) : Prop :=
  ∀ instr ∈ exporter.runAnalysis,
    (∃ other ∈ exporter.runAnalysis, other.address.toNat < instr.address.toNat ∧
      instr.address.toNat < other.address.toNat + other.size) →
    ∃ other ∈ exporter.runAnalysis, other.address.toNat < instr.address.toNat ∧
      instr.address.toNat + instr.size ≤ other.address.toNat + other.size

end AsmExporter

end VectorDebugger
