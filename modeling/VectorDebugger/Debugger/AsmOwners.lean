import VectorDebugger.Debugger.AsmLayout
import VectorDebugger.Debugger.AsmText

/-!
# Who owns a byte of the image

`buildLayout` gives every byte of the window to an instruction, to a data unit or to nobody, for
whatever instructions the analysis has left and however the objects of the database overlap each
other, the instructions and the edges of the window; `computeCoverage` counts what it finds. An
object that is split by bytes that have an owner already becomes several units. Only the unit at
the object's address gets its name, the others get a generated label. A database may hold that very
label as a name.
-/

namespace VectorDebugger

namespace AsmExporter

/-! ### Names -/

/-- `isdigit` in the C locale. -/
def isDigit (c : Byte) : Bool := 0x30 ≤ c && c ≤ 0x39

/-- `isalnum` in the C locale. -/
def isAlnum (c : Byte) : Bool := isAlpha c || isDigit c

/-- `sanitizeLabel`. -/
def sanitizeLabel (name : Text) : Text :=
  let result := name.map fun c => if isAlnum c || c == 0x5f then c else 0x5f
  if result.head?.any isDigit then 0x5f :: result else result

/-- `generateLabel`. -/
def generateLabel (address : Word) : Text :=
  ascii "label_" ++ Disassembler.fmtHex address.toNat 4

/-! ### `buildLayout` and `computeCoverage` -/

/-- What `runAnalysis` leaves to the layout. -/
structure AnalysisResult (exporter : AsmExporter) where
  /-- `analysis_.instructions`, clipped to the window. -/
  instructions : List AnalyzedInstruction
  /-- `analysis_.instructionCount`. -/
  instructionCount : Nat
  /-- `droppedOutsideWindow_`. -/
  droppedOutsideWindow : Nat
  /-- The instructions lie in the window. -/
  clipped : ∀ instr ∈ instructions, exporter.inWindow instr = true

/-- A data unit with its name and comment. -/
structure NamedUnit extends AsmDataUnit where
  /-- `name`. -/
  name : Text
  /-- `comment`. -/
  comment : Text
  /-- The object of the loop that makes the unit; no member of `AsmDataUnit`. -/
  object : RdbObject

/-- What `buildLayout` leaves. -/
structure Layout where
  /-- `owner_`. -/
  owner : List Owner
  /-- `dataUnits_`. -/
  units : List NamedUnit
  /-- `nameCollisions_`. -/
  collisions : List (Word × Text)

/-- `baseName`. -/
def baseName (obj : RdbObject) : Text :=
  if obj.name = [] then generateLabel obj.address else sanitizeLabel obj.name

/-- The unit of a run of bytes. -/
def unitOfRun (exporter : AsmExporter) (obj : RdbObject) (first : Bool) (run : Nat × Nat) :
    NamedUnit where
  address := BitVec.ofNat 16 (exporter.origin + run.1)
  size := run.2
  name :=
    if first = true ∧ exporter.origin + run.1 = obj.address.toNat then baseName obj
    else generateLabel (BitVec.ofNat 16 (exporter.origin + run.1))
  comment := obj.comment
  object := obj

/-- The units of an object. -/
def unitsOfRuns (exporter : AsmExporter) (obj : RdbObject) : List (Nat × Nat) → List NamedUnit
  | [] => []
  | run :: rest => exporter.unitOfRun obj true run :: rest.map (exporter.unitOfRun obj false)

/-- The object is named, and somebody owns one of its bytes. -/
def collides (owner : List Owner) (obj : RdbObject) (off stop : Nat) : Bool :=
  !obj.name.isEmpty && (List.range' off (stop - off)).any fun k => owner[k]? != some .gap

/-- The body of the second loop of `buildLayout`. -/
def buildObject (exporter : AsmExporter) (layout : Layout) (obj : RdbObject) : Layout :=
  if isCodeObject obj then layout
  else if obj.address.toNat < exporter.origin ∨
      layout.owner.length ≤ obj.address.toNat - exporter.origin then layout
  else
    let off := obj.address.toNat - exporter.origin
    let stop := exporter.objectStop layout.owner obj
    let claimed := claimRuns stop (stop - off) layout.owner off
    { owner := claimed.1
      units := layout.units ++ exporter.unitsOfRuns obj claimed.2
      collisions :=
        layout.collisions ++
          if collides layout.owner obj off stop then [(obj.address, baseName obj)] else [] }

/-- The objects in the order of their addresses. -/
def sortedObjects (exporter : AsmExporter) : List RdbObject :=
  if exporter.hasRdb then
    exporter.rdb.listObjects.insertionSort (fun a b => a.address.toNat ≤ b.address.toNat)
  else []

/-- After the first loop of `buildLayout`. An empty image has no bytes to own, and the early return
of the source changes nothing. -/
def ownCode (exporter : AsmExporter) (instructions : List AnalyzedInstruction) : List Owner :=
  instructions.foldl exporter.ownInstruction (List.replicate exporter.rom.length .gap)

/-- `buildLayout`. -/
def buildLayout (exporter : AsmExporter) (instructions : List AnalyzedInstruction) : Layout :=
  exporter.sortedObjects.foldl exporter.buildObject
    { owner := exporter.ownCode instructions, units := [], collisions := [] }

/-- `AsmCoverage`. -/
structure AsmCoverage where
  /-- `romBytes`. -/
  romBytes : Nat
  /-- `instructionCount`. -/
  instructionCount : Nat
  /-- `outsideWindowDropped`. -/
  outsideWindowDropped : Nat
  /-- `codeBytes`. -/
  codeBytes : Nat
  /-- `dataBytes`. -/
  dataBytes : Nat
  /-- `uncovered` — the first and the last address of each range. -/
  uncovered : List (Word × Word)

/-- A range of `uncovered` from its offsets. -/
def gapRange (exporter : AsmExporter) (gap : Nat × Nat) : Word × Word :=
  (BitVec.ofNat 16 (exporter.origin + gap.1), BitVec.ofNat 16 (exporter.origin + gap.2))

/-- The loop of `computeCoverage`. -/
def coverageFrom (exporter : AsmExporter) (owner : List Owner) :
    Nat → Nat → AsmCoverage → AsmCoverage
  | 0, _, cov => cov
  | fuel + 1, i, cov =>
    if i < owner.length then
      if owner[i]? = some .code then
        exporter.coverageFrom owner fuel (i + 1) { cov with codeBytes := cov.codeBytes + 1 }
      else if owner[i]? = some .data then
        exporter.coverageFrom owner fuel (i + 1) { cov with dataBytes := cov.dataBytes + 1 }
      else
        let j := gapEnd owner (owner.length - i) i
        exporter.coverageFrom owner fuel j
          { cov with uncovered := cov.uncovered ++ [exporter.gapRange (i, j - 1)] }
    else cov

/-- `computeCoverage`. -/
def computeCoverage (exporter : AsmExporter) (analysis : exporter.AnalysisResult) : AsmCoverage :=
  let owner := (exporter.buildLayout analysis.instructions).owner
  exporter.coverageFrom owner owner.length 0
    { romBytes := exporter.rom.length
      instructionCount := analysis.instructionCount
      outsideWindowDropped := analysis.droppedOutsideWindow
      codeBytes := 0
      dataBytes := 0
      uncovered := [] }

/-! ### What the layout should be -/

/-- The address holds a byte of the instruction. -/
def InstrHas (instr : AnalyzedInstruction) (a : Nat) : Prop :=
  instr.address.toNat ≤ a ∧ a < instr.address.toNat + instr.size

/-- The address holds a byte of the unit. -/
def UnitHas (part : AsmDataUnit) (a : Nat) : Prop :=
  part.address.toNat ≤ a ∧ a < part.address.toNat + part.size

/-- An instruction or a data unit has the byte. -/
def Owned (exporter : AsmExporter) (analysis : exporter.AnalysisResult) (a : Nat) : Prop :=
  (∃ instr ∈ analysis.instructions, InstrHas instr a) ∨
    ∃ part ∈ (exporter.buildLayout analysis.instructions).units, UnitHas part.toAsmDataUnit a

/-- A maximal run of bytes of the window that nobody owns. -/
structure MaximalGap (exporter : AsmExporter) (analysis : exporter.AnalysisResult)
    (gap : Word × Word) : Prop where
  /-- The run lies in the window. -/
  inside : exporter.origin ≤ gap.1.toNat ∧ gap.1.toNat ≤ gap.2.toNat ∧
    gap.2.toNat < exporter.winEnd
  /-- Nobody owns a byte of it. -/
  free : ∀ a, gap.1.toNat ≤ a → a ≤ gap.2.toNat → ¬exporter.Owned analysis a
  /-- Somebody owns the byte before it, or the window starts with it. -/
  before : exporter.origin < gap.1.toNat → exporter.Owned analysis (gap.1.toNat - 1)
  /-- Somebody owns the byte after it, or the window ends with it. -/
  after : gap.2.toNat + 1 < exporter.winEnd → exporter.Owned analysis (gap.2.toNat + 1)

/-- A unit that has the own name of its object starts at the address of the object. -/
def WellNamed (part : NamedUnit) : Prop :=
  part.object.name ≠ [] → part.name = sanitizeLabel part.object.name →
    part.address = part.object.address

/-- Every byte has one owner, the books balance, and no name is moved. -/
structure OneOwner (exporter : AsmExporter) (analysis : exporter.AnalysisResult) : Prop where
  /-- No two data units share a byte. -/
  apart : (exporter.buildLayout analysis.instructions).units.Pairwise
    fun one other => ∀ a, UnitHas one.toAsmDataUnit a → ¬UnitHas other.toAsmDataUnit a
  /-- No data unit shares a byte with an instruction. -/
  data : ∀ part ∈ (exporter.buildLayout analysis.instructions).units,
    ∀ instr ∈ analysis.instructions, ∀ a, UnitHas part.toAsmDataUnit a → ¬InstrHas instr a
  /-- The data units lie in the window. -/
  inside : ∀ part ∈ (exporter.buildLayout analysis.instructions).units,
    exporter.origin ≤ part.address.toNat ∧ 0 < part.size ∧
      part.address.toNat + part.size ≤ exporter.winEnd
  /-- The ranges of the coverage are maximal runs of bytes that nobody owns. -/
  gaps : ∀ gap ∈ (exporter.computeCoverage analysis).uncovered, exporter.MaximalGap analysis gap
  /-- Each such byte is in one of the ranges. -/
  found : ∀ a, exporter.origin ≤ a → a < exporter.winEnd → ¬exporter.Owned analysis a →
    ∃ gap ∈ (exporter.computeCoverage analysis).uncovered, gap.1.toNat ≤ a ∧ a ≤ gap.2.toNat
  /-- No two ranges share a byte. -/
  once : (exporter.computeCoverage analysis).uncovered.Pairwise
    fun one other => one.2.toNat < other.1.toNat ∨ other.2.toNat < one.1.toNat
  /-- All bytes are counted. -/
  total : (exporter.computeCoverage analysis).codeBytes +
      (exporter.computeCoverage analysis).dataBytes +
      ((exporter.computeCoverage analysis).uncovered.map
        fun gap => gap.2.toNat + 1 - gap.1.toNat).sum =
    (exporter.computeCoverage analysis).romBytes
  /-- Names stay at the addresses of their objects. -/
  named : ∀ part ∈ (exporter.buildLayout analysis.instructions).units, WellNamed part

/-! ### When a name is moved -/

/-- The offset at which the object ends, clipped to the image. The address of the end is a 32-bit
sum. -/
def objectEnd (exporter : AsmExporter) (obj : RdbObject) : Nat :=
  min exporter.rom.length
    (BitVec.ofNat 32 obj.address.toNat + (if obj.size = 0 then 1 else obj.size) -
      BitVec.ofNat 32 exporter.origin).toNat

/-- The offset is one of a data object, clipped to the image. -/
structure Spans (exporter : AsmExporter) (obj : RdbObject) (k : Nat) : Prop where
  /-- The bytes are not those of instructions. -/
  data : isCodeObject obj = false
  /-- The object starts in the window. -/
  start : exporter.origin ≤ obj.address.toNat ∧
    obj.address.toNat - exporter.origin < exporter.rom.length
  /-- The offset is not before the object. -/
  from' : obj.address.toNat - exporter.origin ≤ k
  /-- Nor after it. -/
  upto : k < exporter.objectEnd obj

/-- No instruction and none of these objects has the byte. -/
structure FreeBefore (exporter : AsmExporter) (instructions : List AnalyzedInstruction)
    (done : List RdbObject) (k : Nat) : Prop where
  /-- The image has the byte. -/
  bound : k < exporter.rom.length
  /-- No instruction has it. -/
  code : ∀ instr ∈ instructions, ¬InstrHas instr (exporter.origin + k)
  /-- None of the objects has it. -/
  objects : ∀ obj ∈ done, ¬exporter.Spans obj k

/-- The own name of the object is the generated label of an address inside it at which its bytes
are free again, after a byte that an instruction or an earlier object has. -/
def NamedAsLater (exporter : AsmExporter) (instructions : List AnalyzedInstruction)
    (done : List RdbObject) (obj : RdbObject) : Prop :=
  obj.name ≠ [] ∧ ∃ k, exporter.Spans obj k ∧ exporter.FreeBefore instructions done k ∧
    obj.address.toNat < exporter.origin + k ∧
    ¬exporter.FreeBefore instructions done (k - 1) ∧
    sanitizeLabel obj.name = generateLabel (BitVec.ofNat 16 (exporter.origin + k))

/-! ### The runs of an object -/

section Runs

variable {owner : List Owner}

/-- A run ends where the object ends or where somebody owns the next byte. -/
theorem claimRun_stop (stop fuel : Nat) : ∀ (owner : List Owner) (off : Nat), stop ≤ off + fuel →
    (claimRun stop fuel owner off).2 ≤ max off stop ∧
      (stop ≤ (claimRun stop fuel owner off).2 ∨
        owner[(claimRun stop fuel owner off).2]? ≠ some .gap) := by
  induction fuel with
  | zero =>
    intro owner off enough
    unfold claimRun
    dsimp only
    omega
  | succ fuel inductionHypothesis =>
    intro owner off enough
    unfold claimRun
    by_cases free : off < stop ∧ owner[off]? = some .gap
    · rw [if_pos free]
      have further := (claimRun_spec stop fuel (owner.set off .data) (off + 1)).1
      obtain ⟨bound, rest⟩ := inductionHypothesis (owner.set off .data) (off + 1) (by omega)
      rw [List.getElem?_set_ne (by omega)] at rest
      exact ⟨by omega, rest⟩
    · rw [if_neg free]
      dsimp only
      refine ⟨by omega, ?_⟩
      by_cases more : off < stop
      · right
        intro gap
        exact free ⟨more, gap⟩
      · left
        omega

/-- The loop over an object takes its free bytes and leaves the others. -/
theorem claimRuns_owner (stop fuel : Nat) : ∀ (owner : List Owner) (off : Nat),
    stop ≤ off + fuel → ∀ k, (claimRuns stop fuel owner off).1[k]? =
      if off ≤ k ∧ k < stop ∧ owner[k]? = some .gap then some .data else owner[k]? := by
  induction fuel with
  | zero =>
    intro owner off enough k
    unfold claimRuns
    rw [if_neg (by omega)]
  | succ fuel inductionHypothesis =>
    intro owner off enough k
    unfold claimRuns
    by_cases more : off < stop
    · rw [if_pos more]
      by_cases free : owner[off]? = some .gap
      · rw [if_pos free]
        have further := claimRun_lt free more
        have ended := (claimRun_stop stop (stop - off) owner off (by omega)).1
        obtain ⟨-, -, gaps, now⟩ := claimRun_spec stop (stop - off) owner off
        dsimp only
        generalize claimRun stop (stop - off) owner off = run at *
        rw [inductionHypothesis run.1 run.2 (by omega) k, now k]
        by_cases inside : off ≤ k ∧ k < run.2
        · have gap := gaps k inside.1 inside.2
          rw [if_pos inside, if_neg (by omega), if_pos ⟨inside.1, by omega, gap⟩]
        · rw [if_neg inside]
          by_cases gap : owner[k]? = some .gap
          · by_cases later : run.2 ≤ k ∧ k < stop
            · rw [if_pos ⟨later.1, later.2, gap⟩, if_pos ⟨by omega, later.2, gap⟩]
            · rw [if_neg (by omega), if_neg (by omega)]
          · rw [if_neg (fun all => gap all.2.2), if_neg (fun all => gap all.2.2)]
      · rw [if_neg free, inductionHypothesis owner (off + 1) (by omega) k]
        by_cases gap : owner[k]? = some .gap
        · have elsewhere : k ≠ off := by
            intro here
            rw [here] at gap
            exact free gap
          by_cases later : off + 1 ≤ k ∧ k < stop
          · rw [if_pos ⟨later.1, later.2, gap⟩, if_pos ⟨by omega, later.2, gap⟩]
          · rw [if_neg (by omega), if_neg (by omega)]
        · rw [if_neg (fun all => gap all.2.2), if_neg (fun all => gap all.2.2)]
    · rw [if_neg more, if_neg (by omega)]

/-- A run starts at a free byte of the object that is its first or follows one that is not free. -/
theorem mem_claimRuns_start (stop fuel : Nat) : ∀ (owner : List Owner) (off : Nat),
    stop ≤ off + fuel → ∀ k, (∃ run ∈ (claimRuns stop fuel owner off).2, run.1 = k) ↔
      off ≤ k ∧ k < stop ∧ owner[k]? = some .gap ∧ (k = off ∨ owner[k - 1]? ≠ some .gap) := by
  induction fuel with
  | zero =>
    intro owner off enough k
    unfold claimRuns
    constructor
    · rintro ⟨run, listed, -⟩
      cases listed
    · omega
  | succ fuel inductionHypothesis =>
    intro owner off enough k
    unfold claimRuns
    by_cases more : off < stop
    · rw [if_pos more]
      by_cases free : owner[off]? = some .gap
      · rw [if_pos free]
        have further := claimRun_lt free more
        have ended := claimRun_stop stop (stop - off) owner off (by omega)
        obtain ⟨-, -, gaps, now⟩ := claimRun_spec stop (stop - off) owner off
        dsimp only
        generalize claimRun stop (stop - off) owner off = run at *
        have rest := inductionHypothesis run.1 run.2 (by omega) k
        rw [now k, now (k - 1)] at rest
        constructor
        · rintro ⟨other, listed, rfl⟩
          obtain here | later := List.mem_cons.mp listed
          · rw [here]
            exact ⟨Nat.le_refl off, more, free, .inl rfl⟩
          · obtain ⟨low, high, gap, start⟩ := rest.mp ⟨other, later, rfl⟩
            rw [if_neg (by omega)] at gap
            -- A run that starts right where the first one has ended would have continued it.
            have beyond : other.1 ≠ run.2 := by
              intro same
              rw [same] at gap high
              obtain past | taken := ended.2
              · omega
              · exact taken gap
            obtain same | before := start
            · exact absurd same beyond
            · rw [if_neg (by omega)] at before
              exact ⟨by omega, high, gap, .inr before⟩
        · rintro ⟨low, high, gap, start⟩
          by_cases here : k = off
          · exact ⟨_, List.mem_cons_self, here.symm⟩
          · obtain same | before := start
            · exact absurd same here
            · have beyond : run.2 ≤ k - 1 := by
                by_contra inside
                exact before (gaps (k - 1) (by omega) (by omega))
              have started : ∃ other ∈ (claimRuns stop fuel run.1 run.2).2, other.1 = k := by
                apply rest.mpr
                rw [if_neg (by omega), if_neg (by omega)]
                exact ⟨by omega, high, gap, .inr before⟩
              obtain ⟨other, listed, start⟩ := started
              exact ⟨other, List.mem_cons_of_mem _ listed, start⟩
      · rw [if_neg free, inductionHypothesis owner (off + 1) (by omega) k]
        constructor
        · rintro ⟨low, high, gap, start⟩
          refine ⟨by omega, high, gap, .inr ?_⟩
          obtain same | before := start
          · rw [same]
            exact free
          · exact before
        · rintro ⟨low, high, gap, start⟩
          have elsewhere : k ≠ off := by
            intro here
            rw [here] at gap
            exact free gap
          obtain same | before := start
          · exact absurd same elsewhere
          · exact ⟨by omega, high, gap, .inr before⟩
    · rw [if_neg more]
      constructor
      · rintro ⟨run, listed, -⟩
        cases listed
      · omega

end Runs

/-! ### Object by object -/

section Objects

variable {exporter : AsmExporter} {instructions : List AnalyzedInstruction}

theorem objectStop_eq {owner : List Owner} (length : owner.length = exporter.rom.length)
    (obj : RdbObject) : exporter.objectStop owner obj = exporter.objectEnd obj := by
  unfold objectStop objectEnd
  dsimp only
  rw [length]
  generalize BitVec.ofNat 32 obj.address.toNat + (if obj.size = 0 then 1 else obj.size) -
    BitVec.ofNat 32 exporter.origin = stop
  split
  · omega
  · omega

theorem ownCode_spec (clipped : ∀ instr ∈ instructions, exporter.inWindow instr = true) :
    (exporter.ownCode instructions).length = exporter.rom.length ∧
      ∀ k, ((exporter.ownCode instructions)[k]? = some .code ↔ k < exporter.rom.length ∧
          ∃ instr ∈ instructions, InstrHas instr (exporter.origin + k)) ∧
        (exporter.ownCode instructions)[k]? ≠ some .data := by
  have low : ∀ instr ∈ instructions, exporter.origin ≤ instr.address.toNat := by
    intro instr listed
    have inside := clipped instr listed
    unfold inWindow at inside
    rw [Bool.and_eq_true, decide_eq_true_eq] at inside
    exact inside.1
  obtain ⟨length, now⟩ := exporter.foldl_ownInstruction instructions low
    (List.replicate exporter.rom.length .gap)
  rw [List.length_replicate] at length now
  have gap : ∀ (k : Nat) who,
      (List.replicate exporter.rom.length Owner.gap)[k]? = some who → who = .gap :=
    fun k who found => List.eq_of_mem_replicate (List.mem_of_getElem? found)
  refine ⟨length, fun k => ?_⟩
  obtain ⟨code, data⟩ := now k
  constructor
  · constructor
    · intro owned
      obtain wrong | inside := code.mp owned
      · cases gap k _ wrong
      · exact inside
    · intro inside
      exact code.mpr (.inr inside)
  · intro wrong
    cases gap k _ (data wrong)

theorem freeBefore_append {done : List RdbObject} {obj : RdbObject} {k : Nat} :
    exporter.FreeBefore instructions (done ++ [obj]) k ↔
      exporter.FreeBefore instructions done k ∧ ¬exporter.Spans obj k := by
  constructor
  · intro free
    have earlier : ∀ other ∈ done, ¬exporter.Spans other k := fun other listed =>
      free.objects other (List.mem_append_left _ listed)
    have last := free.objects obj (List.mem_append_right _ (List.mem_singleton_self obj))
    exact ⟨⟨free.bound, free.code, earlier⟩, last⟩
  · rintro ⟨free, last⟩
    refine ⟨free.bound, free.code, ?_⟩
    intro other listed
    obtain known | new := List.mem_append.mp listed
    · exact free.objects other known
    · rw [List.mem_singleton.mp new]
      exact last

/-- The data of a run. -/
def runUnit (exporter : AsmExporter) (run : Nat × Nat) : AsmDataUnit where
  address := BitVec.ofNat 16 (exporter.origin + run.1)
  size := run.2

/-- What the loop over the objects has built from those it is through with. -/
structure Built (exporter : AsmExporter) (instructions : List AnalyzedInstruction)
    (done : List RdbObject) (layout : Layout) : Prop where
  /-- The units are the runs that data has claimed. -/
  runs : ∃ runs : List (Nat × Nat),
    layout.units.map (·.toAsmDataUnit) = runs.map exporter.runUnit ∧
      Claimed (exporter.ownCode instructions) layout.owner runs
  /-- A byte is free until an instruction or an object takes it. -/
  free : ∀ k : Nat, layout.owner[k]? = some .gap ↔ exporter.FreeBefore instructions done k

theorem Built.length {done : List RdbObject} {layout : Layout}
    (clipped : ∀ instr ∈ instructions, exporter.inWindow instr = true)
    (built : exporter.Built instructions done layout) :
    layout.owner.length = exporter.rom.length := by
  obtain ⟨runs, _, claimed⟩ := built.runs
  exact claimed.length.trans (ownCode_spec clipped).1

theorem unitsOfRuns_data (obj : RdbObject) (runs : List (Nat × Nat)) :
    (exporter.unitsOfRuns obj runs).map (·.toAsmDataUnit) = runs.map exporter.runUnit := by
  cases runs with
  | nil => rfl
  | cons run rest =>
    unfold unitsOfRuns
    rw [List.map_cons, List.map_map, List.map_cons]
    rfl

theorem built_nil (clipped : ∀ instr ∈ instructions, exporter.inWindow instr = true) :
    exporter.Built instructions []
      { owner := exporter.ownCode instructions, units := [], collisions := [] } := by
  obtain ⟨length, now⟩ := ownCode_spec clipped
  constructor
  · refine ⟨[], rfl, ?_⟩
    constructor
    · rfl
    · exact fun _ => Iff.rfl
    · intro run listed
      cases listed
    · intro run listed
      cases listed
    · intro k data
      exact absurd data (now k).2
    · exact List.Pairwise.nil
  · intro k
    obtain ⟨code, data⟩ := now k
    dsimp only
    constructor
    · intro gap
      have bound := (List.getElem?_eq_some_iff.mp gap).1
      rw [length] at bound
      refine ⟨bound, ?_, ?_⟩
      · intro instr listed has
        have taken := code.mpr ⟨bound, instr, listed, has⟩
        rw [gap] at taken
        cases taken
      · intro obj listed
        cases listed
    · intro free
      have bound : k < (exporter.ownCode instructions).length := by
        rw [length]
        exact free.bound
      have here := List.getElem?_eq_getElem bound
      cases who : (exporter.ownCode instructions)[k] with
      | gap => rw [here, who]
      | data =>
        rw [who] at here
        exact absurd here data
      | code =>
        rw [who] at here
        obtain ⟨_, instr, listed, has⟩ := code.mp here
        exact absurd has (free.code instr listed)

/-- The object is skipped: it has no bytes to claim. -/
theorem Built.skip {done : List RdbObject} {layout : Layout} {obj : RdbObject}
    (built : exporter.Built instructions done layout) (none : ∀ k, ¬exporter.Spans obj k) :
    exporter.Built instructions (done ++ [obj]) layout := by
  refine ⟨built.runs, ?_⟩
  intro k
  rw [built.free k, freeBefore_append]
  exact ⟨fun free => ⟨free, none k⟩, And.left⟩

/-- The object claims its free bytes. -/
theorem Built.object {done : List RdbObject} {layout : Layout}
    (clipped : ∀ instr ∈ instructions, exporter.inWindow instr = true)
    (built : exporter.Built instructions done layout) (obj : RdbObject) :
    exporter.Built instructions (done ++ [obj]) (exporter.buildObject layout obj) := by
  have length := built.length clipped
  unfold buildObject
  by_cases code : isCodeObject obj = true
  · rw [if_pos code]
    apply built.skip
    intro k spans
    rw [spans.data] at code
    cases code
  · rw [if_neg code]
    by_cases outside : obj.address.toNat < exporter.origin ∨
        layout.owner.length ≤ obj.address.toNat - exporter.origin
    · rw [if_pos outside]
      apply built.skip
      intro k spans
      have start := spans.start
      omega
    · rw [if_neg outside]
      obtain ⟨runs, same, claimed⟩ := built.runs
      constructor
      · refine ⟨_, ?_, claimed.claimRuns _ _ _ _ _⟩
        dsimp only
        rw [List.map_append, List.map_append, same, unitsOfRuns_data]
      · intro k
        dsimp only
        rw [claimRuns_owner _ _ _ _ (by omega) k, freeBefore_append, ← built.free k,
          objectStop_eq length]
        have spans_iff : exporter.Spans obj k ↔
            obj.address.toNat - exporter.origin ≤ k ∧ k < exporter.objectEnd obj := by
          constructor
          · intro spans
            exact ⟨spans.from', spans.upto⟩
          · rintro ⟨low, high⟩
            exact ⟨Bool.eq_false_iff.mpr code, by omega, low, high⟩
        rw [spans_iff]
        split
        · rename_i taken
          constructor
          · intro wrong
            cases wrong
          · rintro ⟨_, away⟩
            exact absurd ⟨taken.1, taken.2.1⟩ away
        · rename_i left
          constructor
          · intro gap
            refine ⟨gap, ?_⟩
            rintro ⟨low, high⟩
            exact left ⟨low, high, gap⟩
          · exact And.left

theorem Built.objects (clipped : ∀ instr ∈ instructions, exporter.inWindow instr = true)
    (rest : List RdbObject) : ∀ (done : List RdbObject) (layout : Layout),
      exporter.Built instructions done layout →
        exporter.Built instructions (done ++ rest) (rest.foldl exporter.buildObject layout) := by
  induction rest with
  | nil =>
    intro done layout built
    rw [List.append_nil]
    exact built
  | cons obj rest inductionHypothesis =>
    intro done layout built
    have whole := inductionHypothesis _ _ (built.object clipped obj)
    rw [List.append_assoc, List.singleton_append] at whole
    exact whole

/-! ### Whose name a unit has -/

/-- The unit of a run has the own name of its object elsewhere exactly when the generated label of
the run is that name. -/
theorem wellNamed_unitOfRun (fits : exporter.winEnd ≤ 0x10000) (obj : RdbObject) (first : Bool)
    {run : Nat × Nat} (bound : run.1 < exporter.rom.length) :
    WellNamed (exporter.unitOfRun obj first run) ↔
      ¬(obj.name ≠ [] ∧ exporter.origin + run.1 ≠ obj.address.toNat ∧
        sanitizeLabel obj.name =
          generateLabel (BitVec.ofNat 16 (exporter.origin + run.1))) := by
  have address := toNat_address fits bound
  unfold WellNamed unitOfRun
  dsimp only
  by_cases here : exporter.origin + run.1 = obj.address.toNat
  · constructor
    · rintro _ ⟨_, elsewhere, _⟩
      exact elsewhere here
    · intro _ _ _
      apply BitVec.eq_of_toNat_eq
      rw [address, here]
  · rw [if_neg (fun both => here both.2)]
    constructor
    · rintro well ⟨named, _, same⟩
      have moved := well named same.symm
      rw [← moved, address] at here
      exact here rfl
    · intro apart named same
      exact absurd ⟨named, here, same.symm⟩ apart

theorem mem_unitsOfRuns {obj : RdbObject} {runs : List (Nat × Nat)} {part : NamedUnit}
    (listed : part ∈ exporter.unitsOfRuns obj runs) :
    ∃ first, ∃ run ∈ runs, part = exporter.unitOfRun obj first run := by
  cases runs with
  | nil => cases listed
  | cons run rest =>
    obtain here | later := List.mem_cons.mp listed
    · exact ⟨true, run, List.mem_cons_self, here⟩
    · obtain ⟨other, known, same⟩ := List.mem_map.mp later
      exact ⟨false, other, List.mem_cons_of_mem _ known, same.symm⟩

theorem unitOfRun_mem {obj : RdbObject} {runs : List (Nat × Nat)} {run : Nat × Nat}
    (listed : run ∈ runs) : ∃ first, exporter.unitOfRun obj first run ∈
      exporter.unitsOfRuns obj runs := by
  cases runs with
  | nil => cases listed
  | cons other rest =>
    obtain here | later := List.mem_cons.mp listed
    · rw [here]
      exact ⟨true, List.mem_cons_self⟩
    · exact ⟨false, List.mem_cons_of_mem _ (List.mem_map_of_mem later)⟩

/-- One object adds a misplaced name exactly if its own name is the label of one of its later
runs. -/
theorem named_object (fits : exporter.winEnd ≤ 0x10000)
    (clipped : ∀ instr ∈ instructions, exporter.inWindow instr = true) {done : List RdbObject}
    {layout : Layout} (built : exporter.Built instructions done layout) (obj : RdbObject) :
    (∀ part ∈ (exporter.buildObject layout obj).units, WellNamed part) ↔
      (∀ part ∈ layout.units, WellNamed part) ∧ ¬exporter.NamedAsLater instructions done obj := by
  have length := built.length clipped
  have skipped : (∀ k, ¬exporter.Spans obj k) → ((∀ part ∈ layout.units, WellNamed part) ↔
      (∀ part ∈ layout.units, WellNamed part) ∧
        ¬exporter.NamedAsLater instructions done obj) := by
    intro none
    constructor
    · intro well
      refine ⟨well, ?_⟩
      rintro ⟨_, k, spans, _⟩
      exact none k spans
    · exact And.left
  unfold buildObject
  by_cases code : isCodeObject obj = true
  · rw [if_pos code]
    apply skipped
    intro k spans
    rw [spans.data] at code
    cases code
  · rw [if_neg code]
    by_cases outside : obj.address.toNat < exporter.origin ∨
        layout.owner.length ≤ obj.address.toNat - exporter.origin
    · rw [if_pos outside]
      apply skipped
      intro k spans
      have start := spans.start
      omega
    · rw [if_neg outside, objectStop_eq length]
      dsimp only
      have starts := mem_claimRuns_start (exporter.objectEnd obj)
        (exporter.objectEnd obj - (obj.address.toNat - exporter.origin)) layout.owner
        (obj.address.toNat - exporter.origin) (by omega)
      generalize (claimRuns (exporter.objectEnd obj)
        (exporter.objectEnd obj - (obj.address.toNat - exporter.origin)) layout.owner
        (obj.address.toNat - exporter.origin)).2 = runs at starts ⊢
      have inImage : exporter.objectEnd obj ≤ exporter.rom.length := Nat.min_le_left _ _
      rw [List.forall_mem_append]
      apply and_congr_right
      intro _
      constructor
      · rintro well ⟨named, k, spans, free, past, blocked, same⟩
        have started : ∃ run ∈ runs, run.1 = k := by
          apply (starts k).mpr
          refine ⟨spans.from', spans.upto, (built.free k).mpr free, .inr ?_⟩
          rw [Ne, built.free (k - 1)]
          exact blocked
        obtain ⟨run, listed, rfl⟩ := started
        obtain ⟨first, member⟩ := @unitOfRun_mem exporter obj runs run listed
        have bound : run.1 < exporter.rom.length := free.bound
        exact (wellNamed_unitOfRun fits obj first bound).mp (well _ member)
          ⟨named, by omega, same⟩
      · intro calm part listed
        obtain ⟨first, run, known, rfl⟩ := mem_unitsOfRuns listed
        obtain ⟨low, high, gap, start⟩ := (starts run.1).mp ⟨run, known, rfl⟩
        apply (wellNamed_unitOfRun fits obj first (by omega)).mpr
        rintro ⟨named, elsewhere, same⟩
        obtain here | blocked := start
        · omega
        · rw [Ne, built.free] at blocked
          exact calm ⟨named, run.1, ⟨Bool.eq_false_iff.mpr code, by omega, low, high⟩,
            (built.free run.1).mp gap, by omega, blocked, same⟩

/-- No object adds a misplaced name. -/
theorem named_objects (fits : exporter.winEnd ≤ 0x10000)
    (clipped : ∀ instr ∈ instructions, exporter.inWindow instr = true) (rest : List RdbObject) :
    ∀ (done : List RdbObject) (layout : Layout), exporter.Built instructions done layout →
      ((∀ part ∈ (rest.foldl exporter.buildObject layout).units, WellNamed part) ↔
        (∀ part ∈ layout.units, WellNamed part) ∧ ∀ front obj back, rest = front ++ obj :: back →
          ¬exporter.NamedAsLater instructions (done ++ front) obj) := by
  induction rest with
  | nil =>
    intro done layout built
    constructor
    · intro well
      refine ⟨well, ?_⟩
      intro front obj back split
      exact absurd split.symm (List.append_ne_nil_of_right_ne_nil _ (List.cons_ne_nil _ _))
    · exact And.left
  | cons obj rest inductionHypothesis =>
    intro done layout built
    rw [List.foldl_cons, inductionHypothesis _ _ (built.object clipped obj),
      named_object fits clipped built obj, and_assoc]
    apply and_congr_right
    intro _
    constructor
    · rintro ⟨first, others⟩ front other back split
      cases front with
      | nil =>
        obtain ⟨rfl, _⟩ := List.cons.inj split
        rw [List.append_nil]
        exact first
      | cons head front =>
        obtain ⟨rfl, tail⟩ := List.cons.inj split
        have later := others front other back tail
        rw [List.append_assoc, List.singleton_append] at later
        exact later
    · intro all
      constructor
      · have first := all [] obj rest rfl
        rw [List.append_nil] at first
        exact first
      · intro front other back split
        have later := all (obj :: front) other back (by rw [split]; rfl)
        rw [List.append_assoc, List.singleton_append]
        exact later

end Objects

end AsmExporter

end VectorDebugger
