import Mathlib.Data.List.Dedup
import Mathlib.Data.List.Sort
import VectorDebugger.Debugger.RdbText
import VectorDebugger.Machine.BeamTime

/-!
# The debug adapter

`DebugAdapter` is the debugger's target: it drives the board, keeps the board's breakpoints in
step with those of the debugger, and loads programs. A frame is observed through the callbacks
it fires; `frameEvents` lists them in the order of `frameLoop`.
-/

namespace VectorDebugger

namespace Board

variable {δ : Type} [Chips δ]

/-- The callbacks of `Board::check_interrupt`: `RST 7` pushes the program counter. -/
def interruptEvents (board : Board δ) : List BusEvent :=
  let lowered := board.interrupt false
  let resumed :=
    if board.lastOpcode = 0x76 then lowered.jump (lowered.machine.cpu.pc + 1) else lowered
  if board.acceptsInterrupt then (resumed.machine.bus.i8080Execute 0xff).2.events else []

/-- The callbacks of the loop of `Board::execute_frame`. -/
def frameLoopEvents (updateScreen : Bool) : Nat → Board δ → List BusEvent
  | 0, _ => []
  | fuel + 1, board =>
    if board.beam.brk || board.debuggerInterrupt then []
    else
      let begun := board.beginIteration
      board.interruptEvents ++
        if begun.debugging && begun.checkBreakpoint then []
        else begun.machine.events ++ frameLoopEvents updateScreen fuel (begun.singleStep updateScreen)

/-- The callbacks of `Board::execute_frame`. -/
def frameEvents (board : Board δ) (updateScreen : Bool) : List BusEvent :=
  if board.debuggerInterrupt then []
  else board.startFrame.frameLoopEvents updateScreen frameFuel

/-- `Memory::init_from_vector`. -/
def initFromVector (board : Board δ) (data : List Byte) (startAddr : Nat) : Board δ :=
  let memory := board.machine.memory
  let cleared : Nat → Byte := fun phys =>
    if startAddr < 65536 then (if phys < 65536 then 0 else memory.bytes phys)
    else if startAddr ≤ phys ∧ phys < Memory.totalMemory then 0 else memory.bytes phys
  let stored := data.zipIdx.foldl (fun bytes entry =>
    let phys := Memory.tobank (startAddr + entry.2)
    if phys < Memory.totalMemory then Function.update bytes phys entry.1 else bytes) cleared
  { board with machine := { board.machine with memory := { memory with bytes := stored } } }

/-- `i8080_execute` of an opcode that is not in memory. -/
def execute (board : Board δ) (opcode : Byte) : Board δ :=
  { board with machine := (board.machine.bus.i8080Execute opcode).2.toMachine }

/-- `IO::output` outside an instruction. -/
def output (board : Board δ) (port value : Byte) : Board δ :=
  { board with
    machine := { board.machine with io := board.machine.io.output port value } }

/-- `IO::commit` outside a fill. -/
def commit (board : Board δ) : Board δ := board.setScreen board.screen.commit

end Board

/-- `RegisterId`, as the register numbers of `writeCpuRegister`. -/
inductive RegisterId
  | af | bc | de | hl | sp | pc
deriving DecidableEq, Repr

/-- `DebuggerBreakpoint`. -/
structure DebuggerBreakpoint where
  /-- `address`. -/
  address : Word
  /-- `enabled`. -/
  enabled : Bool
deriving DecidableEq, Repr

/-- `DebugAdapter`. -/
structure DebugAdapter (δ : Type) where
  /-- `board`. -/
  board : Board δ
  /-- `syncedBreakpoints_`. -/
  syncedBreakpoints : List Word
  /-- The files that `util::load_binfile` finds, empty for those it does not. -/
  files : Text → List Byte

/-- `std::tolower` on one byte. -/
def toLower (c : Byte) : Byte := if 0x41 ≤ c ∧ c ≤ 0x5a then c + 0x20 else c

/-- `getRomLoadAddress`: `.rom` loads at `0100h`, `.rNm` at `N00h`, anything else at zero. -/
def getRomLoadAddress (path : Text) : Nat :=
  if path.contains 0x2e then
    match (path.reverse.takeWhile (· ≠ 0x2e)).reverse.map toLower with
    | [r, n, m] =>
      if [r, n, m] = [0x72, 0x6f, 0x6d] then 0x0100
      else if r = 0x72 ∧ 0x30 ≤ n ∧ n ≤ 0x39 ∧ m = 0x6d then (n.toNat - 0x30) * 0x0100
      else 0
    | _ => 0
  else 0

namespace DebugAdapter

variable {δ : Type} [Chips δ]

/-- `DebugAdapter::peekMemory`. -/
def peekMemory (target : DebugAdapter δ) (addr : Word) : Byte :=
  target.board.machine.memory.peek addr.toNat false

/-- `getCpuState().pc`. -/
def pc (target : DebugAdapter δ) : Word := target.board.machine.cpu.pc

/-- `getCpuState().sp`. -/
def sp (target : DebugAdapter δ) : Word := target.board.machine.cpu.sp

/-- `DebugAdapter::writeMemory`, with the callback it fires. -/
def writeMemory (target : DebugAdapter δ) (addr : Word) (value : Byte) :
    DebugAdapter δ × List BusEvent :=
  let written := target.board.machine.bus.writeAt addr.toNat value false
  ({ target with board := { target.board with machine := written.toMachine } }, written.events)

/-- `DebugAdapter::writeCpuRegister`. -/
def writeCpuRegister (target : DebugAdapter δ) (reg : RegisterId) (value : Word) :
    DebugAdapter δ :=
  let cpu := target.board.machine.cpu
  let written : I8080 := match reg with
    | .af => { cpu with a := value.high, f := value.low }
    | .bc => { cpu with b := value.high, c := value.low }
    | .de => { cpu with d := value.high, e := value.low }
    | .hl => { cpu with h := value.high, l := value.low }
    | .sp => { cpu with sp := value }
    | .pc => { cpu with pc := value }
  { target with
    board := { target.board with machine := { target.board.machine with cpu := written } } }

/-- `DebugAdapter::writeIoPort`. -/
def writeIoPort (target : DebugAdapter δ) (port value : Byte) : DebugAdapter δ :=
  { target with board := target.board.output port value }

/-- `DebugAdapter::stepInstruction`. -/
def stepInstruction (target : DebugAdapter δ) : DebugAdapter δ :=
  { target with board := target.board.singleStep true }

/-- `DebugAdapter::executeFrame` after the poll callback, with the board at each instruction it
executed. -/
def executeFrame (target : DebugAdapter δ) : List (Board δ) × DebugAdapter δ :=
  let done := (target.board.executeFrame true).get (target.board.executeFrame_isSome true)
  (done.1, { target with board := done.2 })

theorem executeFrame_eq (target : DebugAdapter δ) :
    target.board.executeFrame true = some (target.executeFrame.1, target.executeFrame.2.board) :=
  (Option.some_get (target.board.executeFrame_isSome true)).symm

/-- `DebugAdapter::reset`. -/
def reset (target : DebugAdapter δ) (attachBoot : Bool) : DebugAdapter δ :=
  { target with
    board :=
      if attachBoot then (target.board.reset .blkvvod 0).interrupt false
      else target.board.reset .blksbr 0 }

/-- `debuggerBreak`. -/
def debuggerBreak (target : DebugAdapter δ) : DebugAdapter δ :=
  { target with board := target.board.debuggerBreak }

/-- `debuggerContinue`. -/
def debuggerContinue (target : DebugAdapter δ) : DebugAdapter δ :=
  { target with board := target.board.debuggerContinue }

/-- `debuggerAttached`. -/
def debuggerAttached (target : DebugAdapter δ) : DebugAdapter δ :=
  { target with board := target.board.debuggerAttached }

/-- `debuggerDetached`. -/
def debuggerDetached (target : DebugAdapter δ) : DebugAdapter δ :=
  { target with board := target.board.debuggerDetached }

/-- The set of enabled addresses, in order. -/
def enabledAddresses (bps : List DebuggerBreakpoint) : List Word :=
  ((bps.filter (·.enabled)).map (·.address)).dedup.insertionSort (fun a b => a.toNat ≤ b.toNat)

/-- Membership in a list of addresses is decided by their equality. -/
local instance wordLawfulBEq : LawfulBEq Word := inferInstance

/-- `DebugAdapter::syncBreakpoints`. -/
def syncBreakpoints (target : DebugAdapter δ) (bps : List DebuggerBreakpoint) :
    DebugAdapter δ :=
  let newAddresses := enabledAddresses bps
  let removed := (target.syncedBreakpoints.filter (· ∉ newAddresses)).foldl
    (fun board addr => board.removeBreakpoint addr.toNat 1) target.board
  let inserted := (newAddresses.filter (· ∉ target.syncedBreakpoints)).foldl
    (fun board addr => board.insertBreakpoint addr.toNat 1) removed
  { target with board := inserted, syncedBreakpoints := newAddresses }

/-- The port writes of `boots.bin` that `DebugAdapter::loadRom` repeats. -/
def bootInit : List (Byte × Byte) :=
  [(0x04, 0x9b), (0x00, 0x88), (0x08, 0xa8), (0x08, 0x68), (0x08, 0x28)]

/-- `DebugAdapter::loadRom`, with its result. -/
def loadRom (target : DebugAdapter δ) (path : Text) (org : Nat) : DebugAdapter δ × Bool :=
  let romData := target.files path
  if romData = [] then (target, false)
  else
    let org := if org = 0 ∧ path.contains 0x2e then getRomLoadAddress path else org
    let loaded := ((target.board.initFromVector romData org).reset .loadrom 0).execute 0xf3
    let silenced := bootInit.foldl (fun board write => (board.output write.1 write.2).commit)
      (loaded.jump 0).commit
    ({ target with board := silenced }, true)

end DebugAdapter

end VectorDebugger
