import Mathlib.Logic.Relation
import VectorDebugger.Debugger.DebugAdapter
import VectorDebugger.Machine.PortWrites

/-!
# The sound mirror

The debug adapter follows the timer and the tape output for its sound window. It sees each write
when it is latched, before any device does, and decodes the protocol of the ports by itself.
-/

namespace VectorDebugger

/-- What `DebugAdapter` keeps for the sound window. -/
structure SoundMirror where
  /-- `ayDirty_`. -/
  ayDirty : Bool
  /-- `pc0Mirror_`. -/
  pc0Mirror : Int
  /-- `pc0TogglesTotal_`. -/
  pc0TogglesTotal : BitVec 64
  /-- `timerLatchModes_`. -/
  timerLatchModes : Fin 3 → Nat
  /-- `timerWriteStates_`. -/
  timerWriteStates : Fin 3 → Nat
  /-- `timerWriteLsb_`. -/
  timerWriteLsb : Fin 3 → Byte
  /-- `timerLoadValues_`. -/
  timerLoadValues : Fin 3 → Word
  /-- `timerModes_`. -/
  timerModes : Fin 3 → Nat
  /-- `timerDirty_`. -/
  timerDirty : Fin 3 → Bool

namespace SoundMirror

/-- The members of `DebugAdapter` as constructed. -/
def init : SoundMirror where
  ayDirty := false
  pc0Mirror := -1
  pc0TogglesTotal := 0
  timerLatchModes := fun _ => 3
  timerWriteStates := fun _ => 0
  timerWriteLsb := fun _ => 0
  timerLoadValues := fun _ => 0
  timerModes := fun _ => 0
  timerDirty := fun _ => false

/-- `newPC0` — the level that a write gives the tape output, or -1. -/
def newPC0 (port value : Byte) : Int :=
  if port = 0x01 then (value &&& 1).toNat
  else if port = 0x00 then
    if value &&& 0x80 = 0 then
      if (value >>> 1) &&& 7 = 0 then (value &&& 1).toNat else -1
    else 0
  else -1

/-- The part of the hook that counts transitions of the tape output. -/
def watchPC0 (mirror : SoundMirror) (port value : Byte) : SoundMirror :=
  let newPC0 := newPC0 port value
  if newPC0 ≠ -1 then
    { mirror with
      pc0TogglesTotal :=
        if newPC0 ≠ mirror.pc0Mirror then mirror.pc0TogglesTotal + 1 else mirror.pc0TogglesTotal
      pc0Mirror := newPC0 }
  else mirror

/-- A control word of the timer, for one of the three counters. -/
def watchControl (mirror : SoundMirror) (value : Byte) : SoundMirror :=
  let ctr := ((value >>> 6) &&& 3).toNat
  if inside : ctr < 3 then
    { mirror with
      timerLatchModes :=
        Function.update mirror.timerLatchModes ⟨ctr, inside⟩ ((value >>> 4) &&& 3).toNat
      timerModes := Function.update mirror.timerModes ⟨ctr, inside⟩ ((value >>> 1) &&& 7).toNat
      timerWriteStates := Function.update mirror.timerWriteStates ⟨ctr, inside⟩ 0 }
  else mirror

/-- A load value that is complete. -/
def loaded (mirror : SoundMirror) (ctr : Fin 3) (value : Word) : SoundMirror :=
  { mirror with
    timerLoadValues := Function.update mirror.timerLoadValues ctr value
    timerDirty := Function.update mirror.timerDirty ctr true }

/-- A write of one of the counters. -/
def watchCounter (mirror : SoundMirror) (ctr : Fin 3) (value : Byte) : SoundMirror :=
  let latch := mirror.timerLatchModes ctr
  if latch = 3 then
    if mirror.timerWriteStates ctr = 0 then
      { mirror with
        timerWriteLsb := Function.update mirror.timerWriteLsb ctr value
        timerWriteStates := Function.update mirror.timerWriteStates ctr 1 }
    else
      { mirror.loaded ctr (wordOf (mirror.timerWriteLsb ctr) value) with
        timerWriteStates := Function.update mirror.timerWriteStates ctr 0 }
  else if latch = 1 then mirror.loaded ctr (value.setWidth 16)
  else if latch = 2 then mirror.loaded ctr (wordOf 0 value)
  else mirror

/-- `io.onwrite`, without the record of raster events. -/
def onwrite (mirror : SoundMirror) (port value : Byte) : SoundMirror :=
  if port = 0x14 ∨ port = 0x15 then { mirror with ayDirty := true }
  else
    let watched := mirror.watchPC0 port value
    match port.toNat with
    | 0x08 => watched.watchControl value
    | 0x09 => watched.watchCounter 2 value
    | 0x0a => watched.watchCounter 1 value
    | 0x0b => watched.watchCounter 0 value
    | _ => watched

/-- The timer has no part in the tape output. -/
theorem watchControl_pc0 (mirror : SoundMirror) (value : Byte) :
    (mirror.watchControl value).pc0Mirror = mirror.pc0Mirror ∧
      (mirror.watchControl value).pc0TogglesTotal = mirror.pc0TogglesTotal := by
  unfold watchControl
  dsimp only
  split
  · exact ⟨rfl, rfl⟩
  · exact ⟨rfl, rfl⟩

theorem watchCounter_pc0 (mirror : SoundMirror) (ctr : Fin 3) (value : Byte) :
    (mirror.watchCounter ctr value).pc0Mirror = mirror.pc0Mirror ∧
      (mirror.watchCounter ctr value).pc0TogglesTotal = mirror.pc0TogglesTotal := by
  unfold watchCounter loaded
  dsimp only
  split_ifs <;> exact ⟨rfl, rfl⟩

/-- What the hook does to the mirror of the tape output. -/
theorem onwrite_pc0 (mirror : SoundMirror) (port value : Byte) :
    (mirror.onwrite port value).pc0Mirror = (mirror.watchPC0 port value).pc0Mirror ∧
      (mirror.onwrite port value).pc0TogglesTotal =
        (mirror.watchPC0 port value).pc0TogglesTotal := by
  unfold onwrite
  by_cases sound : port = 0x14 ∨ port = 0x15
  · have none : newPC0 port value = -1 := by
      rcases sound with rfl | rfl
      · rfl
      · rfl
    rw [if_pos sound]
    unfold watchPC0
    rw [none]
    exact ⟨rfl, rfl⟩
  · rw [if_neg sound]
    dsimp only
    split
    · exact watchControl_pc0 _ _
    · exact watchCounter_pc0 _ _ _
    · exact watchCounter_pc0 _ _ _
    · exact watchCounter_pc0 _ _ _
    · exact ⟨rfl, rfl⟩

end SoundMirror

/-- The level of the tape output as a number. -/
def levelOf (tapeOut : Bool) : Int := if tapeOut then 1 else 0

namespace Io

variable {δ : Type} [Chips δ]

theorem and_one (b : Byte) : b &&& 1 = (BitVec.ofBool (b.getLsbD 0)).setWidth 8 :=
  BitVec.and_one_eq_setWidth_ofBool_getLsbD

theorem low_bit (b : Byte) : (b &&& 1 != 0) = b.getLsbD 0 := by
  rw [and_one]
  cases b.getLsbD 0 <;> rfl

theorem low_bit_set (b : Byte) : (b &&& 1 == 1) = b.getLsbD 0 := by
  rw [and_one]
  cases b.getLsbD 0 <;> rfl

theorem low_bit_level (b : Byte) : ((b &&& 1).toNat : Int) = levelOf (b.getLsbD 0) := by
  rw [and_one]
  cases b.getLsbD 0 <;> rfl

omit [Chips δ] in
/-- The tape output is the lowest bit of port C. -/
theorem tapeOut_eq (io : Io δ) : io.tapeOut = io.pc.getLsbD 0 := low_bit io.pc

/-- The number of the bit that a bit command selects. -/
theorem selected_lt (w8 : Byte) : ((w8 >>> 1) &&& 7).toNat < 8 := by
  rw [BitVec.toNat_and]
  exact lt_of_le_of_lt Nat.and_le_right (by decide)

/-- A mask of one bit holds the lowest bit only if it selects that one. -/
theorem mask_low : ∀ n < 8, (((1 <<< n : Nat) : Byte)).getLsbD 0 = decide (n = 0) := by decide

omit [Chips δ] in
/-- A bit command changes the tape output only if it selects the lowest bit. -/
theorem bsr_level (io : Io δ) (w8 : Byte) :
    (io.bsr w8).tapeOut = if (w8 >>> 1) &&& 7 = 0 then w8.getLsbD 0 else io.tapeOut := by
  have zero : (w8 >>> 1) &&& 7 = 0 ↔ ((w8 >>> 1) &&& 7).toNat = 0 :=
    ⟨fun eq => congrArg BitVec.toNat eq, fun eq => BitVec.eq_of_toNat_eq eq⟩
  have mask := mask_low _ (selected_lt w8)
  rw [tapeOut_eq, tapeOut_eq, if_congr zero rfl rfl]
  unfold bsr
  dsimp only
  rw [low_bit_set]
  cases set : w8.getLsbD 0 with
  | true =>
    rw [if_pos rfl, BitVec.getLsbD_or, mask]
    split
    · rename_i selected
      rw [decide_eq_true selected, Bool.or_true]
    · rename_i other
      rw [decide_eq_false other, Bool.or_false]
  | false =>
    rw [if_neg Bool.false_ne_true, BitVec.getLsbD_and, BitVec.getLsbD_not, mask]
    split
    · rename_i selected
      rw [decide_eq_true selected]
      simp
    · rename_i other
      rw [decide_eq_false other]
      simp

/-- A write that reaches its device gives the tape output the level that the mirror decodes. -/
theorem realoutput_level (io : Io δ) (memory : Memory) (port w8 : Byte) :
    levelOf (io.realoutput memory port w8).io.tapeOut =
      if SoundMirror.newPC0 port w8 = -1 then levelOf io.tapeOut
      else SoundMirror.newPC0 port w8 := by
  have bit : ∀ b : Byte, ¬ ((b &&& 1).toNat : Int) = -1 := fun b => by omega
  by_cases direct : port = 0x01
  · subst direct
    have decoded : SoundMirror.newPC0 0x01 w8 = (w8 &&& 1).toNat := rfl
    rw [decoded, if_neg (bit w8), low_bit_level]
    exact congrArg levelOf (low_bit w8)
  by_cases control : port = 0x00
  · subst control
    by_cases command : w8 &&& 0x80 = 0
    · have done : (io.realoutput memory 0x00 w8).io = io.bsr w8 := by
        unfold realoutput
        rw [command]
        rfl
      have decoded : SoundMirror.newPC0 0x00 w8 =
          if (w8 >>> 1) &&& 7 = 0 then ((w8 &&& 1).toNat : Int) else -1 := by
        unfold SoundMirror.newPC0
        rw [if_neg (by decide), if_pos rfl, if_pos command]
      rw [done, bsr_level, decoded]
      split
      · rw [if_neg (bit w8), low_bit_level]
      · rw [if_pos rfl]
    · have done : (io.realoutput memory 0x00 w8).io = io.controlWord w8 := by
        unfold realoutput
        have other : (w8 &&& 0x80 == 0) = false := beq_eq_false_iff_ne.mpr command
        show (if (w8 &&& 0x80 == 0) = true then _ else _ : Commit δ).io = _
        rw [other]
        rfl
      have decoded : SoundMirror.newPC0 0x00 w8 = 0 := by
        unfold SoundMirror.newPC0
        rw [if_neg (by decide), if_pos rfl, if_neg command]
      have low : (io.controlWord w8).tapeOut = false :=
        (by decide : ((0 : Byte) &&& 1 != 0) = false)
      rw [done, decoded, low, if_neg (by decide)]
      rfl
  · have decoded : SoundMirror.newPC0 port w8 = -1 := by
      unfold SoundMirror.newPC0
      rw [if_neg direct, if_neg control]
    have kept : (io.realoutput memory port w8).io.pc = io.pc := by
      have first : port.toNat ≠ 0 := fun eq => control (BitVec.eq_of_toNat_eq eq)
      have second : port.toNat ≠ 1 := fun eq => direct (BitVec.eq_of_toNat_eq eq)
      unfold realoutput
      dsimp only
      split
      · contradiction
      · contradiction
      all_goals rfl
    rw [decoded, if_pos rfl, tapeOut_eq, tapeOut_eq, kept]

/-- A latched write that is committed. -/
theorem commit_level {io : Io δ} (memory : Memory) {port w8 : Byte}
    (latched : io.outport = some (port, w8)) :
    (io.commit memory).io.outport = none ∧
      levelOf (io.commit memory).io.tapeOut =
        if SoundMirror.newPC0 port w8 = -1 then levelOf io.tapeOut
        else SoundMirror.newPC0 port w8 := by
  unfold commit
  rw [latched]
  exact ⟨rfl, io.realoutput_level memory port w8⟩

/-- The two commits of an `OUT`. -/
theorem commits_level {io : Io δ} (memory : Memory) {port w8 : Byte}
    (latched : io.outport = some (port, w8)) :
    (io.commitPalette.2.commit memory).io.outport = none ∧
      levelOf (io.commitPalette.2.commit memory).io.tapeOut =
        if SoundMirror.newPC0 port w8 = -1 then levelOf io.tapeOut
        else SoundMirror.newPC0 port w8 := by
  cases waiting : io.palettebyte with
  | some colour =>
    rw [commitPalette_waiting waiting]
    exact commit_level memory latched
  | none =>
    by_cases first : port = 0x0c
    · subst first
      rw [commitPalette_latched waiting latched]
      exact ⟨rfl, rfl⟩
    · have other : ∀ w8, io.outport ≠ some (0x0c, w8) := by
        intro w8 same
        rw [latched] at same
        simp only [Option.some.injEq, Prod.mk.injEq] at same
        exact first same.1
      rw [commitPalette_other waiting other]
      exact commit_level memory latched

end Io

namespace Bus

variable {δ : Type} [Chips δ]

/-- Reading a port leaves port C. -/
theorem input_pc (io : Io δ) (port : Byte) : (io.input port).2.pc = io.pc := by
  unfold Io.input
  split <;> rfl

/-- An instruction itself leaves port C: an `OUT` only latches. -/
theorem exec_portC (bus : Bus δ) (instr : Instr) : (bus.exec instr).io.pc = bus.io.pc := by
  cases instr with
  | inPort => exact input_pc bus.io bus.fetchByte.1
  | rcc cc | jcc cc | ccc cc =>
    unfold exec
    dsimp only
    split <;>
      simp [setCpu, readAt, readWordAt, writeAt, writeWordAt, fetchWord, skipWord, jump, push,
        pop, call]
  | _ =>
    simp [exec, setCpu, readAt, readWordAt, writeAt, writeWordAt, rdByte, rdWord, fetchByte,
      fetchWord, wrByte, wrWord, skipWord, jump, push, pop, call, interrupt, ioOutput, Io.output]

end Bus

/-- The next instruction leaves port C until its write is committed. -/
theorem Machine.next_portC {δ : Type} [Chips δ] (machine : Machine δ) :
    machine.next.io.pc = machine.io.pc := by
  rw [machine.next_executed.2.2]
  exact Bus.exec_portC _ _

/-- The target with its mirror, and how many committed writes have changed the tape output. -/
structure Sounding (δ : Type) where
  /-- The board and the files. -/
  target : DebugAdapter δ
  /-- The mirror. -/
  mirror : SoundMirror
  /-- The committed writes that changed `IO::TapeOut`. -/
  changed : Nat

namespace Sounding

variable {δ : Type} [Chips δ]

/-- `IO::TapeOut`. -/
def tapeOut (sounding : Sounding δ) : Bool := sounding.target.board.machine.io.tapeOut

/-- The board changes, with at most one committed write. -/
def move (sounding : Sounding δ) (board : Board δ) : Sounding δ :=
  { sounding with
    target := { sounding.target with board }
    changed := sounding.changed + if board.machine.io.tapeOut = sounding.tapeOut then 0 else 1 }

/-- `io.onwrite` for writes. -/
def hear (sounding : Sounding δ) (writes : List (Byte × Byte)) : Sounding δ :=
  { sounding with
    mirror := writes.foldl (fun mirror write => mirror.onwrite write.1 write.2) sounding.mirror }

/-- `Board::single_step`. -/
def instruction (sounding : Sounding δ) (updateScreen : Bool) : Sounding δ :=
  (sounding.hear (latches sounding.target.board.machine.events)).move
    (sounding.target.board.singleStep updateScreen)

/-- `io.output` and `io.commit` outside an instruction. -/
def outputCommit (sounding : Sounding δ) (write : Byte × Byte) : Sounding δ :=
  (sounding.hear [write]).move (sounding.target.board.output write.1 write.2).commit

/-- `DebugAdapter::loadRom`. -/
def loadRom (sounding : Sounding δ) (path : Text) (org : Nat) : Sounding δ :=
  let romData := sounding.target.files path
  if romData = [] then sounding
  else
    let org := if org = 0 ∧ path.contains 0x2e then getRomLoadAddress path else org
    let loaded := ((sounding.target.board.initFromVector romData org).reset .loadrom 0).execute 0xf3
    DebugAdapter.bootInit.foldl outputCommit (sounding.move (loaded.jump 0).commit)

/-- One step: an instruction, a load, a reset, or anything that leaves the latch and port C. -/
inductive Step : Sounding δ → Sounding δ → Prop
  /-- `Board::single_step`. -/
  | instruction (sounding : Sounding δ) (updateScreen : Bool) :
    Step sounding (sounding.instruction updateScreen)
  /-- `DebugAdapter::loadRom`. -/
  | loadRom (sounding : Sounding δ) (path : Text) (org : Nat) :
    Step sounding (sounding.loadRom path org)
  /-- `DebugAdapter::reset`. -/
  | reset (sounding : Sounding δ) (attachBoot : Bool) :
    Step sounding { sounding with target := sounding.target.reset attachBoot }
  /-- Interrupts and the frame. -/
  | elsewhere (sounding : Sounding δ) (board : Board δ)
      (outport : board.machine.io.outport = sounding.target.board.machine.io.outport)
      (pc : board.machine.io.pc = sounding.target.board.machine.io.pc) :
    Step sounding { sounding with target := { sounding.target with board } }

/-- `DebugAdapter::init`. -/
def start (chips : δ) (boot : List Byte) (files : Text → List Byte) : Sounding δ :=
  let board := (Board.powerOn chips boot).reset .blkvvod 0
  { target := { board, syncedBreakpoints := [], files }
    mirror := { SoundMirror.init with pc0Mirror := levelOf board.machine.io.tapeOut }
    changed := 0 }

/-- Nothing waits in the latch, the mirror shows the tape output, and it has counted its
changes. -/
structure Heard (sounding : Sounding δ) : Prop where
  outport : sounding.target.board.machine.io.outport = none
  level : sounding.mirror.pc0Mirror = levelOf sounding.tapeOut
  total : sounding.mirror.pc0TogglesTotal = BitVec.ofNat 64 sounding.changed

/-- `DebugAdapter::loadRom`, seen from the target. -/
theorem loadRom_target (sounding : Sounding δ) (path : Text) (org : Nat) :
    (sounding.loadRom path org).target = (sounding.target.loadRom path org).1 := by
  have writes : ∀ (writes : List (Byte × Byte)) (sounding : Sounding δ),
      (writes.foldl outputCommit sounding).target =
        { sounding.target with
          board := writes.foldl (fun board write => (board.output write.1 write.2).commit)
            sounding.target.board } := by
    intro writes
    induction writes with
    | nil => exact fun sounding => rfl
    | cons write writes inductionHypothesis =>
      intro sounding
      rw [List.foldl_cons, inductionHypothesis, List.foldl_cons]
      rfl
  unfold loadRom DebugAdapter.loadRom
  dsimp only
  split
  · rfl
  · rw [writes]
    rfl

omit [Chips δ] in
theorem levelOf_inj {first second : Bool} : levelOf first = levelOf second ↔ first = second := by
  cases first <;> cases second <;> decide

omit [Chips δ] in
theorem Heard.changed_succ {sounding : Sounding δ} (heard : sounding.Heard) :
    sounding.mirror.pc0TogglesTotal + 1 = BitVec.ofNat 64 (sounding.changed + 1) := by
  rw [heard.total, BitVec.ofNat_add]
  rfl

omit [Chips δ] in
/-- A write that is heard and then committed keeps the mirror. -/
theorem Heard.write {sounding : Sounding δ} (heard : sounding.Heard) {port w8 : Byte}
    {board : Board δ} (emptied : board.machine.io.outport = none)
    (level : levelOf board.machine.io.tapeOut =
      if SoundMirror.newPC0 port w8 = -1 then levelOf sounding.tapeOut
      else SoundMirror.newPC0 port w8) :
    ((sounding.hear [(port, w8)]).move board).Heard := by
  obtain ⟨mirrored, counted⟩ := sounding.mirror.onwrite_pc0 port w8
  refine ⟨emptied, ?_, ?_⟩
  · change (sounding.mirror.onwrite port w8).pc0Mirror = levelOf board.machine.io.tapeOut
    rw [mirrored, level]
    unfold SoundMirror.watchPC0
    by_cases other : SoundMirror.newPC0 port w8 = -1
    · rw [if_neg (not_not.mpr other), if_pos other]
      exact heard.level
    · rw [if_pos other, if_neg other]
  · change (sounding.mirror.onwrite port w8).pc0TogglesTotal = BitVec.ofNat 64
      (sounding.changed + if board.machine.io.tapeOut = sounding.tapeOut then 0 else 1)
    rw [counted]
    unfold SoundMirror.watchPC0
    by_cases other : SoundMirror.newPC0 port w8 = -1
    · rw [if_pos other, levelOf_inj] at level
      rw [if_neg (not_not.mpr other), if_pos level]
      exact heard.total
    · rw [if_neg other] at level
      rw [if_pos other]
      dsimp only
      by_cases same : board.machine.io.tapeOut = sounding.tapeOut
      · have still : SoundMirror.newPC0 port w8 = sounding.mirror.pc0Mirror := by
          rw [← level, same, heard.level]
        rw [if_neg (not_not.mpr still), if_pos same]
        exact heard.total
      · have turned : SoundMirror.newPC0 port w8 ≠ sounding.mirror.pc0Mirror := by
          rw [← level, heard.level]
          exact fun eq => same (levelOf_inj.mp eq)
        rw [if_pos turned, if_neg same]
        exact heard.changed_succ

omit [Chips δ] in
/-- A change of the board that leaves the latch empty and the tape output alone. -/
theorem Heard.quiet {sounding : Sounding δ} (heard : sounding.Heard) {board : Board δ}
    (emptied : board.machine.io.outport = none)
    (same : board.machine.io.tapeOut = sounding.tapeOut) : (sounding.move board).Heard := by
  refine ⟨emptied, ?_, ?_⟩
  · exact heard.level.trans (congrArg levelOf same.symm)
  · change sounding.mirror.pc0TogglesTotal = BitVec.ofNat 64 (sounding.changed + if _ then 0 else 1)
    rw [if_pos same]
    exact heard.total

theorem Heard.outputCommit {sounding : Sounding δ} (heard : sounding.Heard)
    (write : Byte × Byte) : (sounding.outputCommit write).Heard := by
  have committed := (sounding.target.board.machine.io.output write.1 write.2).commit_level
    sounding.target.board.machine.memory rfl
  exact heard.write committed.1 committed.2

theorem Heard.instruction {sounding : Sounding δ} (heard : sounding.Heard)
    (updateScreen : Bool) : (sounding.instruction updateScreen).Heard := by
  obtain ⟨waiting, latched, reported⟩ := sounding.target.board.machine.next_latch
  have drawn := (sounding.target.board.singleStep_pictured updateScreen).2.2
  have chips : ∀ (io : Io δ) (tape : Bool) (instrTime : Nat),
      (Board.chipsAfter io tape instrTime).outport = io.outport ∧
        (Board.chipsAfter io tape instrTime).tapeOut = io.tapeOut := by
    intro io tape instrTime
    unfold Board.chipsAfter
    dsimp only
    split
    · exact ⟨rfl, rfl⟩
    · exact ⟨rfl, rfl⟩
  have quiet := chips (sounding.target.board.picturing updateScreen).1.io
    (sounding.target.board.frameNo > 60) sounding.target.board.pendingCycles
  rw [← drawn] at quiet
  have before : sounding.target.board.ready.io.tapeOut = sounding.tapeOut :=
    congrArg (· &&& 1 != 0) sounding.target.board.machine.next_portC
  unfold Sounding.instruction
  rw [reported]
  by_cases out : sounding.target.board.machine.opcode = 0xd3
  · rw [if_pos out] at latched ⊢
    have same := (sounding.target.board.singleStep_out updateScreen out).1.io
    rw [Screen.commits_io] at same
    have committed := sounding.target.board.ready.io.commits_level
      sounding.target.board.ready.memory latched
    refine heard.write (quiet.1.trans ?_) ?_
    · rw [same]
      exact committed.1
    · rw [quiet.2, same, committed.2, before]
  · rw [if_neg out] at latched ⊢
    have same := (sounding.target.board.singleStep_other updateScreen out).1.io
    rw [same] at quiet
    exact heard.quiet (quiet.1.trans (latched.trans heard.outport)) (quiet.2.trans before)

theorem Heard.loadRom {sounding : Sounding δ} (heard : sounding.Heard) (path : Text) (org : Nat) :
    (sounding.loadRom path org).Heard := by
  have writes : ∀ (writes : List (Byte × Byte)) {sounding : Sounding δ}, sounding.Heard →
      (writes.foldl Sounding.outputCommit sounding).Heard := by
    intro writes
    induction writes with
    | nil => exact id
    | cons write writes inductionHypothesis =>
      exact fun heard => inductionHypothesis (heard.outputCommit write)
  unfold Sounding.loadRom
  dsimp only
  split
  · exact heard
  · apply writes
    have idle : ∀ (io : Io δ) (memory : Memory), io.outport = none →
        (io.commit memory).io = io := by
      intro io memory none
      unfold Io.commit
      rw [none]
    -- Nothing waits, so the first commit of a load does nothing.
    have done := idle { sounding.target.board.machine.io with
      chips := Chips.soundReset sounding.target.board.machine.io.chips }
    refine heard.quiet ?_ ?_
    · exact (congrArg Io.outport (done _ heard.outport)).trans heard.outport
    · exact (congrArg Io.tapeOut (done _ heard.outport)).trans rfl

/-- Every step keeps the mirror. -/
theorem Heard.step {sounding next : Sounding δ} (heard : sounding.Heard)
    (step : Step sounding next) : next.Heard := by
  cases step with
  | instruction updateScreen => exact heard.instruction updateScreen
  | loadRom path org => exact heard.loadRom path org
  | reset attachBoot =>
    cases attachBoot with
    | true => exact ⟨heard.outport, heard.level, heard.total⟩
    | false => exact ⟨heard.outport, heard.level, heard.total⟩
  | elsewhere board outport pc =>
    refine ⟨outport.trans heard.outport, heard.level.trans ?_, heard.total⟩
    exact congrArg (fun pc : Byte => levelOf (pc &&& 1 != 0)) pc.symm

/-- In every run from the initialisation of the debugger, every write is committed after each step,
the mirror shows the tape output, and it has counted the committed writes that changed it. -/
theorem mirror_tapeOut (chips : δ) (boot : List Byte) (files : Text → List Byte)
    {final : Sounding δ} (run : Relation.ReflTransGen Step (start chips boot files) final) :
    final.target.board.machine.io.outport = none ∧
      final.mirror.pc0Mirror = levelOf final.tapeOut ∧
        final.mirror.pc0TogglesTotal = BitVec.ofNat 64 final.changed := by
  have heard : final.Heard := by
    induction run with
    | refl => exact ⟨rfl, rfl, rfl⟩
    | tail _ step inductionHypothesis => exact inductionHypothesis.step step
  exact ⟨heard.outport, heard.level, heard.total⟩

/-- The transition of a load, which clears port C. -/
theorem mirror_tapeOut_load :
    ((start () [] fun _ => [0]).loadRom [] 0x100).mirror.pc0TogglesTotal =
      BitVec.ofNat 64 ((start () [] fun _ => [0]).loadRom [] 0x100).changed :=
  (mirror_tapeOut () [] _ (.single (.loadRom _ [] 0x100))).2.2

end Sounding

end VectorDebugger
