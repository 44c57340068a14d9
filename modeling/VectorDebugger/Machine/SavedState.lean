import Mathlib.Data.List.GetD
import Mathlib.Tactic.IntervalCases
import VectorDebugger.Machine.Alike
import VectorDebugger.Machine.StateFile

/-!
# Saved machine states

What `Board::deserialize` makes of what `Board::serialize` wrote, whatever state it is restored
into. Processor, memory, ports and interrupt lines come back. The copies of port B that the filler
keeps do not, and neither does what waits in the latches or in the chips behind the ports.
-/

namespace VectorDebugger

theorem ofBytes32_bytes32 (value : BitVec 32) :
    ofBytes32 (value.setWidth 8) ((value >>> 8).setWidth 8) ((value >>> 16).setWidth 8)
      ((value >>> 24).setWidth 8) = value := by
  unfold ofBytes32
  apply BitVec.eq_of_getLsbD_eq
  intro i inside
  simp only [BitVec.getLsbD_append, BitVec.getLsbD_setWidth, BitVec.getLsbD_ushiftRight]
  by_cases first : i < 8
  · simp [first]
  · by_cases second : i - 8 < 8
    · simp [first, second, show 8 + (i - 8) = i by omega]
    · by_cases third : i - 8 - 8 < 8
      · simp [first, second, third, show 16 + (i - 8 - 8) = i by omega]
      · simp [first, second, third, show i - 8 - 8 - 8 < 8 by omega,
          show 24 + (i - 8 - 8 - 8) = i by omega]

theorem wordOf_low_high (word : Word) : wordOf word.low word.high = word := by
  unfold wordOf Word.low Word.high
  apply BitVec.eq_of_getLsbD_eq
  intro i inside
  simp only [BitVec.getLsbD_append, BitVec.getLsbD_setWidth, BitVec.getLsbD_ushiftRight]
  by_cases first : i < 8
  · simp [first]
  · simp [first, show i - 8 < 8 by omega, show 8 + (i - 8) = i by omega]

@[simp] theorem I8080.cell_ne_zero (flag : Bool) : (I8080.cell flag != 0) = flag := by
  cases flag <;> decide

/-- The chunk that was inserted is taken. -/
theorem takeChunk_insertChunk (id : ChunkId) (chunk rest : List Byte)
    (small : chunk.length < 2 ^ 32) :
    takeChunk (insertChunk id chunk ++ rest) =
      some { signature := id.signature, size := chunk.length, begin' := chunk ++ rest } := by
  have size : (BitVec.ofNat 32 chunk.length).toNat = chunk.length := by
    rw [BitVec.toNat_ofNat, Nat.mod_eq_of_lt small]
  unfold insertChunk bytes32
  simp only [List.cons_append, List.nil_append, takeChunk, ofBytes32_bytes32, size]

namespace Board

variable {δ : Type}

/-- Restoring an inserted chunk, and going on after it. -/
theorem deserialize_insertChunk (board : Board δ) (id : ChunkId) (chunk rest : List Byte)
    (small : chunk.length < 2 ^ 32) (filled : chunk.length ≠ 0) {restored : Board δ}
    (read : board.restore id (chunk ++ rest) chunk.length = some restored) :
    board.deserialize (insertChunk id chunk ++ rest) = restored.deserialize rest := by
  have inside : ¬(chunk ++ rest).length < chunk.length := by
    rw [List.length_append]
    omega
  rw [deserialize_take board (takeChunk_insertChunk id chunk rest small), if_neg filled,
    ChunkId.ofSignature_signature]
  dsimp only
  rw [read, Option.bind_some, if_neg inside, List.drop_left]

end Board

namespace Memory

/-- The registers of the memory fit their bytes in the chunk: pages are numbered from zero, each
64 KiB long. -/
structure Storable (mem : Memory) : Prop where
  /-- `page_map`. -/
  map : ∃ page < 256, mem.pageMap = page <<< 16
  /-- `page_stack`. -/
  stack : ∃ page < 256, mem.pageStack = page <<< 16
  /-- The size of the chunk is a 32-bit number. -/
  boot : mem.bootbytes.length < 2 ^ 31

/-- The memory is storable when it is switched on, and the control port keeps it so. -/
theorem storable_init (bootbytes : List Byte) (short : bootbytes.length < 2 ^ 31) :
    Storable { init with bootbytes } :=
  ⟨⟨0, by decide, rfl⟩, ⟨0, by decide, rfl⟩, short⟩

theorem Storable.controlWrite {mem : Memory} (storable : mem.Storable) (w8 : Byte) :
    (mem.controlWrite w8).Storable := by
  refine ⟨⟨(w8 &&& 3).toNat + 1, ?_, rfl⟩, ⟨((w8 &&& 0xc) >>> 2).toNat + 1, ?_, rfl⟩,
    storable.boot⟩
  · have bound : (w8 &&& 3).toNat ≤ 3 := by
      rw [BitVec.toNat_and]
      exact Nat.and_le_right
    omega
  · have bound : ((w8 &&& 0xc) >>> 2).toNat ≤ (w8 &&& 0xc).toNat := by
      rw [BitVec.toNat_ushiftRight, Nat.shiftRight_eq_div_pow]
      exact Nat.div_le_self _ _
    have masked : (w8 &&& 0xc).toNat ≤ 12 := by
      rw [BitVec.toNat_and]
      exact Nat.and_le_right
    omega

theorem length_serialize (mem : Memory) :
    mem.serialize.length = 5 + totalMemory + mem.bootbytes.length := by
  unfold serialize
  rw [List.length_append, List.length_append, List.length_map, List.length_range]
  rfl

/-- A page number is read back. -/
theorem page_readBack {base page : Nat} (small : page < 256) (paged : base = page <<< 16) :
    (BitVec.ofNat 8 (base >>> 16)).toNat <<< 16 = base := by
  have number : base >>> 16 = page := by
    rw [paged, Nat.shiftLeft_eq, Nat.shiftRight_eq_div_pow]
    exact Nat.mul_div_cancel _ (by decide)
  rw [number, BitVec.toNat_ofNat, Nat.mod_eq_of_lt small, paged]

/-- A chunk with all the cells of the memory. -/
theorem deserialize_cells (other : Memory) (modeStack modeMap pageMap pageStack banks : Byte)
    (cells boot rest : List Byte) (counted : 65536 * banks.toNat = cells.length)
    (whole : totalMemory = cells.length) :
    other.deserialize
        (modeStack :: modeMap :: pageMap :: pageStack :: banks :: (cells ++ (boot ++ rest)))
        (5 + cells.length + boot.length) =
      some
        { bytes := fun i => if i < cells.length then cells.getD i 0 else other.bytes i
          modeStack := modeStack != 0
          modeMap := modeMap != 0
          pageMap := pageMap.toNat <<< 16
          pageStack := pageStack.toNat <<< 16
          bootbytes := boot } := by
  unfold deserialize
  dsimp only
  rw [counted, whole, Nat.min_self, if_pos]
  · have kept : ((cells ++ (boot ++ rest)).drop cells.length).take
        (5 + cells.length + boot.length - 5 - cells.length) = boot := by
      have size : 5 + cells.length + boot.length - 5 - cells.length = boot.length := by omega
      rw [List.drop_left, size, List.take_left]
    have bytes : (fun i => if i < cells.length then (cells ++ (boot ++ rest)).getD i 0
        else other.bytes i) = fun i => if i < cells.length then cells.getD i 0
          else other.bytes i := by
      funext i
      by_cases inside : i < cells.length
      · rw [if_pos inside, if_pos inside, List.getD_append _ _ _ _ inside]
      · rw [if_neg inside, if_neg inside]
    rw [kept, bytes]
  · simp only [List.length_cons, List.length_append]
    omega

/-- The memory that is read back, over another. -/
theorem deserialize_serialize {mem : Memory} (storable : mem.Storable) (other : Memory)
    (rest : List Byte) :
    other.deserialize (mem.serialize ++ rest) mem.serialize.length =
      some { mem with
        bytes := fun i => if i < totalMemory then mem.bytes i else other.bytes i } := by
  obtain ⟨page, small, map⟩ := storable.map
  obtain ⟨page', small', stack⟩ := storable.stack
  have stored : totalMemory = ((List.range totalMemory).map mem.bytes).length := by
    rw [List.length_map, List.length_range]
  have banks : 65536 * (BitVec.ofNat 8 (totalMemory / 65536)).toNat = totalMemory := by decide
  have written : mem.serialize ++ rest =
      (if mem.modeStack then 1 else 0) :: (if mem.modeMap then 1 else 0) ::
        BitVec.ofNat 8 (mem.pageMap >>> 16) :: BitVec.ofNat 8 (mem.pageStack >>> 16) ::
          BitVec.ofNat 8 (totalMemory / 65536) ::
            ((List.range totalMemory).map mem.bytes ++ (mem.bootbytes ++ rest)) := by
    unfold serialize
    rw [List.append_assoc, List.append_assoc]
    simp only [List.cons_append, List.nil_append]
  have bytes : (fun i => if i < totalMemory then ((List.range totalMemory).map mem.bytes).getD i 0
      else other.bytes i) = fun i => if i < totalMemory then mem.bytes i else other.bytes i := by
    funext i
    by_cases inside : i < totalMemory
    · rw [if_pos inside, if_pos inside, List.getD_eq_getElem _ _ (stored ▸ inside),
        List.getElem_map, List.getElem_range]
    · rw [if_neg inside, if_neg inside]
  have modes : ∀ flag : Bool, ((if flag = true then (1 : Byte) else 0) != 0) = flag := by
    intro flag
    cases flag <;> decide
  have read := other.deserialize_cells (if mem.modeStack then 1 else 0)
    (if mem.modeMap then 1 else 0) (BitVec.ofNat 8 (mem.pageMap >>> 16))
    (BitVec.ofNat 8 (mem.pageStack >>> 16)) (BitVec.ofNat 8 (totalMemory / 65536))
    ((List.range totalMemory).map mem.bytes) mem.bootbytes rest (banks.trans stored) stored
  rw [← stored, page_readBack small map, page_readBack small' stack, modes, modes, bytes] at read
  rw [length_serialize, written]
  exact read

end Memory

/-- The colours that are read back, over another table. -/
theorem Palette.deserialize_serialize (palette other : Palette) (rest : List Byte) :
    other.deserialize (palette.serialize ++ rest) =
      { other with
        colours := fun i => if i < 16 then palette.colours i else other.colours i } := by
  unfold deserialize
  congr 1
  funext i
  by_cases inside : i < 16
  · rw [if_pos inside, if_pos inside]
    refine Eq.trans ?_ (ofBytes32_bytes32 (palette.colours i))
    interval_cases i <;> rfl
  · rw [if_neg inside, if_neg inside]

/-- The counters of the processor fit their bytes. -/
structure I8080.Storable (cpu : I8080) : Prop where
  /-- `ei_pending`. -/
  eiPending : cpu.eiPending < 256
  /-- `cpu_cycles`. -/
  cpuCycles : cpu.cpuCycles < 256

/-- The processor is read back. -/
theorem I8080.deserialize_serialize {cpu : I8080} (storable : cpu.Storable) (rest : List Byte) :
    I8080.deserialize (cpu.serialize ++ rest) = some cpu := by
  have long : ¬(cpu.serialize ++ rest).length < 26 := by
    rw [List.length_append]
    change ¬26 + rest.length < 26
    omega
  have iff' : (wordOf (cell cpu.iff) 0 != 0) = cpu.iff := by
    cases cpu.iff <;> decide
  unfold deserialize
  rw [if_neg long]
  unfold serialize
  simp only [List.cons_append, List.getD_cons_zero, List.getD_cons_succ, cell_ne_zero,
    wordOf_low_high, BitVec.toNat_ofNat, Nat.mod_eq_of_lt storable.eiPending,
    Nat.mod_eq_of_lt storable.cpuCycles, iff']

namespace Board

variable {δ : Type}

/-- The values of a board fit their bytes in a state file. -/
structure Storable (board : Board δ) : Prop where
  /-- Those of the memory. -/
  memory : board.machine.memory.Storable
  /-- Those of the processor. -/
  cpu : board.machine.cpu.Storable

/-- A board over another that a file has been read into: what the four readers store is that of the
first, and everything else that of the second. -/
def restoredInto (board other : Board δ) : Board δ :=
  { other with
    machine :=
      { cpu := board.machine.cpu
        memory :=
          { board.machine.memory with
            bytes := fun i =>
              if i < Memory.totalMemory then board.machine.memory.bytes i
              else other.machine.memory.bytes i }
        io :=
          { board.machine.io with
            outport := other.machine.io.outport
            palettebyte := other.machine.io.palettebyte
            chips := other.machine.io.chips }
        inte := board.machine.inte
        irq := board.machine.irq }
    palette :=
      { other.palette with
        colours := fun i =>
          if i < 16 then board.palette.colours i else other.palette.colours i }
    irqCarry := board.irqCarry }

theorem restore_memory (board : Board δ) {begin' : List Byte} {size : Nat} {memory : Memory}
    (read : board.machine.memory.deserialize begin' size = some memory) :
    board.restore .memory begin' size =
      some { board with machine := { board.machine with memory } } := by
  unfold restore
  dsimp only
  rw [read]
  rfl

/-- A saved state is read back, over whatever state. -/
theorem deserialize_serialize {board : Board δ} (storable : board.Storable) (other : Board δ) :
    other.deserialize board.serialize = some (board.restoredInto other, true) := by
  have boot := storable.memory.boot
  have total : Memory.totalMemory = 327680 := by decide
  have small : board.machine.memory.serialize.length < 2 ^ 32 := by
    rw [Memory.length_serialize, total]
    omega
  have filled : board.machine.memory.serialize.length ≠ 0 := by
    rw [Memory.length_serialize]
    omega
  have colours : board.palette.serialize.length = 64 := rfl
  unfold serialize
  rw [List.append_assoc, List.append_assoc]
  generalize lines : insertChunk .board board.serializeSelf = last
  generalize registers : insertChunk .cpu board.machine.cpu.serialize = third
  generalize ports : insertChunk .io (board.palette.serialize ++ board.machine.io.serialize) =
    second
  have first := other.restore_memory (Memory.deserialize_serialize storable.memory
    other.machine.memory (second ++ (third ++ last)))
  rw [deserialize_insertChunk other .memory _ _ small filled first]
  rw [← ports]
  have next : ∀ state : Board δ, state.restore .io
      (board.palette.serialize ++ board.machine.io.serialize ++ (third ++ last))
      (board.palette.serialize ++ board.machine.io.serialize).length = some
        { state with
          machine := { state.machine with
            io := { board.machine.io with
              outport := state.machine.io.outport
              palettebyte := state.machine.io.palettebyte
              chips := state.machine.io.chips } }
          palette := { state.palette with
            colours := fun i =>
              if i < 16 then board.palette.colours i else state.palette.colours i } } := by
    intro state
    unfold restore
    dsimp only
    rw [List.append_assoc, Palette.deserialize_serialize,
      List.drop_append_of_le_length (Nat.le_of_eq colours.symm),
      List.drop_eq_nil_of_le (Nat.le_of_eq colours)]
    rfl
  have length : (board.palette.serialize ++ board.machine.io.serialize).length = 73 := by
    rw [List.length_append, colours]
    rfl
  rw [deserialize_insertChunk _ .io _ _ (by rw [length]; decide) (by rw [length]; decide) (next _)]
  rw [← registers]
  have third' : ∀ state : Board δ, state.restore .cpu
      (board.machine.cpu.serialize ++ last) board.machine.cpu.serialize.length =
        some { state with machine := { state.machine with cpu := board.machine.cpu } } := by
    intro state
    unfold restore
    dsimp only
    rw [I8080.deserialize_serialize storable.cpu]
    rfl
  have length' : board.machine.cpu.serialize.length = 26 := rfl
  rw [deserialize_insertChunk _ .cpu _ _ (by rw [length']; decide) (by rw [length']; decide)
    (third' _)]
  rw [← lines, ← List.append_nil (insertChunk .board board.serializeSelf)]
  have fourth : ∀ state : Board δ, state.restore .board (board.serializeSelf ++ [])
      board.serializeSelf.length = some
        { state with
          machine := { state.machine with inte := board.machine.inte, irq := board.machine.irq }
          irqCarry := board.irqCarry } := by
    intro state
    unfold restore serializeSelf deserializeSelf
    simp only [List.append_nil, I8080.cell_ne_zero]
  have length'' : board.serializeSelf.length = 3 := rfl
  rw [deserialize_insertChunk _ .board _ _ (by rw [length'']; decide) (by rw [length'']; decide)
    (fourth _), deserialize_nil]
  rfl

/-! ### Whether the restored board goes on like the saved one -/

/-- Same processor, memory, ports, colours and interrupt lines. -/
structure SameStored (board restored : Board δ) : Prop where
  /-- The processor. -/
  cpu : restored.machine.cpu = board.machine.cpu
  /-- The cells of the memory. -/
  bytes : ∀ i < Memory.totalMemory, restored.machine.memory.bytes i = board.machine.memory.bytes i
  /-- The banking state of the memory and the overlay. -/
  banking : { restored.machine.memory with bytes := board.machine.memory.bytes } =
    board.machine.memory
  /-- The first parallel adapter. -/
  first : restored.machine.io.cw = board.machine.io.cw ∧
    restored.machine.io.pa = board.machine.io.pa ∧ restored.machine.io.pb = board.machine.io.pb ∧
      restored.machine.io.pc = board.machine.io.pc ∧
        restored.machine.io.pia1Last = board.machine.io.pia1Last
  /-- The second. -/
  second : restored.machine.io.cw2 = board.machine.io.cw2 ∧
    restored.machine.io.pa2 = board.machine.io.pa2 ∧
      restored.machine.io.pb2 = board.machine.io.pb2 ∧
        restored.machine.io.pc2 = board.machine.io.pc2
  /-- The colour table. -/
  colours : ∀ i < 16, restored.palette.colours i = board.palette.colours i
  /-- The interrupt lines. -/
  lines : restored.machine.inte = board.machine.inte ∧ restored.machine.irq = board.machine.irq ∧
    restored.irqCarry = board.irqCarry

theorem sameStored_restoredInto (board other : Board δ) :
    board.SameStored (board.restoredInto other) where
  cpu := rfl
  bytes i inside := if_pos inside
  banking := rfl
  first := ⟨rfl, rfl, rfl, rfl, rfl⟩
  second := ⟨rfl, rfl, rfl, rfl⟩
  colours i inside := if_pos inside
  lines := ⟨rfl, rfl, rfl⟩

/-- The filler shows what port B asks for. -/
def VideoFollows (board : Board δ) : Prop :=
  board.picture.mode512 = board.machine.io.mode512 ∧
    board.picture.borderIndex = board.machine.io.borderIndex.toNat

/-- The filler of a board shows what port B of another asks for. -/
def ShowsVideoOf (other board : Board δ) : Prop :=
  other.picture.mode512 = board.machine.io.mode512 ∧
    other.picture.borderIndex = board.machine.io.borderIndex.toNat

theorem videoFollows_restoredInto (board other : Board δ) :
    (board.restoredInto other).VideoFollows ↔ other.ShowsVideoOf board := Iff.rfl

variable [Chips δ]

/-- The same, now and before every later instruction, however many follow: same processor, memory,
ports and interrupt lines before and after, and the beam in the same place. -/
def SameInstructions (board restored : Board δ) : Prop :=
  ∀ count : Nat, (advance^[count] board).beginIteration.AgreesWith
    (advance^[count] restored).beginIteration

/-- What later instructions observe and a state file does not hold is the same on both boards. -/
structure SameUnstored (board other : Board δ) : Prop where
  /-- `outport` and `outbyte`: an `OUT` that waits. -/
  outport : other.machine.io.outport = board.machine.io.outport
  /-- `palettebyte`. -/
  palettebyte : other.machine.io.palettebyte = board.machine.io.palettebyte
  /-- The chips behind the ports. -/
  chips : other.machine.io.chips = board.machine.io.chips
  /-- There are no cells past the end of the memory. -/
  cells : ∀ i, Memory.totalMemory ≤ i →
    other.machine.memory.bytes i = board.machine.memory.bytes i
  /-- The beam, but for the signal that the loop lowers. -/
  beam : board.beam.lowered = other.beam.lowered
  /-- The cycles that wait to be drawn. -/
  pending : board.foldLeftover.instrTime = other.foldLeftover.instrTime
  /-- An interrupt taken now costs both boards its cycles, or neither. -/
  fresh : board.acceptsInterrupt = true → (board.between = 0 ↔ other.between = 0)
  /-- `last_opcode`. -/
  lastOpcode : board.lastOpcode = other.lastOpcode
  /-- The tape waits for the same frame, or for none. -/
  tape : board.SameTape other

omit [Chips δ] in
/-- With the rest the same, the restored board is like the saved one at the head of the loop. -/
theorem SameUnstored.alike {board other : Board δ} (same : board.SameUnstored other) :
    board.Alike (board.restoredInto other) := by
  refine ⟨?_, same.beam, ?_, same.fresh, same.lastOpcode, rfl, same.tape⟩
  · have bytes : (fun i => if i < Memory.totalMemory then board.machine.memory.bytes i
        else other.machine.memory.bytes i) = board.machine.memory.bytes := by
      funext i
      by_cases inside : i < Memory.totalMemory
      · rw [if_pos inside]
      · rw [if_neg inside]
        exact same.cells i (Nat.le_of_not_lt inside)
    unfold restoredInto
    dsimp only
    rw [bytes, same.outport, same.palettebyte, same.chips]
  · rw [same.pending, foldLeftover_instrTime, foldLeftover_instrTime]
    rfl

/-- Boards that are alike stay so. -/
theorem Alike.advance {board other : Board δ} (same : board.Alike other) :
    board.advance.Alike other.advance := (same.begun.left true true).entered

/-- Boards that are alike execute the same instructions. -/
theorem Alike.sameInstructions {board other : Board δ} (same : board.Alike other) :
    board.SameInstructions other := by
  intro count
  have later : (Board.advance^[count] board).Alike (Board.advance^[count] other) :=
    @Transition.iterate_related _ _ _ _ Alike (fun _ => True)
      (fun _ _ related _ => related.advance) count _ _ same fun _ _ => trivial
  exact later.begun.agrees

/-- The restored board has all that the saved one had, shows what its port B asks for, and goes on
like it. -/
structure Resumes (board restored : Board δ) : Prop where
  /-- What is stored. -/
  stored : board.SameStored restored
  /-- The copies of port B. -/
  video : restored.VideoFollows
  /-- What follows. -/
  instructions : board.SameInstructions restored

/-- A saved state is always read back whole. It resumes as the original if the board it is restored
into shows the same video and has the same waiting writes, chips, beam and counters; only if it
shows the same video; and of boards that have the rest in common, exactly if it shows the same. -/
theorem saved_state_resumes {board : Board δ} (storable : board.Storable) (other : Board δ) :
    ∃ restored, other.deserialize board.serialize = some (restored, true) ∧
      board.SameStored restored ∧ (restored.VideoFollows ↔ other.ShowsVideoOf board) ∧
        (board.SameUnstored other → (board.Resumes restored ↔ other.ShowsVideoOf board)) := by
  refine ⟨board.restoredInto other, deserialize_serialize storable other,
    board.sameStored_restoredInto other, videoFollows_restoredInto board other, fun same => ?_⟩
  constructor
  · exact fun resumes => resumes.video
  · intro shows'
    exact ⟨board.sameStored_restoredInto other, shows', same.alike.sameInstructions⟩

/-- A board just switched on, in its wide video mode. -/
def wide : Board Unit :=
  { powerOn () [] with
    machine := { (powerOn () []).machine with
      io := { (powerOn () []).machine.io with pb := 0x10 } }
    picture := { (powerOn () []).picture with mode512 := true } }

theorem storable_wide : wide.Storable :=
  ⟨Memory.storable_init [] (by decide), ⟨by decide, by decide⟩⟩

/-- It resumes when it is restored into itself. -/
theorem saved_state_resumes_itself :
    ∃ restored, wide.deserialize wide.serialize = some (restored, true) ∧
      wide.Resumes restored := by
  obtain ⟨restored, read, -, -, resumes⟩ := saved_state_resumes storable_wide wide
  have same : wide.SameUnstored wide :=
    ⟨rfl, rfl, rfl, fun _ _ => rfl, rfl, rfl, fun _ => Iff.rfl, rfl, Or.inl rfl⟩
  exact ⟨restored, read, (resumes same).mpr ⟨by decide, by decide⟩⟩

/-- Restored into a board in the other video mode, with all else that is not stored the same, it is
shown in that mode. -/
theorem saved_state_loses_video :
    wide.SameUnstored (powerOn () []) ∧
      ∃ restored, (powerOn () []).deserialize wide.serialize = some (restored, true) ∧
        ¬wide.Resumes restored := by
  refine ⟨⟨rfl, rfl, rfl, fun _ _ => rfl, rfl, rfl, fun _ => Iff.rfl, rfl, Or.inl rfl⟩,
    wide.restoredInto (powerOn () []), deserialize_serialize storable_wide _, fun resumes => ?_⟩
  have shown := ((videoFollows_restoredInto wide (powerOn () [])).mp resumes.video).1
  exact absurd shown (by decide)

end Board

end VectorDebugger
