import VectorDebugger.Machine.Board

/-!
# State files

`Board::serialize` writes memory, ports, processor and interrupt lines, each as a chunk with a
signature and a size. `Board::deserialize` walks over the chunks of a file and restores each at
once. A reader is given the position of its chunk in the file, so what it can read ends with the
file and not with the chunk. The outcome is none where a reader reads past the end of the file, or
asks for a range that ends before it starts.
-/

namespace VectorDebugger

/-- `SerializeChunk::id`. -/
inductive ChunkId
  | memory | io | cpu | board
deriving DecidableEq, Repr

namespace ChunkId

/-- The signature. -/
def signature : ChunkId → BitVec 32
  | memory => 0xfecacaca
  | io => 0xfeca1010
  | cpu => 0xfeca0000
  | board => 0xfecababe

/-- The chunk of a signature. -/
def ofSignature (signature : BitVec 32) : Option ChunkId :=
  if signature = 0xfecacaca then some memory
  else if signature = 0xfeca1010 then some io
  else if signature = 0xfeca0000 then some cpu
  else if signature = 0xfecababe then some board
  else none

@[simp] theorem ofSignature_signature (id : ChunkId) : ofSignature id.signature = some id := by
  cases id <;> decide

end ChunkId

/-- A 32-bit number in the order of its bytes in memory. -/
def bytes32 (value : BitVec 32) : List Byte :=
  [value.setWidth 8, (value >>> 8).setWidth 8, (value >>> 16).setWidth 8,
    (value >>> 24).setWidth 8]

/-- The 32-bit number of four bytes. -/
def ofBytes32 (a b c d : Byte) : BitVec 32 := d ++ c ++ b ++ a

/-- `SerializeChunk::insert_chunk`. -/
def insertChunk (id : ChunkId) (chunk : List Byte) : List Byte :=
  bytes32 id.signature ++ bytes32 (BitVec.ofNat 32 chunk.length) ++ chunk

/-- What `SerializeChunk::take_chunk` reads. -/
structure Chunk where
  /-- `signature`. -/
  signature : BitVec 32
  /-- `size`. -/
  size : Nat
  /-- The position after the header, as the bytes from there to the end of the file. -/
  begin' : List Byte
deriving DecidableEq, Repr

/-- `SerializeChunk::take_chunk`. -/
def takeChunk (it : List Byte) : Option Chunk :=
  match it with
  | a :: b :: c :: d :: e :: f :: g :: h :: begin' =>
    some { signature := ofBytes32 a b c d, size := (ofBytes32 e f g h).toNat, begin' }
  | _ => none

theorem length_of_takeChunk {it : List Byte} {chunk : Chunk} (taken : takeChunk it = some chunk) :
    chunk.begin'.length + 8 = it.length := by
  unfold takeChunk at taken
  split at taken
  · rw [← Option.some.inj taken]
    rfl
  · exact nomatch taken

namespace Memory

/-- `Memory::serialize` — the contents of its chunk. -/
def serialize (mem : Memory) : List Byte :=
  [if mem.modeStack then 1 else 0, if mem.modeMap then 1 else 0,
    BitVec.ofNat 8 (mem.pageMap >>> 16), BitVec.ofNat 8 (mem.pageStack >>> 16),
    BitVec.ofNat 8 (totalMemory / 65536)] ++
  (List.range totalMemory).map mem.bytes ++ mem.bootbytes

/-- `Memory::deserialize`, with the bytes from the position to the end of the file. -/
def deserialize (mem : Memory) (it : List Byte) (size : Nat) : Option Memory :=
  match it with
  | modeStack :: modeMap :: pageMap :: pageStack :: banks :: data =>
    let storedRamsize := 65536 * banks.toNat
    let nbytes := min storedRamsize totalMemory
    if nbytes ≤ data.length ∧ 5 + storedRamsize ≤ size ∧ size ≤ it.length then
      some
        { bytes := fun i => if i < nbytes then data.getD i 0 else mem.bytes i
          modeStack := modeStack != 0
          modeMap := modeMap != 0
          pageMap := pageMap.toNat <<< 16
          pageStack := pageStack.toNat <<< 16
          bootbytes := (data.drop storedRamsize).take (size - 5 - storedRamsize) }
    else none
  | _ => none

end Memory

namespace Palette

/-- The bytes of `IO::palette`. -/
def serialize (palette : Palette) : List Byte :=
  (List.range 16).flatMap fun i => bytes32 (palette.colours i)

/-- `IO::palette` from its bytes. -/
def deserialize (palette : Palette) (it : List Byte) : Palette :=
  { palette with
    colours := fun i =>
      if i < 16 then
        ofBytes32 (it.getD (4 * i) 0) (it.getD (4 * i + 1) 0) (it.getD (4 * i + 2) 0)
          (it.getD (4 * i + 3) 0)
      else palette.colours i }

end Palette

namespace Io

variable {δ : Type}

/-- The ports that `IO::serialize` writes after the palette. -/
def serialize (io : Io δ) : List Byte :=
  [io.cw, io.pa, io.pb, io.pc, io.pia1Last, io.cw2, io.pa2, io.pb2, io.pc2]

/-- The ports that `IO::deserialize` reads after the palette. -/
def deserialize (io : Io δ) (it : List Byte) : Option (Io δ) :=
  match it with
  | cw :: pa :: pb :: pc :: pia1Last :: cw2 :: pa2 :: pb2 :: pc2 :: _ =>
    some { io with cw, pa, pb, pc, pia1Last, cw2, pa2, pb2, pc2 }
  | _ => none

end Io

namespace I8080

/-- The cell of a condition. -/
def cell (flag : Bool) : Byte := if flag then 1 else 0

/-- `i8080cpu::serialize` — the bytes of `struct i8080`. The cells that nothing reads are written
as `i8080_init` leaves them. -/
def serialize (cpu : I8080) : List Byte :=
  [cell cpu.flags.carry, 1, cell cpu.flags.parity, 0, cell cpu.flags.halfCarry, 0,
    cell cpu.flags.zero, cell cpu.flags.sign, cpu.f, cpu.a, cpu.c, cpu.b, cpu.e, cpu.d, cpu.l,
    cpu.h, cpu.sp.low, cpu.sp.high, cpu.pc.low, cpu.pc.high, cell cpu.iff, 0,
    BitVec.ofNat 8 cpu.eiPending, BitVec.ofNat 8 cpu.cpuCycles, 0, 0]

/-- `i8080cpu::deserialize` — the structure from its bytes. -/
def deserialize (it : List Byte) : Option I8080 :=
  if it.length < 26 then none
  else
    some
      { flags :=
          { carry := it.getD 0 0 != 0, parity := it.getD 2 0 != 0
            halfCarry := it.getD 4 0 != 0, zero := it.getD 6 0 != 0, sign := it.getD 7 0 != 0 }
        f := it.getD 8 0
        a := it.getD 9 0
        c := it.getD 10 0
        b := it.getD 11 0
        e := it.getD 12 0
        d := it.getD 13 0
        l := it.getD 14 0
        h := it.getD 15 0
        sp := wordOf (it.getD 16 0) (it.getD 17 0)
        pc := wordOf (it.getD 18 0) (it.getD 19 0)
        iff := wordOf (it.getD 20 0) (it.getD 21 0) != 0
        eiPending := (it.getD 22 0).toNat
        cpuCycles := (it.getD 23 0).toNat }

end I8080

namespace Board

variable {δ : Type}

/-- `Board::serialize_self` — the contents of its chunk. -/
def serializeSelf (board : Board δ) : List Byte :=
  [I8080.cell board.machine.inte, I8080.cell board.machine.irq, I8080.cell board.irqCarry]

/-- `Board::serialize`. -/
def serialize (board : Board δ) : List Byte :=
  insertChunk .memory board.machine.memory.serialize ++
    insertChunk .io (board.palette.serialize ++ board.machine.io.serialize) ++
      insertChunk .cpu board.machine.cpu.serialize ++ insertChunk .board board.serializeSelf

/-- `Board::deserialize_self`. -/
def deserializeSelf (board : Board δ) (it : List Byte) : Option (Board δ) :=
  match it with
  | inte :: irq :: irqCarry :: _ =>
    some
      { board with
        machine := { board.machine with inte := inte != 0, irq := irq != 0 }
        irqCarry := irqCarry != 0 }
  | _ => none

/-- The reader of a chunk. -/
def restore (board : Board δ) (id : ChunkId) (begin' : List Byte) (size : Nat) :
    Option (Board δ) :=
  match id with
  | .memory =>
    (board.machine.memory.deserialize begin' size).map fun memory =>
      { board with machine := { board.machine with memory } }
  | .io =>
    (board.machine.io.deserialize (begin'.drop 64)).map fun io =>
      { board with
        machine := { board.machine with io }
        palette := board.palette.deserialize begin' }
  | .cpu =>
    (I8080.deserialize begin').map fun cpu =>
      { board with machine := { board.machine with cpu } }
  | .board => board.deserializeSelf begin'

/-- `Board::deserialize`, with its result. A position past the end of the file is not the end, and
the next signature is read there. -/
def deserialize (board : Board δ) (it : List Byte) : Option (Board δ × Bool) :=
  if it = [] then some (board, true)
  else
    match taken : takeChunk it with
    | none => none
    | some chunk =>
      if chunk.size = 0 then board.deserialize chunk.begin'
      else
        match ChunkId.ofSignature chunk.signature with
        | none => some (board, false)
        | some id =>
          match board.restore id chunk.begin' chunk.size with
          | none => none
          | some restored =>
            if chunk.begin'.length < chunk.size then none
            else restored.deserialize (chunk.begin'.drop chunk.size)
termination_by it.length
decreasing_by
  · have shorter := length_of_takeChunk taken
    omega
  · have shorter := length_of_takeChunk taken
    rw [List.length_drop]
    omega

end Board

end VectorDebugger
