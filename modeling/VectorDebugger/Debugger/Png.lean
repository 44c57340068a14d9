import Mathlib.Tactic.IntervalCases
import VectorDebugger.Library.Checksums
import VectorDebugger.Machine.Memory

/-!
# PNG encoder

`encodeRGBA` writes a picture into three chunks, with its rows in stored blocks. The decoder of this
module reads any picture of that kind and checks every length and every checksum on its way.
-/

namespace VectorDebugger.Png

open Checksums

/-! ## The encoder -/

/-- One bit of a table entry. -/
def tableStep (c : BitVec 32) : BitVec 32 :=
  if c &&& 1 ≠ 0 then 0xedb88320 ^^^ (c >>> 1) else c >>> 1

/-- `table` of `crc32Compute`. -/
def crcTable : List (BitVec 32) :=
  (List.range 256).map fun n => tableStep^[8] (BitVec.ofNat 32 n)

/-- `crc32Compute`. -/
def crc32Compute (data : List Byte) : BitVec 32 :=
  data.foldl
    (fun (c : BitVec 32) (byte : Byte) =>
      crcTable.getD ((c ^^^ byte.setWidth 32) &&& 0xff).toNat 0 ^^^ (c >>> 8))
    0xffffffff ^^^ 0xffffffff

/-- The accumulators of `adler32Compute` take a byte in. -/
def adlerStep (sums : BitVec 32 × BitVec 32) (byte : Byte) : BitVec 32 × BitVec 32 :=
  let a := sums.1 + byte.setWidth 32
  (a, sums.2 + a)

/-- The accumulators are reduced. -/
def adlerReduce (sums : BitVec 32 × BitVec 32) : BitVec 32 × BitVec 32 :=
  (sums.1 % 65521, sums.2 % 65521)

/-- The loop of `adler32Compute`, which reduces after every 5552 bytes. -/
def adlerBlocks (sums : BitVec 32 × BitVec 32) (data : List Byte) : BitVec 32 × BitVec 32 :=
  if 0 < data.length then
    adlerBlocks (adlerReduce ((data.take 5552).foldl adlerStep sums)) (data.drop 5552)
  else sums
termination_by data.length
decreasing_by
  rw [List.length_drop]
  omega

/-- `adler32Compute`. -/
def adler32Compute (data : List Byte) : BitVec 32 :=
  let sums := adlerBlocks (1, 0) data
  (sums.2 <<< 16) ||| sums.1

/-- `pushBE32`. -/
def pushBE32 (v : BitVec 32) : List Byte :=
  [((v >>> 24) &&& 0xff).setWidth 8, ((v >>> 16) &&& 0xff).setWidth 8,
    ((v >>> 8) &&& 0xff).setWidth 8, (v &&& 0xff).setWidth 8]

/-- `appendChunk`, as what it appends. -/
def chunkBytes (type data : List Byte) : List Byte :=
  pushBE32 (BitVec.ofNat 32 data.length) ++ (type ++ data) ++ pushBE32 (crc32Compute (type ++ data))

/-- `sig`. -/
def sig : List Byte := [0x89, 0x50, 0x4e, 0x47, 0x0d, 0x0a, 0x1a, 0x0a]

/-- `IHDR`. -/
def typeIHDR : List Byte := [0x49, 0x48, 0x44, 0x52]

/-- `IDAT`. -/
def typeIDAT : List Byte := [0x49, 0x44, 0x41, 0x54]

/-- `IEND`. -/
def typeIEND : List Byte := [0x49, 0x45, 0x4e, 0x44]

/-- `ihdr`. -/
def ihdr (width height : Nat) : List Byte :=
  pushBE32 (BitVec.ofNat 32 width) ++ pushBE32 (BitVec.ofNat 32 height) ++ [8, 6, 0, 0, 0]

/-- `raw`: every row behind a filter byte. -/
def rawRows (rowBytes : Nat) : Nat → List Byte → List Byte
  | 0, _ => []
  | height + 1, rgba =>
    0 :: rgba.take rowBytes ++ rawRows rowBytes height (rgba.drop rowBytes)

/-- The loop over the stored blocks. -/
def storedBlocks (raw : List Byte) : List Byte :=
  let n := if raw.length > 65535 then 65535 else raw.length
  let length := BitVec.ofNat 16 n
  let nlen := ~~~length
  (if raw.length ≤ 65535 then 0x01 else 0x00) ::
    (length &&& 0xff).setWidth 8 :: ((length >>> 8) &&& 0xff).setWidth 8 ::
    (nlen &&& 0xff).setWidth 8 :: ((nlen >>> 8) &&& 0xff).setWidth 8 ::
    (raw.take n ++ if n < raw.length then storedBlocks (raw.drop n) else [])
termination_by raw.length
decreasing_by
  rw [List.length_drop]
  split <;> omega

/-- `idat`. -/
def idat (raw : List Byte) : List Byte :=
  0x78 :: 0x01 :: (storedBlocks raw ++ pushBE32 (adler32Compute raw))

/-- `encodeRGBA`. -/
def encodeRGBA (rgba : List Byte) (width height : Int) : List Byte :=
  if width ≤ 0 ∨ height ≤ 0 then []
  else
    sig ++ (chunkBytes typeIHDR (ihdr width.toNat height.toNat) ++
      (chunkBytes typeIDAT (idat (rawRows (width.toNat * 4) height.toNat rgba)) ++
        chunkBytes typeIEND []))

/-! ## The decoder -/

/-- A number of four bytes, big-endian. -/
def readBE32 : List Byte → Option (BitVec 32 × List Byte)
  | a :: b :: c :: d :: rest => some (a ++ b ++ c ++ d, rest)
  | _ => none

/-- Some bytes, and the others. -/
def takeBytes (count : Nat) (bytes : List Byte) : Option (List Byte × List Byte) :=
  if count ≤ bytes.length then some (bytes.take count, bytes.drop count) else none

/-- A chunk. -/
structure Chunk where
  /-- Its type. -/
  type : List Byte
  /-- Its data. -/
  data : List Byte
deriving DecidableEq, Repr

/-- A chunk whose length and CRC are right. -/
def parseChunk (bytes : List Byte) : Option (Chunk × List Byte) := do
  let (length, bytes) ← readBE32 bytes
  let (type, bytes) ← takeBytes 4 bytes
  let (data, bytes) ← takeBytes length.toNat bytes
  let (crc, bytes) ← readBE32 bytes
  if crc = crc32 (type ++ data) then some ({ type, data }, bytes) else none

/-- The chunks up to `IEND`, which is the last and has no data. -/
def parseChunks : Nat → List Byte → Option (List Chunk)
  | 0, _ => none
  | fuel + 1, bytes => do
    let (chunk, bytes) ← parseChunk bytes
    if chunk.type = typeIEND then
      if chunk.data = [] ∧ bytes = [] then some [chunk] else none
    else
      let chunks ← parseChunks fuel bytes
      some (chunk :: chunks)

/-- Stored blocks up to the final one, each with its length and the complement of it. -/
def readStored : Nat → List Byte → Option (List Byte × List Byte)
  | fuel + 1, header :: len0 :: len1 :: nlen0 :: nlen1 :: bytes =>
    if header &&& 6 = 0 ∧ nlen1 ++ nlen0 = ~~~(len1 ++ len0) then do
      let (data, bytes) ← takeBytes (len1 ++ len0).toNat bytes
      if header &&& 1 = 1 then some (data, bytes)
      else
        let (more, bytes) ← readStored fuel bytes
        some (data ++ more, bytes)
    else none
  | _, _ => none

/-- A zlib stream of stored blocks, without a dictionary. -/
def inflate : List Byte → Option (List Byte)
  | cmf :: flg :: bytes =>
    if cmf &&& 0xf = 8 ∧ cmf >>> 4 ≤ 7 ∧ (cmf.toNat * 256 + flg.toNat) % 31 = 0 ∧
        flg &&& 0x20 = 0 then do
      let (data, bytes) ← readStored (bytes.length + 1) bytes
      let (adler, bytes) ← readBE32 bytes
      if bytes = [] ∧ adler.toNat = adler32 data then some data else none
    else none
  | _ => none

/-- Rows without a filter. -/
def unfilter (rowBytes : Nat) : Nat → List Byte → Option (List Byte)
  | 0, [] => some []
  | 0, _ :: _ => none
  | _ + 1, [] => none
  | height + 1, filter :: bytes =>
    if filter = 0 then do
      let (row, bytes) ← takeBytes rowBytes bytes
      let rows ← unfilter rowBytes height bytes
      some (row ++ rows)
    else none

/-- The width, the height and the pixels of a picture with four samples of eight bits. -/
def decode (bytes : List Byte) : Option (Nat × Nat × List Byte) := do
  let (front, bytes) ← takeBytes 8 bytes
  if front = sig then
    let chunks ← parseChunks (bytes.length + 1) bytes
    match chunks with
    | header :: chunks =>
      if header.type = typeIHDR then
        let (width, fields) ← readBE32 header.data
        let (height, fields) ← readBE32 fields
        if fields = [8, 6, 0, 0, 0] ∧ width ≠ 0 ∧ height ≠ 0 then
          let raw ← inflate ((chunks.filter fun chunk => chunk.type = typeIDAT).flatMap (·.data))
          let pixels ← unfilter (width.toNat * 4) height.toNat raw
          some (width.toNat, height.toNat, pixels)
        else none
      else none
    | [] => none
  else none

/-! ## Base 64 -/

/-- `ALPHABET`. -/
def alphabet : List Char :=
  ['A', 'B', 'C', 'D', 'E', 'F', 'G', 'H', 'I', 'J', 'K', 'L', 'M', 'N', 'O', 'P', 'Q', 'R', 'S',
    'T', 'U', 'V', 'W', 'X', 'Y', 'Z', 'a', 'b', 'c', 'd', 'e', 'f', 'g', 'h', 'i', 'j', 'k', 'l',
    'm', 'n', 'o', 'p', 'q', 'r', 's', 't', 'u', 'v', 'w', 'x', 'y', 'z', '0', '1', '2', '3', '4',
    '5', '6', '7', '8', '9', '+', '/']

/-- `ALPHABET[n & 0x3F]`. -/
def letter (n : BitVec 32) : Char := alphabet.getD (n &&& 0x3f).toNat '='

/-- `base64Encode`. -/
def base64Encode : List Byte → List Char
  | a :: b :: c :: data =>
    let n := (a.setWidth 32 <<< 16) ||| (b.setWidth 32 <<< 8) ||| c.setWidth 32
    letter (n >>> 18) :: letter (n >>> 12) :: letter (n >>> 6) :: letter n :: base64Encode data
  | [a, b] =>
    let n := (a.setWidth 32 <<< 16) ||| (b.setWidth 32 <<< 8)
    [letter (n >>> 18), letter (n >>> 12), letter (n >>> 6), '=']
  | [a] =>
    let n := a.setWidth 32 <<< 16
    [letter (n >>> 18), letter (n >>> 12), '=', '=']
  | [] => []

/-- The six bits of a letter. -/
def sextet (c : Char) : Option (BitVec 6) :=
  (alphabet.findIdx? fun entry => entry = c).map (BitVec.ofNat 6)

/-- Groups of four letters, the last of which may be padded; the bits behind the data are zeros. -/
def base64Decode : List Char → Option (List Byte)
  | [] => some []
  | w :: x :: y :: z :: text =>
    if text = [] ∧ z = '=' then
      if y = '=' then do
        let bits := (← sextet w) ++ (← sextet x)
        if bits.extractLsb' 0 4 = 0 then some [bits.extractLsb' 4 8] else none
      else do
        let bits := (← sextet w) ++ (← sextet x) ++ (← sextet y)
        if bits.extractLsb' 0 2 = 0 then some [bits.extractLsb' 10 8, bits.extractLsb' 2 8]
        else none
    else do
      let bits := (← sextet w) ++ (← sextet x) ++ (← sextet y) ++ (← sextet z)
      let data ← base64Decode text
      some (bits.extractLsb' 16 8 :: bits.extractLsb' 8 8 :: bits.extractLsb' 0 8 :: data)
  | _ => none

/-! ## Accumulators -/

/-- No addition of `adler32Compute` leaves 32 bits: whatever the bytes of a block are that are done,
the next byte fits into the first sum, and the first sum into the second. -/
def AdlerExact (sums : BitVec 32 × BitVec 32) (data : List Byte) : Prop :=
  if 0 < data.length then
    (∀ done byte more, data.take 5552 = done ++ byte :: more →
      (done.foldl adlerStep sums).1.toNat + byte.toNat < 2 ^ 32 ∧
        (done.foldl adlerStep sums).2.toNat +
          ((done.foldl adlerStep sums).1.toNat + byte.toNat) < 2 ^ 32) ∧
      AdlerExact (adlerReduce ((data.take 5552).foldl adlerStep sums)) (data.drop 5552)
  else True
termination_by data.length
decreasing_by
  rw [List.length_drop]
  omega

/-! ## Checksums -/

theorem tableStep_eq (c : BitVec 32) : tableStep c = crcBit c := by
  have selected : c &&& 1 ≠ 0 ↔ c.getLsbD 0 = true := by
    have one : (1 : BitVec 32) = 1#32 := rfl
    rw [one, BitVec.and_one_eq_setWidth_ofBool_getLsbD]
    cases c.getLsbD 0 <;> decide
  unfold tableStep crcBit
  by_cases odd : c.getLsbD 0 = true
  · rw [if_pos (selected.mpr odd), if_pos odd]
    rfl
  · rw [if_neg fun on => odd (selected.mp on), if_neg odd]

/-- The CRC that is computed is the one of the standard. -/
theorem crc32Compute_eq (data : List Byte) : crc32Compute data = crc32 data := by
  have step : tableStep = crcBit := funext tableStep_eq
  have entry : ∀ x : BitVec 32, crcTable.getD (x &&& 0xff).toNat 0 = crcBit^[8] (x &&& 0xff) := by
    intro x
    have below : (x &&& 0xff).toNat < 256 := by
      rw [BitVec.toNat_and]
      exact Nat.lt_of_le_of_lt Nat.and_le_right (by decide)
    unfold crcTable
    rw [List.getD_eq_getElem?_getD, List.getElem?_map, List.getElem?_range below,
      Option.map_some, Option.getD_some, step, BitVec.ofNat_toNat, BitVec.setWidth_eq]
  unfold crc32Compute crc32
  congr 1
  refine List.foldl_ext _ _ _ fun c byte _ => ?_
  rw [entry, ← crcByte_eq_table]

/-- The accumulators as numbers. -/
def sumsNat (sums : BitVec 32 × BitVec 32) : Nat × Nat := (sums.1.toNat, sums.2.toNat)

/-- Reduced sums have room for a block. -/
theorem adler_room {sums : Nat × Nat} (first : sums.1 < 65521) (second : sums.2 < 65521)
    (data : List Byte) (short : data.length ≤ 5552) :
    (data.foldl adlerByte sums).1 < 2 ^ 32 ∧ (data.foldl adlerByte sums).2 < 2 ^ 32 := by
  obtain ⟨low, high⟩ := adler_bounds data sums
  have square : data.length * (data.length + 1) ≤ 5552 * 5553 :=
    Nat.mul_le_mul short (Nat.succ_le_succ short)
  have product : data.length * sums.1 ≤ 5552 * 65520 :=
    Nat.mul_le_mul short (Nat.le_of_lt_succ first)
  exact ⟨by omega, by omega⟩

theorem setWidth_byte (byte : Byte) : (byte.setWidth 32 : BitVec 32).toNat = byte.toNat := by
  rw [BitVec.toNat_setWidth]
  exact Nat.mod_eq_of_lt (Nat.lt_of_lt_of_le byte.isLt (by decide))

/-- Where the numbers have room, the accumulators are the numbers. -/
theorem adlerStep_exact {sums : BitVec 32 × BitVec 32} {byte : Byte}
    (first : (adlerByte (sumsNat sums) byte).1 < 2 ^ 32)
    (second : (adlerByte (sumsNat sums) byte).2 < 2 ^ 32) :
    sumsNat (adlerStep sums byte) = adlerByte (sumsNat sums) byte := by
  have a : (sums.1 + byte.setWidth 32).toNat = sums.1.toNat + byte.toNat := by
    rw [BitVec.toNat_add, setWidth_byte]
    exact Nat.mod_eq_of_lt first
  have b : (sums.2 + (sums.1 + byte.setWidth 32)).toNat =
      sums.2.toNat + (sums.1.toNat + byte.toNat) := by
    rw [BitVec.toNat_add, a]
    exact Nat.mod_eq_of_lt second
  exact Prod.ext a b

/-- Within a block the accumulators are the numbers. -/
theorem adler_block {sums : BitVec 32 × BitVec 32} (first : sums.1.toNat < 65521)
    (second : sums.2.toNat < 65521) (data : List Byte) (short : data.length ≤ 5552) :
    sumsNat (data.foldl adlerStep sums) = data.foldl adlerByte (sumsNat sums) := by
  induction data using List.reverseRecOn with
  | nil => rfl
  | append_singleton data byte inductionHypothesis =>
    have length : (data ++ [byte]).length = data.length + 1 := List.length_append
    have earlier := inductionHypothesis (by omega)
    have room := @adler_room (sumsNat sums) first second (data ++ [byte]) short
    rw [List.foldl_concat, ← earlier] at room
    rw [List.foldl_concat, List.foldl_concat, ← earlier]
    exact adlerStep_exact room.1 room.2

/-- After the last block both sums are those of the standard. -/
theorem adlerBlocks_eq {sums : BitVec 32 × BitVec 32} (first : sums.1.toNat < 65521)
    (second : sums.2.toNat < 65521) (data : List Byte) :
    sumsNat (adlerBlocks sums data) =
        ((data.foldl adlerByte (sumsNat sums)).1 % modulus,
          (data.foldl adlerByte (sumsNat sums)).2 % modulus) ∧
      AdlerExact sums data := by
  induction lengthEq : data.length using Nat.strongRecOn generalizing sums data with
  | ind length inductionHypothesis =>
    rw [adlerBlocks, AdlerExact]
    by_cases more : 0 < data.length
    · rw [if_pos more, if_pos more]
      have short : (data.take 5552).length ≤ 5552 := List.length_take_le _ _
      have block := adler_block first second (data.take 5552) short
      have reduced : sumsNat (adlerReduce ((data.take 5552).foldl adlerStep sums)) =
          (((data.take 5552).foldl adlerByte (sumsNat sums)).1 % modulus,
            ((data.take 5552).foldl adlerByte (sumsNat sums)).2 % modulus) := by
        rw [← block]
        exact Prod.ext BitVec.toNat_umod BitVec.toNat_umod
      have fewer : (data.drop 5552).length < length := by
        rw [List.length_drop]
        omega
      have low : (adlerReduce ((data.take 5552).foldl adlerStep sums)).1.toNat < 65521 := by
        rw [show (adlerReduce ((data.take 5552).foldl adlerStep sums)).1.toNat = _ from
          congrArg Prod.fst reduced]
        exact Nat.mod_lt _ (by decide)
      have low' : (adlerReduce ((data.take 5552).foldl adlerStep sums)).2.toNat < 65521 := by
        rw [show (adlerReduce ((data.take 5552).foldl adlerStep sums)).2.toNat = _ from
          congrArg Prod.snd reduced]
        exact Nat.mod_lt _ (by decide)
      obtain ⟨same, exact⟩ := inductionHypothesis _ fewer low low' (data.drop 5552) rfl
      have joined : data.foldl adlerByte (sumsNat sums) =
          (data.drop 5552).foldl adlerByte ((data.take 5552).foldl adlerByte (sumsNat sums)) := by
        rw [← List.foldl_append, List.take_append_drop]
      have congruent := @adler_reduce (data.drop 5552)
        (((data.take 5552).foldl adlerByte (sumsNat sums)).1 % modulus,
          ((data.take 5552).foldl adlerByte (sumsNat sums)).2 % modulus)
        ((data.take 5552).foldl adlerByte (sumsNat sums)) (Nat.mod_mod _ _) (Nat.mod_mod _ _)
      refine ⟨?_, ?_, exact⟩
      · rw [same, joined, reduced]
        exact Prod.ext congruent.1 congruent.2
      · intro done byte others split
        have inside : (done ++ [byte]).length ≤ 5552 := by
          have lengths := congrArg List.length split
          rw [List.length_append, List.length_cons] at lengths
          rw [List.length_append, List.length_singleton]
          omega
        have room := @adler_room (sumsNat sums) first second (done ++ [byte]) inside
        have before : done.length ≤ 5552 := by
          rw [List.length_append] at inside
          omega
        rw [List.foldl_concat, ← adler_block first second done before] at room
        exact room
    · have empty : data = [] := List.eq_nil_of_length_eq_zero (by omega)
      rw [if_neg more, if_neg more, empty]
      exact ⟨Prod.ext (Nat.mod_eq_of_lt first).symm (Nat.mod_eq_of_lt second).symm, trivial⟩

/-- The Adler-32 that is computed is the one of the standard. -/
theorem adler32Compute_eq (data : List Byte) : (adler32Compute data).toNat = adler32 data := by
  have start : sumsNat (1, 0) = (1, 0) := rfl
  obtain ⟨same, -⟩ := @adlerBlocks_eq (1, 0) (by decide) (by decide) data
  rw [start] at same
  have first : (adlerBlocks (1, 0) data).1.toNat = (data.foldl adlerByte (1, 0)).1 % modulus :=
    congrArg Prod.fst same
  have second : (adlerBlocks (1, 0) data).2.toNat = (data.foldl adlerByte (1, 0)).2 % modulus :=
    congrArg Prod.snd same
  have low : (data.foldl adlerByte (1, 0)).1 % modulus < 65521 := Nat.mod_lt _ (by decide)
  have low' : (data.foldl adlerByte (1, 0)).2 % modulus < 65521 := Nat.mod_lt _ (by decide)
  have whole : adler32 data = (data.foldl adlerByte (1, 0)).2 % modulus * 65536 +
      (data.foldl adlerByte (1, 0)).1 % modulus := rfl
  unfold adler32Compute
  rw [whole, BitVec.toNat_or, BitVec.toNat_shiftLeft, first, second]
  generalize (data.foldl adlerByte (1, 0)).1 % modulus = a at low
  generalize (data.foldl adlerByte (1, 0)).2 % modulus = b at low'
  rw [Nat.shiftLeft_eq, Nat.mod_eq_of_lt (by omega), ← Nat.shiftLeft_eq,
    ← Nat.shiftLeft_add_eq_or_of_lt (by omega : a < 2 ^ 16), Nat.shiftLeft_eq]

/-! ## Chunks -/

theorem readBE32_pushBE32 (v : BitVec 32) (rest : List Byte) :
    readBE32 (pushBE32 v ++ rest) = some (v, rest) := by
  have bytes : ((v >>> 24) &&& 0xff).setWidth 8 ++ ((v >>> 16) &&& 0xff).setWidth 8 ++
      ((v >>> 8) &&& 0xff).setWidth 8 ++ (v &&& 0xff).setWidth 8 = v := by
    refine BitVec.eq_of_getLsbD_eq fun i below => ?_
    simp only [BitVec.getLsbD_append, BitVec.getLsbD_setWidth, BitVec.getLsbD_and,
      BitVec.getLsbD_ushiftRight, ones_getLsbD]
    interval_cases i <;> simp
  show some (_, rest) = some (v, rest)
  rw [bytes]

theorem takeBytes_append (bytes rest : List Byte) :
    takeBytes bytes.length (bytes ++ rest) = some (bytes, rest) := by
  unfold takeBytes
  rw [if_pos (by rw [List.length_append]; omega), List.take_left, List.drop_left]

/-- A chunk that is written is read back, with its length and its CRC found right. -/
theorem parseChunk_chunkBytes {type data : List Byte} (tag : type.length = 4)
    (short : data.length < 2 ^ 32) (rest : List Byte) :
    parseChunk (chunkBytes type data ++ rest) = some ({ type, data }, rest) := by
  have length : (BitVec.ofNat 32 data.length).toNat = data.length := by
    rw [BitVec.toNat_ofNat]
    exact Nat.mod_eq_of_lt short
  have name := takeBytes_append type (data ++ (pushBE32 (crc32Compute (type ++ data)) ++ rest))
  rw [tag] at name
  rw [crc32Compute_eq] at name
  unfold parseChunk chunkBytes
  rw [crc32Compute_eq, List.append_assoc, List.append_assoc, List.append_assoc, readBE32_pushBE32]
  simp only [Option.bind_eq_bind, Option.bind_some, name, length, takeBytes_append,
    readBE32_pushBE32, if_true]

/-! ## Blocks -/

theorem halves (length : BitVec 16) :
    ((length >>> 8) &&& 0xff).setWidth 8 ++ (length &&& 0xff).setWidth 8 = length := by
  refine BitVec.eq_of_getLsbD_eq fun i below => ?_
  simp only [BitVec.getLsbD_append, BitVec.getLsbD_setWidth, BitVec.getLsbD_and,
    BitVec.getLsbD_ushiftRight]
  interval_cases i <;> simp

/-- A block is read back, its length and the complement of it found right. -/
theorem readStored_block (fuel : Nat) {header : Byte} (stored : header &&& 6 = 0)
    {block : List Byte} (short : block.length ≤ 65535) (rest : List Byte) :
    readStored (fuel + 1) (header ::
        (BitVec.ofNat 16 block.length &&& 0xff).setWidth 8 ::
        ((BitVec.ofNat 16 block.length >>> 8) &&& 0xff).setWidth 8 ::
        (~~~(BitVec.ofNat 16 block.length) &&& 0xff).setWidth 8 ::
        ((~~~(BitVec.ofNat 16 block.length) >>> 8) &&& 0xff).setWidth 8 :: (block ++ rest)) =
      if header &&& 1 = 1 then some (block, rest)
      else (readStored fuel rest).bind fun more => some (block ++ more.1, more.2) := by
  have length : (BitVec.ofNat 16 block.length).toNat = block.length := by
    rw [BitVec.toNat_ofNat]
    exact Nat.mod_eq_of_lt (Nat.lt_succ_of_le short)
  rw [readStored, halves, halves, if_pos ⟨stored, rfl⟩]
  simp only [length, takeBytes_append, Option.bind_eq_bind, Option.bind_some]

/-- The stored blocks are read back. -/
theorem readStored_storedBlocks (fuel : Nat) : ∀ (raw rest : List Byte), raw.length < fuel →
    readStored fuel (storedBlocks raw ++ rest) = some (raw, rest) := by
  induction fuel with
  | zero => exact fun raw rest below => absurd below (Nat.not_lt_zero _)
  | succ fuel inductionHypothesis =>
    intro raw rest below
    rw [storedBlocks]
    by_cases last : raw.length ≤ 65535
    · have block := @readStored_block fuel 1 (by decide) raw last rest
      rw [if_pos (by decide)] at block
      rw [if_pos last, if_neg (Nat.not_lt.mpr last), List.take_length,
        if_neg (Nat.lt_irrefl _), List.append_nil]
      exact block
    · have long : 65535 < raw.length := Nat.lt_of_not_le last
      have length : (raw.take 65535).length = 65535 := by
        rw [List.length_take]
        omega
      have block := @readStored_block fuel 0 (by decide) _ (le_of_eq length)
        (storedBlocks (raw.drop 65535) ++ rest)
      rw [if_neg (by decide), inductionHypothesis _ _ (by rw [List.length_drop]; omega),
        Option.bind_some, List.take_append_drop, length] at block
      rw [if_neg last, if_pos long, if_pos long, ← block]
      show readStored (fuel + 1) (_ :: _ :: _ :: _ :: _ :: ((_ ++ _) ++ _)) = _
      rw [List.append_assoc]

theorem storedBlocks_length (raw : List Byte) :
    raw.length < (storedBlocks raw).length ∧
      (storedBlocks raw).length ≤ raw.length + 5 * (raw.length / 65535 + 1) := by
  induction lengthEq : raw.length using Nat.strongRecOn generalizing raw with
  | ind length inductionHypothesis =>
    rw [storedBlocks]
    by_cases last : raw.length ≤ 65535
    · rw [if_neg (Nat.not_lt.mpr last), List.take_length, if_neg (Nat.lt_irrefl _),
        List.append_nil]
      simp only [List.length_cons]
      omega
    · have long : 65535 < raw.length := Nat.lt_of_not_le last
      have dropped : (raw.drop 65535).length = raw.length - 65535 := List.length_drop
      have others := inductionHypothesis (raw.length - 65535) (by omega) (raw.drop 65535) dropped
      rw [if_pos long, if_pos long]
      simp only [List.length_cons, List.length_append, List.length_take]
      omega

/-- A zlib stream that is written is read back, its checksum found right. -/
theorem inflate_idat (raw : List Byte) : inflate (idat raw) = some raw := by
  have fuel : raw.length < (storedBlocks raw ++ pushBE32 (adler32Compute raw)).length + 1 := by
    rw [List.length_append]
    have bound := (storedBlocks_length raw).1
    omega
  have checksum := readBE32_pushBE32 (adler32Compute raw) []
  rw [List.append_nil] at checksum
  unfold idat
  rw [inflate, if_pos (by decide), readStored_storedBlocks _ _ _ fuel]
  simp only [Option.bind_eq_bind, Option.bind_some, checksum, adler32Compute_eq, and_self, if_true]

/-! ## Rows -/

theorem rawRows_length {rowBytes : Nat} (height : Nat) : ∀ {rgba : List Byte},
    rgba.length = rowBytes * height →
      (rawRows rowBytes height rgba).length = (rowBytes + 1) * height := by
  induction height with
  | zero => exact fun _ => (Nat.mul_zero _).symm
  | succ height inductionHypothesis =>
    intro rgba length
    rw [Nat.mul_succ] at length
    have others := @inductionHypothesis (rgba.drop rowBytes) (by rw [List.length_drop]; omega)
    rw [rawRows, List.length_append, List.length_cons, List.length_take, others, Nat.mul_succ]
    omega

/-- The rows behind their filter bytes are the picture. -/
theorem unfilter_rawRows {rowBytes : Nat} (height : Nat) : ∀ {rgba : List Byte},
    rgba.length = rowBytes * height →
      unfilter rowBytes height (rawRows rowBytes height rgba) = some rgba := by
  induction height with
  | zero =>
    intro rgba length
    rw [List.eq_nil_of_length_eq_zero length]
    rfl
  | succ height inductionHypothesis =>
    intro rgba length
    rw [Nat.mul_succ] at length
    have others := @inductionHypothesis (rgba.drop rowBytes) (by rw [List.length_drop]; omega)
    have row : (rgba.take rowBytes).length = rowBytes := by
      rw [List.length_take]
      omega
    have first := takeBytes_append (rgba.take rowBytes)
      (rawRows rowBytes height (rgba.drop rowBytes))
    rw [row] at first
    rw [rawRows, List.cons_append, unfilter, if_pos rfl, first]
    simp only [Option.bind_eq_bind, Option.bind_some, others, List.take_append_drop]

/-! ## Files -/

theorem parseChunks_chunkBytes (fuel : Nat) {type data : List Byte} (tag : type.length = 4)
    (short : data.length < 2 ^ 32) (other : type ≠ typeIEND) (rest : List Byte) :
    parseChunks (fuel + 1) (chunkBytes type data ++ rest) =
      (parseChunks fuel rest).map fun chunks => { type, data } :: chunks := by
  rw [parseChunks, parseChunk_chunkBytes tag short]
  simp only [Option.bind_eq_bind, Option.bind_some, if_neg other]
  cases parseChunks fuel rest <;> rfl

theorem parseChunks_IEND (fuel : Nat) :
    parseChunks (fuel + 1) (chunkBytes typeIEND []) = some [{ type := typeIEND, data := [] }] := by
  have chunk := @parseChunk_chunkBytes typeIEND [] rfl (by decide) []
  rw [List.append_nil] at chunk
  rw [parseChunks, chunk]
  rfl

theorem chunkBytes_length (type data : List Byte) : 8 ≤ (chunkBytes type data).length := by
  unfold chunkBytes pushBE32
  simp only [List.length_append, List.length_cons]
  omega

theorem idat_length {raw : List Byte} (bound : raw.length < 2 ^ 31) :
    (idat raw).length < 2 ^ 32 := by
  have blocks := (storedBlocks_length raw).2
  unfold idat pushBE32
  simp only [List.length_append, List.length_cons, List.length_nil]
  omega

/-- The picture that is decoded is the one that was encoded. -/
theorem decode_encodeRGBA {rgba : List Byte} {width height : Nat} (wide : 0 < width)
    (tall : 0 < height) (bound : (width * 4 + 1) * height < 2 ^ 31)
    (size : rgba.length = width * 4 * height) :
    decode (encodeRGBA rgba width height) = some (width, height, rgba) := by
  have rows := rawRows_length height size
  have stream := idat_length (rows.trans_lt bound)
  have width32 : width < 2 ^ 32 := by
    have factor := Nat.le_mul_of_pos_right (width * 4 + 1) tall
    omega
  have height32 : height < 2 ^ 32 := by
    have factor := Nat.le_mul_of_pos_left height (show 0 < width * 4 + 1 by omega)
    omega
  have widthNat : (BitVec.ofNat 32 width).toNat = width := by
    rw [BitVec.toNat_ofNat]
    exact Nat.mod_eq_of_lt width32
  have heightNat : (BitVec.ofNat 32 height).toNat = height := by
    rw [BitVec.toNat_ofNat]
    exact Nat.mod_eq_of_lt height32
  have wide' : BitVec.ofNat 32 width ≠ 0 := by
    intro zero
    rw [zero] at widthNat
    exact absurd widthNat (Nat.ne_of_lt wide)
  have tall' : BitVec.ofNat 32 height ≠ 0 := by
    intro zero
    rw [zero] at heightNat
    exact absurd heightNat (Nat.ne_of_lt tall)
  have chunks : ∀ fuel, parseChunks (fuel + 3)
      (chunkBytes typeIHDR (ihdr width height) ++
        (chunkBytes typeIDAT (idat (rawRows (width * 4) height rgba)) ++
          chunkBytes typeIEND [])) =
      some [{ type := typeIHDR, data := ihdr width height },
        { type := typeIDAT, data := idat (rawRows (width * 4) height rgba) },
        { type := typeIEND, data := [] }] := by
    intro fuel
    rw [parseChunks_chunkBytes (fuel + 2) rfl (by show 13 < 2 ^ 32; decide) (by decide),
      parseChunks_chunkBytes (fuel + 1) rfl stream (by decide), parseChunks_IEND fuel]
    rfl
  generalize fileEq : chunkBytes typeIHDR (ihdr width height) ++
    (chunkBytes typeIDAT (idat (rawRows (width * 4) height rgba)) ++
      chunkBytes typeIEND []) = file at chunks
  have fuel : file.length + 1 = file.length - 2 + 3 := by
    have long := chunkBytes_length typeIEND []
    rw [← fileEq, List.length_append, List.length_append]
    omega
  have encoded : encodeRGBA rgba width height = sig ++ file := by
    unfold encodeRGBA
    rw [if_neg (by omega), Int.toNat_natCast, Int.toNat_natCast, fileEq]
  have front : takeBytes 8 (sig ++ file) = some (sig, file) := takeBytes_append sig file
  have fields : readBE32 (ihdr width height) = some (BitVec.ofNat 32 width,
      pushBE32 (BitVec.ofNat 32 height) ++ [8, 6, 0, 0, 0]) := by
    unfold ihdr
    rw [List.append_assoc, readBE32_pushBE32]
  have idats : (([{ type := typeIDAT, data := idat (rawRows (width * 4) height rgba) },
      { type := typeIEND, data := [] }].filter fun chunk : Chunk =>
        chunk.type = typeIDAT).flatMap (·.data)) =
      idat (rawRows (width * 4) height rgba) := by
    have end' : typeIEND ≠ typeIDAT := by decide
    simp [end']
  unfold decode
  rw [encoded]
  simp only [Option.bind_eq_bind, front, Option.bind_some, if_true, fuel, chunks, fields,
    readBE32_pushBE32, wide', tall', ne_eq, not_false_eq_true, and_self, idats, inflate_idat,
    widthNat, heightNat, unfilter_rawRows height size]

/-! ## Letters -/

theorem sextet_letter (n : BitVec 32) : sextet (letter n) = some (n.setWidth 6) := by
  have letters : ∀ k < 64,
      alphabet.findIdx? (fun entry => entry = alphabet.getD k '=') = some k := by
    decide
  have low : (n &&& 0x3f).toNat < 64 := by
    rw [BitVec.toNat_and]
    exact Nat.lt_of_le_of_lt Nat.and_le_right (by decide)
  have bits : BitVec.ofNat 6 (n &&& 0x3f).toNat = n.setWidth 6 := by
    rw [BitVec.ofNat_toNat]
    refine BitVec.eq_of_getLsbD_eq fun i below => ?_
    simp only [BitVec.getLsbD_setWidth, BitVec.getLsbD_and]
    interval_cases i <;> simp
  unfold sextet letter
  rw [letters _ low, Option.map_some, bits]

theorem letter_ne_pad (n : BitVec 32) : letter n ≠ '=' := by
  have padless : '=' ∉ alphabet := by decide
  have whole : alphabet.length = 64 := rfl
  have low : (n &&& 0x3f).toNat < alphabet.length := by
    rw [BitVec.toNat_and, whole]
    exact Nat.lt_of_le_of_lt Nat.and_le_right (by decide)
  unfold letter
  rw [List.getD_eq_getElem _ _ low]
  exact fun same => padless (same ▸ List.getElem_mem low)

/-- Six more bits of a word below some of them. -/
theorem shifted_append (n : BitVec 32) (width k : Nat) :
    (n >>> (k + 6)).setWidth width ++ (n >>> k).setWidth 6 = (n >>> k).setWidth (width + 6) := by
  refine BitVec.eq_of_getLsbD_eq fun i below => ?_
  rw [BitVec.getLsbD_append, BitVec.getLsbD_setWidth, BitVec.getLsbD_setWidth,
    BitVec.getLsbD_setWidth, BitVec.getLsbD_ushiftRight, BitVec.getLsbD_ushiftRight]
  by_cases low : i < 6
  · rw [if_pos low, decide_eq_true low, decide_eq_true below]
  · have place : k + 6 + (i - 6) = k + i := by omega
    rw [if_neg low, place, decide_eq_true (show i - 6 < width by omega), decide_eq_true below]

/-- Some bits of a word, out of a longer part of it. -/
theorem shifted_extract (n : BitVec 32) {width k from' length : Nat}
    (inside : from' + length ≤ width) :
    ((n >>> k).setWidth width).extractLsb' from' length = (n >>> (k + from')).setWidth length := by
  refine BitVec.eq_of_getLsbD_eq fun i below => ?_
  rw [BitVec.getLsbD_extractLsb', BitVec.getLsbD_setWidth, BitVec.getLsbD_setWidth,
    BitVec.getLsbD_ushiftRight, BitVec.getLsbD_ushiftRight,
    decide_eq_true (show from' + i < width by omega), Nat.add_assoc]
  rfl

/-- The bits of a word that bytes were put into. -/
theorem word_of_bytes (a b c : Byte) :
    let n : BitVec 32 := (a.setWidth 32 <<< 16) ||| (b.setWidth 32 <<< 8) ||| c.setWidth 32
    (n >>> 16).setWidth 8 = a ∧ (n >>> 8).setWidth 8 = b ∧ n.setWidth 8 = c := by
  refine ⟨?_, ?_, ?_⟩ <;>
    (refine BitVec.eq_of_getLsbD_eq fun i below => ?_
     simp only [BitVec.getLsbD_setWidth, BitVec.getLsbD_or, BitVec.getLsbD_ushiftRight,
       BitVec.getLsbD_shiftLeft]
     interval_cases i <;> simp)

/-- The bits of a word below the byte that was put into it. -/
theorem word_of_two_bytes (a b : Byte) :
    let n : BitVec 32 := (a.setWidth 32 <<< 16) ||| (b.setWidth 32 <<< 8)
    (n >>> 16).setWidth 8 = a ∧ (n >>> 8).setWidth 8 = b ∧ (n >>> 6).setWidth 2 = 0 := by
  refine ⟨?_, ?_, ?_⟩ <;>
    (refine BitVec.eq_of_getLsbD_eq fun i below => ?_
     simp only [BitVec.getLsbD_setWidth, BitVec.getLsbD_or, BitVec.getLsbD_ushiftRight,
       BitVec.getLsbD_shiftLeft]
     interval_cases i <;> simp)

theorem word_of_byte (a : Byte) :
    let n : BitVec 32 := a.setWidth 32 <<< 16
    (n >>> 16).setWidth 8 = a ∧ (n >>> 12).setWidth 4 = 0 := by
  refine ⟨?_, ?_⟩ <;>
    (refine BitVec.eq_of_getLsbD_eq fun i below => ?_
     simp only [BitVec.getLsbD_setWidth, BitVec.getLsbD_ushiftRight, BitVec.getLsbD_shiftLeft]
     interval_cases i <;> simp)

/-- What is written in letters is read back. -/
theorem base64Decode_base64Encode (data : List Byte) :
    base64Decode (base64Encode data) = some data := by
  induction data using base64Encode.induct with
  | case1 a b c data inductionHypothesis =>
    rw [base64Encode, base64Decode, if_neg fun pad => letter_ne_pad _ pad.2]
    obtain ⟨first, second, third⟩ := word_of_bytes a b c
    generalize (a.setWidth 32 <<< 16) ||| (b.setWidth 32 <<< 8) ||| c.setWidth 32 = n
      at first second third ⊢
    have bits : (n >>> 18).setWidth 6 ++ (n >>> 12).setWidth 6 ++ (n >>> 6).setWidth 6 ++
        n.setWidth 6 = (n >>> 0).setWidth 24 := by
      have last := shifted_append n 18 0
      rw [BitVec.ushiftRight_zero] at last ⊢
      rw [shifted_append n 6 12, shifted_append n 12 6, last]
    simp only [sextet_letter, Option.bind_eq_bind, Option.bind_some, inductionHypothesis, bits]
    rw [shifted_extract n (by decide), shifted_extract n (by decide),
      shifted_extract n (by decide), first, second, BitVec.ushiftRight_zero, third]
  | case2 a b =>
    rw [base64Encode, base64Decode, if_pos ⟨rfl, rfl⟩, if_neg (letter_ne_pad _)]
    obtain ⟨first, second, third⟩ := word_of_two_bytes a b
    generalize (a.setWidth 32 <<< 16) ||| (b.setWidth 32 <<< 8) = n at first second third ⊢
    have bits : (n >>> 18).setWidth 6 ++ (n >>> 12).setWidth 6 ++ (n >>> 6).setWidth 6 =
        (n >>> 6).setWidth 18 := by
      rw [shifted_append n 6 12, shifted_append n 12 6]
    simp only [sextet_letter, Option.bind_eq_bind, Option.bind_some, bits]
    rw [shifted_extract n (by decide), shifted_extract n (by decide),
      shifted_extract n (by decide), first, second, third, if_pos rfl]
  | case3 a =>
    rw [base64Encode, base64Decode, if_pos ⟨rfl, rfl⟩, if_pos rfl]
    obtain ⟨first, second⟩ := word_of_byte a
    generalize a.setWidth 32 <<< 16 = n at first second ⊢
    have bits : (n >>> 18).setWidth 6 ++ (n >>> 12).setWidth 6 = (n >>> 12).setWidth 12 :=
      shifted_append n 6 12
    simp only [sextet_letter, Option.bind_eq_bind, Option.bind_some, bits]
    rw [shifted_extract n (by decide), shifted_extract n (by decide), first, second, if_pos rfl]
  | case4 => rfl

end VectorDebugger.Png
