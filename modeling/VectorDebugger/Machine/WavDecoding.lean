import VectorDebugger.Machine.WavSafety

/-!
# What a recording is read as

A well-formed file is given by its chunks. It is read as one entry a frame, with the sign and the
order of the frame's samples, when its format comes first, its chunks need no padding, it does not
end with the header of its data, and its frames survive the rounding to 16 bits.
-/

namespace VectorDebugger

/-- The bytes of a field. -/
def toLittleEndian : Nat → Nat → List Byte
  | 0, _ => []
  | size + 1, value => BitVec.ofNat 8 value :: toLittleEndian size (value / 256)

@[simp] theorem toLittleEndian_length (size : Nat) :
    ∀ value, (toLittleEndian size value).length = size := by
  induction size with
  | zero => exact fun value => rfl
  | succ size inductionHypothesis =>
    exact fun value => congrArg (· + 1) (inductionHypothesis (value / 256))

/-- A field holds its value. -/
theorem littleEndian_toLittleEndian (size : Nat) :
    ∀ value, value < 256 ^ size → littleEndian (toLittleEndian size value) = value := by
  induction size with
  | zero =>
    intro value small
    show 0 = value
    omega
  | succ size inductionHypothesis =>
    intro value small
    have rest : value / 256 < 256 ^ size := by
      rw [Nat.pow_succ] at small
      omega
    show (BitVec.ofNat 8 value).toNat + 256 * littleEndian (toLittleEndian size (value / 256)) =
      value
    rw [inductionHypothesis _ rest, BitVec.toNat_ofNat]
    omega

/-- The value of bytes is bounded by their number. -/
theorem littleEndian_lt (bytes : List Byte) : littleEndian bytes < 256 ^ bytes.length := by
  induction bytes with
  | nil => exact Nat.one_pos
  | cons byte bytes inductionHypothesis =>
    have small := byte.isLt
    show byte.toNat + 256 * littleEndian bytes < 256 ^ (bytes.length + 1)
    rw [Nat.pow_succ]
    omega

/-- A chunk of a RIFF file. -/
structure RiffChunk where
  /-- The tag. -/
  id : List Byte
  /-- The contents. -/
  payload : List Byte
  /-- A tag has four bytes. -/
  tagged : id.length = 4
  /-- The size fits its field. -/
  short : payload.length < 2 ^ 32

namespace RiffChunk

/-- The byte after contents of odd size. -/
def padding (chunk : RiffChunk) : List Byte := if chunk.payload.length % 2 = 1 then [0] else []

/-- The bytes of a chunk. -/
def bytes (chunk : RiffChunk) : List Byte :=
  chunk.id ++ toLittleEndian 4 chunk.payload.length ++ chunk.payload ++ chunk.padding

/-- A chunk as the loop of `set_bytes` reads it, unless the file ends with its header. -/
theorem chunkAt_bytes {raw rest : List Byte} {offset : Nat} {chunk : RiffChunk}
    (here : raw.drop offset = chunk.bytes ++ rest)
    (more : chunk.payload ++ chunk.padding ++ rest ≠ []) :
    chunkAt raw offset = some
        ⟨chunk.id, offset + 8, chunk.payload.length, offset + 8 + chunk.payload.length⟩ ∧
      raw.drop (offset + 8) = chunk.payload ++ (chunk.padding ++ rest) := by
  have tagged := chunk.tagged
  have size := toLittleEndian_length 4 chunk.payload.length
  have split : raw.drop offset =
      chunk.id ++ (toLittleEndian 4 chunk.payload.length ++
        (chunk.payload ++ (chunk.padding ++ rest))) := by
    rw [here]
    unfold bytes
    simp only [List.append_assoc]
  have contents : raw.drop (offset + 8) = chunk.payload ++ (chunk.padding ++ rest) := by
    rw [← List.drop_drop, split, ← List.append_assoc, List.drop_left' (by
      rw [List.length_append, tagged, size])]
  have field : raw.drop (offset + 4) =
      toLittleEndian 4 chunk.payload.length ++ (chunk.payload ++ (chunk.padding ++ rest)) := by
    rw [← List.drop_drop, split, List.drop_left' tagged]
  have some : 0 < (raw.drop (offset + 8)).length := by
    rw [contents, ← List.append_assoc]
    exact List.length_pos_iff.mpr more
  have long : offset + 8 + chunk.payload.length ≤ raw.length := by
    have whole := congrArg List.length contents
    rw [List.length_append, List.length_drop] at whole
    rw [List.length_drop] at some
    omega
  rw [List.length_drop] at some
  refine ⟨?_, contents⟩
  unfold chunkAt
  rw [token_read _ _ (by omega), token_read _ _ (by omega), field, split, List.take_left' tagged,
    List.take_left' size]
  dsimp only
  rw [littleEndian_toLittleEndian 4 _ chunk.short, if_neg (by omega)]

end RiffChunk

/-- A chunk of even size needs no padding. -/
theorem RiffChunk.padding_even {chunk : RiffChunk} (even : chunk.payload.length % 2 = 0) :
    chunk.padding = [] := by
  unfold padding
  rw [if_neg (by omega)]

/-- The loop of `set_bytes` passes other chunks of even size. -/
theorem firstData_chunks {raw rest : List Byte} {data : RiffChunk} (tag : data.id = dataTag)
    (more : data.payload ++ data.padding ++ rest ≠ []) (others : List RiffChunk) :
    ∀ offset, raw.drop offset = others.flatMap RiffChunk.bytes ++ (data.bytes ++ rest) →
      (∀ other ∈ others, other.payload.length % 2 = 0 ∧ other.id ≠ dataTag) →
      ∃ chunk, FirstData raw offset chunk ∧ chunk.size = data.payload.length ∧
        ∃ tail, raw.drop chunk.start = data.payload ++ tail := by
  induction others with
  | nil =>
    intro offset here _
    obtain ⟨found, contents⟩ := RiffChunk.chunkAt_bytes here more
    exact ⟨_, .here found tag, rfl, _, contents⟩
  | cons other others inductionHypothesis =>
    intro offset here plain
    obtain ⟨even, named⟩ := plain other List.mem_cons_self
    rw [List.flatMap_cons, List.append_assoc] at here
    have follows : other.payload ++ other.padding ++
        (others.flatMap RiffChunk.bytes ++ (data.bytes ++ rest)) ≠ [] := by
      intro nothing
      have last := (List.append_eq_nil_iff.mp (List.append_eq_nil_iff.mp
        (List.append_eq_nil_iff.mp nothing).2).2).1
      have first : data.bytes.length = 0 := by rw [last]; rfl
      unfold RiffChunk.bytes at first
      simp only [List.length_append, data.tagged] at first
      omega
    obtain ⟨found, contents⟩ := RiffChunk.chunkAt_bytes here follows
    have next : raw.drop (offset + 8 + other.payload.length) =
        others.flatMap RiffChunk.bytes ++ (data.bytes ++ rest) := by
      rw [← List.drop_drop, contents, List.drop_left' rfl, RiffChunk.padding_even even,
        List.nil_append]
    obtain ⟨chunk, first, size, tail⟩ := inductionHypothesis _ next
      fun chunk listed => plain chunk (List.mem_cons_of_mem _ listed)
    exact ⟨chunk, .later found named first, size, tail⟩

namespace SampleType

/-- A sample at its own scale. -/
def signed (type : SampleType) (bytes : List Byte) : Int :=
  match type with
  | uint8 => (littleEndian bytes : Int) - 128
  | int16 => (BitVec.ofNat 16 (littleEndian bytes)).toInt
  | int32 => (BitVec.ofNat 32 (littleEndian bytes)).toInt

/-- The factor to the scale of `Data`. -/
def scale : SampleType → Int
  | uint8 => 256
  | int16 => 1
  | int32 => 1

/-- The bits of a sample. -/
def bits : SampleType → Nat
  | uint8 => 8
  | int16 => 16
  | int32 => 32

theorem widen_eq (type : SampleType) (bytes : List Byte) :
    type.widen bytes = type.scale * type.signed bytes := by
  cases type with
  | uint8 => exact Int.mul_comm _ _
  | int16 => exact (Int.one_mul _).symm
  | int32 => exact (Int.one_mul _).symm

theorem ofBits_bits (type : SampleType) : ofBits type.bits = some type := by
  cases type with
  | uint8 => rfl
  | int16 => rfl
  | int32 => rfl

end SampleType

/-- A well-formed RIFF/WAVE PCM file. -/
structure PcmFile where
  /-- The chunks before the format. -/
  before : List RiffChunk
  /-- The channels. -/
  channels : Nat
  /-- One or two channels. -/
  monoOrStereo : channels = 1 ∨ channels = 2
  /-- The sample type. -/
  type : SampleType
  /-- The frames in a second. -/
  sampleRate : Nat
  /-- There are some. -/
  sampled : 0 < sampleRate
  /-- The bytes of a second fit their field. -/
  rateShort : sampleRate * (channels * type.size) < 2 ^ 32
  /-- What follows the fields of the format. -/
  extension : List Byte
  /-- It is short. -/
  extensionShort : extension.length < 2 ^ 17
  /-- The chunks between the format and the data. -/
  between : List RiffChunk
  /-- The bytes of the samples. -/
  samples : List Byte
  /-- They are whole frames. -/
  framed : samples.length % (channels * type.size) = 0
  /-- Their number fits its field. -/
  samplesShort : samples.length < 2 ^ 32
  /-- The chunks after the data. -/
  after : List RiffChunk
  /-- There is one format and one chunk of data. -/
  others : ∀ other ∈ before ++ between, other.id ≠ fmtTag ∧ other.id ≠ dataTag

namespace PcmFile

/-- The fields of the format. -/
def format (file : PcmFile) : List Byte :=
  toLittleEndian 2 1 ++ toLittleEndian 2 file.channels ++ toLittleEndian 4 file.sampleRate ++
    toLittleEndian 4 (file.sampleRate * (file.channels * file.type.size)) ++
    toLittleEndian 2 (file.channels * file.type.size) ++ toLittleEndian 2 file.type.bits

/-- The format chunk. -/
def formatChunk (file : PcmFile) : RiffChunk where
  id := fmtTag
  payload := file.format ++ file.extension
  tagged := rfl
  short := by
    have short := file.extensionShort
    have fields : file.format.length = 16 := rfl
    rw [List.length_append, fields]
    omega

/-- The data chunk. -/
def dataChunk (file : PcmFile) : RiffChunk where
  id := dataTag
  payload := file.samples
  tagged := rfl
  short := file.samplesShort

/-- The chunks of a file. -/
def chunks (file : PcmFile) : List RiffChunk :=
  file.before ++ file.formatChunk :: (file.between ++ file.dataChunk :: file.after)

/-- The bytes of a file. -/
def bytes (file : PcmFile) : List Byte :=
  let contents := file.chunks.flatMap RiffChunk.bytes
  riffTag ++ toLittleEndian 4 (4 + contents.length) ++ waveTag ++ contents

/-- The number of frames. -/
def frames (file : PcmFile) : Nat := file.samples.length / (file.channels * file.type.size)

/-- A sample. -/
def sample (file : PcmFile) (index : Nat) : Int :=
  file.type.signed ((file.samples.drop (index * file.type.size)).take file.type.size)

/-- The sum of the samples of a frame: their average, times the channels. -/
def frameSum (file : PcmFile) (frame : Nat) : Int :=
  ((List.range file.channels).map fun channel =>
    file.sample (file.channels * frame + channel)).sum

/-- The average of a frame in the scale of `Data`, rounded to zero. -/
def level (file : PcmFile) (frame : Nat) : Int :=
  (file.type.scale * file.frameSum frame).tdiv file.channels

/-- A file is decoded faithfully: one entry a frame, with the sign and the order of its frame, and
the player puts out 1 exactly at positive frames. -/
structure Decoded (file : PcmFile) (wav : Wav) : Prop where
  length : wav.data.length = file.frames
  sign : ∀ frame (inside : frame < wav.data.length),
    wav.data[frame].toInt.sign = (file.frameSum frame).sign
  order : ∀ earlier later (first : earlier < wav.data.length) (second : later < wav.data.length),
    file.frameSum earlier ≤ file.frameSum later →
      wav.data[earlier].toInt ≤ wav.data[later].toInt
  played : ∀ player : WavPlayer, player.loaded = true → player.playhead < wav.data.length →
    Tape.sample ⟨wav, player⟩ = .ok (if 0 < file.frameSum player.playhead then 1 else 0)

/-- What the reader relies on: the format comes first, no chunk before the data is padded, the file
does not end with the header of its data, two samples of more than 8 bits do not average to a half,
and samples of 32 bits average to 16. -/
structure Readable (file : PcmFile) : Prop where
  first : file.before = []
  extensionEven : file.extension.length % 2 = 0
  even : ∀ other ∈ file.between, other.payload.length % 2 = 0
  more : file.samples ≠ [] ∨ file.after ≠ []
  rounded : file.type ≠ .uint8 → file.channels = 2 → ∀ frame < file.frames,
    file.frameSum frame ≠ 1 ∧ file.frameSum frame ≠ -1
  fits : file.type = .int32 → ∀ frame < file.frames,
    -2 ^ 15 ≤ file.level frame ∧ file.level frame < 2 ^ 15

variable {file : PcmFile}

/-- The bytes up to the end of the fields of the format, and what follows them. -/
theorem bytes_format (first : file.before = []) :
    file.bytes = riffTag ++ toLittleEndian 4 (4 + (file.chunks.flatMap RiffChunk.bytes).length) ++
      waveTag ++ fmtTag ++ toLittleEndian 4 (16 + file.extension.length) ++ file.format ++
        (file.extension ++ file.formatChunk.padding ++
          ((file.between.flatMap RiffChunk.bytes) ++
            (file.dataChunk.bytes ++ file.after.flatMap RiffChunk.bytes))) := by
  have fields : file.format.length = 16 := rfl
  have chunk : file.formatChunk.bytes = fmtTag ++
      toLittleEndian 4 (16 + file.extension.length) ++ (file.format ++ file.extension) ++
        file.formatChunk.padding := by
    show fmtTag ++ toLittleEndian 4 (file.format ++ file.extension).length ++
      (file.format ++ file.extension) ++ file.formatChunk.padding = _
    rw [List.length_append, fields]
  have split : file.chunks.flatMap RiffChunk.bytes = file.formatChunk.bytes ++
      ((file.between.flatMap RiffChunk.bytes) ++
        (file.dataChunk.bytes ++ file.after.flatMap RiffChunk.bytes)) := by
    unfold chunks
    rw [first, List.nil_append, List.flatMap_cons, List.flatMap_append, List.flatMap_cons]
  have whole : file.bytes = riffTag ++
      toLittleEndian 4 (4 + (file.chunks.flatMap RiffChunk.bytes).length) ++ waveTag ++
        file.chunks.flatMap RiffChunk.bytes := rfl
  rw [whole]
  generalize toLittleEndian 4 (4 + (file.chunks.flatMap RiffChunk.bytes).length) = size
  rw [split, chunk]
  simp only [List.append_assoc]

theorem typeSize_pos (type : SampleType) : 0 < type.size := by
  cases type with
  | uint8 => exact Nat.one_pos
  | int16 => exact Nat.two_pos
  | int32 => exact Nat.succ_pos 3

/-- The header of a file whose format comes first. -/
theorem header_taken (first : file.before = []) :
    PcmHeader file.bytes ∧ fieldAt file.bytes 16 4 = 16 + file.extension.length ∧
      fieldAt file.bytes 22 2 = file.channels ∧ fieldAt file.bytes 24 4 = file.sampleRate ∧
      fieldAt file.bytes 34 2 = file.type.bits := by
  have extension := file.extensionShort
  have channels := file.monoOrStereo
  have rate : file.sampleRate < 256 ^ 4 := by
    have bytes := file.rateShort
    have size := typeSize_pos file.type
    have many : 0 < file.channels * file.type.size := Nat.mul_pos (by omega) size
    exact lt_of_le_of_lt (Nat.le_mul_of_pos_right _ many) bytes
  have bits : file.type.bits < 256 ^ 2 := by
    cases file.type with
    | uint8 => decide
    | int16 => decide
    | int32 => decide
  have whole := bytes_format first
  have more : 0 < (file.extension ++ file.formatChunk.padding ++
      ((file.between.flatMap RiffChunk.bytes) ++
        (file.dataChunk.bytes ++ file.after.flatMap RiffChunk.bytes))).length := by
    have tagged := file.dataChunk.tagged
    have header : file.dataChunk.bytes.length =
        file.dataChunk.id.length + 4 + file.dataChunk.payload.length +
          file.dataChunk.padding.length := by
      unfold RiffChunk.bytes
      rw [List.length_append, List.length_append, List.length_append, toLittleEndian_length]
    simp only [List.length_append]
    omega
  generalize file.extension ++ file.formatChunk.padding ++
    ((file.between.flatMap RiffChunk.bytes) ++
      (file.dataChunk.bytes ++ file.after.flatMap RiffChunk.bytes)) = rest at whole more
  have sizeField : fieldAt file.bytes 16 4 =
      littleEndian (toLittleEndian 4 (16 + file.extension.length)) := by
    rw [whole]
    rfl
  have channelsField : fieldAt file.bytes 22 2 =
      littleEndian (toLittleEndian 2 file.channels) := by
    rw [whole]
    rfl
  have rateField : fieldAt file.bytes 24 4 = littleEndian (toLittleEndian 4 file.sampleRate) := by
    rw [whole]
    rfl
  have bitsField : fieldAt file.bytes 34 2 = littleEndian (toLittleEndian 2 file.type.bits) := by
    rw [whole]
    rfl
  have tags : PcmTags file.bytes := by
    rw [whole]
    exact ⟨rfl, rfl, rfl, rfl⟩
  have long : 36 < file.bytes.length := by
    have length : file.bytes.length = 36 + rest.length := by
      rw [whole, List.length_append]
      rfl
    omega
  rw [littleEndian_toLittleEndian _ _ (by omega)] at sizeField channelsField
  rw [littleEndian_toLittleEndian _ _ rate] at rateField
  rw [littleEndian_toLittleEndian _ _ bits] at bitsField
  exact ⟨⟨long, tags⟩, sizeField, channelsField, rateField, bitsField⟩

/-- What follows the format of a file whose format comes first, with an extension of even size. -/
theorem drop_format (first : file.before = []) (even : file.extension.length % 2 = 0) :
    file.bytes.drop (20 + (16 + file.extension.length)) =
      (file.between.flatMap RiffChunk.bytes) ++
        (file.dataChunk.bytes ++ file.after.flatMap RiffChunk.bytes) := by
  have padding : file.formatChunk.padding = [] := by
    apply RiffChunk.padding_even
    show (file.format ++ file.extension).length % 2 = 0
    have fields : file.format.length = 16 := rfl
    rw [List.length_append, fields]
    omega
  rw [bytes_format first, padding, List.append_nil, ← Nat.add_assoc, ← List.drop_drop]
  rw [List.drop_left' (by rfl), List.drop_left' rfl]

/-- The place of the samples in a readable file. -/
theorem firstData_readable (readable : file.Readable) :
    ∃ chunk, Decodes file.bytes chunk file.type ∧ chunk.size = file.samples.length ∧
      ∃ tail, file.bytes.drop chunk.start = file.samples ++ tail := by
  obtain ⟨header, size, -, -, bits⟩ := header_taken readable.first
  have more : file.dataChunk.payload ++ file.dataChunk.padding ++
      file.after.flatMap RiffChunk.bytes ≠ [] := by
    intro nothing
    obtain ⟨own, rest⟩ := List.append_eq_nil_iff.mp nothing
    rcases readable.more with some | some
    · exact some (List.append_eq_nil_iff.mp own).1
    · obtain ⟨last, others, split⟩ := List.exists_cons_of_ne_nil some
      rw [split, List.flatMap_cons] at rest
      have none := congrArg List.length (List.append_eq_nil_iff.mp rest).1
      unfold RiffChunk.bytes at none
      simp only [List.length_append, last.tagged, List.length_nil] at none
      omega
  obtain ⟨chunk, found, length, tail⟩ := firstData_chunks
    (show file.dataChunk.id = dataTag from rfl) more file.between _
    (drop_format readable.first readable.extensionEven)
    fun other listed => ⟨readable.even other listed,
      (file.others other (List.mem_append_right _ listed)).2⟩
  refine ⟨chunk, ⟨header, ?_, ?_⟩, length, tail⟩
  · rw [size]
    exact found
  · rw [bits]
    exact SampleType.ofBits_bits file.type

/-- A sample as `merge_stereo` reads it. -/
theorem sampleAt_eq {raw tail : List Byte} {src index : Nat}
    (contents : raw.drop src = file.samples ++ tail)
    (inside : (index + 1) * file.type.size ≤ file.samples.length) :
    file.type.sampleAt raw src index = file.type.scale * file.sample index := by
  rw [Nat.succ_mul] at inside
  unfold SampleType.sampleAt sample
  rw [← List.drop_drop, contents, List.drop_append_of_le_length (by omega),
    List.take_append_of_le_length (by rw [List.length_drop]; omega), SampleType.widen_eq]

/-- The samples of a frame are in the data. -/
theorem frame_inside {frame : Nat} (inside : frame < file.frames) :
    (file.channels * frame + file.channels) * file.type.size ≤ file.samples.length := by
  have frames : (frame + 1) * (file.channels * file.type.size) ≤ file.samples.length :=
    le_trans (Nat.mul_le_mul_right _ inside) (Nat.div_mul_le_self _ _)
  calc (file.channels * frame + file.channels) * file.type.size
      = (frame + 1) * (file.channels * file.type.size) := by ring
    _ ≤ file.samples.length := frames

/-- The range of a sample of 8 bits. -/
theorem sample_uint8 (type : file.type = .uint8) (index : Nat) :
    -128 ≤ file.sample index ∧ file.sample index < 128 := by
  unfold sample
  rw [type]
  have small := littleEndian_lt ((file.samples.drop (index * SampleType.uint8.size)).take
    SampleType.uint8.size)
  have length : ((file.samples.drop (index * SampleType.uint8.size)).take
      SampleType.uint8.size).length ≤ 1 := List.length_take_le _ _
  have bound := lt_of_lt_of_le small (Nat.pow_le_pow_right (show 0 < 256 by omega) length)
  show -128 ≤ (littleEndian _ : Int) - 128 ∧ (littleEndian _ : Int) - 128 < 128
  omega

/-- The range of a sample of 16 bits. -/
theorem sample_int16 (type : file.type = .int16) (index : Nat) :
    -2 ^ 15 ≤ file.sample index ∧ file.sample index < 2 ^ 15 := by
  unfold sample
  rw [type]
  exact ⟨BitVec.le_toInt _, BitVec.toInt_lt⟩

/-- Halving to zero, from above. -/
theorem half_nonneg {value : Int} (sign : 0 ≤ value) :
    value - 1 ≤ 2 * value.tdiv 2 ∧ 2 * value.tdiv 2 ≤ value := by
  rw [Int.tdiv_eq_ediv_of_nonneg sign]
  omega

/-- Halving to zero, from below. -/
theorem half_nonpos {value : Int} (sign : value ≤ 0) :
    value ≤ 2 * value.tdiv 2 ∧ 2 * value.tdiv 2 ≤ value + 1 := by
  have other := half_nonneg (show 0 ≤ -value by omega)
  rw [Int.neg_tdiv] at other
  omega

/-- The sum of a frame, sample by sample. -/
theorem frameSum_eq (file : PcmFile) (frame : Nat) :
    (file.channels = 1 → file.frameSum frame = file.sample frame) ∧
      (file.channels = 2 → file.frameSum frame =
        file.sample (2 * frame) + file.sample (2 * frame + 1)) := by
  unfold frameSum
  constructor
  · intro mono
    rw [mono]
    show file.sample (1 * frame + 0) + 0 = _
    rw [Int.add_zero, Nat.one_mul, Nat.add_zero]
  · intro stereo
    rw [stereo]
    show file.sample (2 * frame + 0) + (file.sample (2 * frame + 1) + 0) = _
    rw [Int.add_zero, Nat.add_zero]

/-- The levels of a readable file fit 16 bits. -/
theorem level_fits (readable : file.Readable) {frame : Nat} (inside : frame < file.frames) :
    -2 ^ 15 ≤ file.level frame ∧ file.level frame < 2 ^ 15 := by
  have sums := file.frameSum_eq frame
  cases type : file.type with
  | int32 => exact readable.fits type frame inside
  | uint8 =>
    unfold level
    rw [type]
    have first := sample_uint8 type
    rcases file.monoOrStereo with mono | stereo
    · rw [sums.1 mono, mono]
      have own := first frame
      show -2 ^ 15 ≤ (256 * file.sample frame).tdiv 1 ∧ (256 * file.sample frame).tdiv 1 < 2 ^ 15
      rw [Int.tdiv_one]
      omega
    · rw [sums.2 stereo, stereo]
      have left := first (2 * frame)
      have right := first (2 * frame + 1)
      show -2 ^ 15 ≤ (256 * (file.sample (2 * frame) + file.sample (2 * frame + 1))).tdiv 2 ∧
        (256 * (file.sample (2 * frame) + file.sample (2 * frame + 1))).tdiv 2 < 2 ^ 15
      rcases le_total 0 (256 * (file.sample (2 * frame) + file.sample (2 * frame + 1))) with
        sign | sign
      · have half := half_nonneg sign
        omega
      · have half := half_nonpos sign
        omega
  | int16 =>
    unfold level
    rw [type]
    have first := sample_int16 type
    rcases file.monoOrStereo with mono | stereo
    · rw [sums.1 mono, mono]
      have own := first frame
      show -2 ^ 15 ≤ (1 * file.sample frame).tdiv 1 ∧ (1 * file.sample frame).tdiv 1 < 2 ^ 15
      rw [Int.tdiv_one]
      omega
    · rw [sums.2 stereo, stereo]
      have left := first (2 * frame)
      have right := first (2 * frame + 1)
      show -2 ^ 15 ≤ (1 * (file.sample (2 * frame) + file.sample (2 * frame + 1))).tdiv 2 ∧
        (1 * (file.sample (2 * frame) + file.sample (2 * frame + 1))).tdiv 2 < 2 ^ 15
      rcases le_total 0 (1 * (file.sample (2 * frame) + file.sample (2 * frame + 1))) with
        sign | sign
      · have half := half_nonneg sign
        omega
      · have half := half_nonpos sign
        omega

/-- A pass of `merge_stereo` finds the level of its frame. -/
theorem merged_level (readable : file.Readable) {raw tail : List Byte} {src frame : Nat}
    (contents : raw.drop src = file.samples ++ tail) (inside : frame < file.frames) :
    file.type.merged file.channels raw src (samplesTaken file.channels * frame) =
      file.level frame := by
  have sums := file.frameSum_eq frame
  have fits := level_fits readable inside
  have place := frame_inside inside
  unfold SampleType.merged samplesTaken
  rcases file.monoOrStereo with mono | stereo
  · rw [if_neg (by omega), if_neg (by omega), Nat.one_mul]
    rw [mono, Nat.one_mul] at place
    rw [sampleAt_eq contents place]
    unfold level
    rw [sums.1 mono, mono]
    exact (Int.tdiv_one _).symm
  · rw [if_pos stereo, if_pos stereo]
    rw [stereo] at place
    have step : (2 * frame + 1) * file.type.size ≤ (2 * frame + 2) * file.type.size :=
      Nat.mul_le_mul_right _ (by omega)
    rw [sampleAt_eq contents (le_trans step place), sampleAt_eq contents place, ← Int.mul_add]
    unfold level at fits ⊢
    rw [← sums.2 stereo]
    rw [stereo] at fits ⊢
    have levels : ((2 : Nat) : Int) = 2 := rfl
    rw [levels] at fits ⊢
    rw [BitVec.toInt_ofInt, Int.bmod_eq_of_le]
    · rcases le_total 0 (file.type.scale * file.frameSum frame) with sign | sign
      · have half := half_nonneg sign
        omega
      · have half := half_nonpos sign
        omega
    · rcases le_total 0 (file.type.scale * file.frameSum frame) with sign | sign
      · have half := half_nonneg sign
        omega
      · have half := half_nonpos sign
        omega

/-- The level of a frame has the sign of its samples. -/
theorem level_sign (readable : file.Readable) {frame : Nat} (inside : frame < file.frames) :
    (file.level frame).sign = (file.frameSum frame).sign := by
  have scaled : 0 < file.type.scale := by
    cases file.type with
    | uint8 => decide
    | int16 => decide
    | int32 => decide
  have whole : file.channels = 2 → file.type.scale * file.frameSum frame ≠ 1 ∧
      file.type.scale * file.frameSum frame ≠ -1 := by
    intro stereo
    cases type : file.type with
    | uint8 =>
      show 256 * file.frameSum frame ≠ 1 ∧ 256 * file.frameSum frame ≠ -1
      omega
    | int16 =>
      have rounded := readable.rounded (by rw [type]; decide) stereo frame inside
      show 1 * file.frameSum frame ≠ 1 ∧ 1 * file.frameSum frame ≠ -1
      rwa [Int.one_mul]
    | int32 =>
      have rounded := readable.rounded (by rw [type]; decide) stereo frame inside
      show 1 * file.frameSum frame ≠ 1 ∧ 1 * file.frameSum frame ≠ -1
      rwa [Int.one_mul]
  have scaledSign : (file.type.scale * file.frameSum frame).sign = (file.frameSum frame).sign := by
    rw [Int.sign_mul, Int.sign_eq_one_iff_pos.mpr scaled, Int.one_mul]
  rw [← scaledSign]
  unfold level
  generalize file.type.scale * file.frameSum frame = value at whole
  rcases file.monoOrStereo with mono | stereo
  · rw [mono]
    show (value.tdiv 1).sign = value.sign
    rw [Int.tdiv_one]
  · have rounded := whole stereo
    rw [stereo]
    show (value.tdiv 2).sign = value.sign
    rcases lt_trichotomy value 0 with negative | zero | positive
    · have half := half_nonpos (le_of_lt negative)
      rw [Int.sign_eq_neg_one_iff_neg.mpr negative, Int.sign_eq_neg_one_iff_neg.mpr (by omega)]
    · rw [zero]
      rfl
    · have half := half_nonneg (le_of_lt positive)
      rw [Int.sign_eq_one_iff_pos.mpr positive, Int.sign_eq_one_iff_pos.mpr (by omega)]

/-- The levels are in the order of their frames. -/
theorem level_le (file : PcmFile) {earlier later : Nat}
    (order : file.frameSum earlier ≤ file.frameSum later) :
    file.level earlier ≤ file.level later := by
  have scaled : 0 ≤ file.type.scale := by
    cases file.type with
    | uint8 => decide
    | int16 => decide
    | int32 => decide
  have channels := file.monoOrStereo
  exact Int.tdiv_le_tdiv (by omega) (Int.mul_le_mul_of_nonneg_left order scaled)

/-- Entries at the levels of the frames decode a file. -/
theorem decoded_of_levels (readable : file.Readable) {wav : Wav}
    (length : wav.data.length = file.frames)
    (levels : ∀ frame (inside : frame < wav.data.length),
      wav.data[frame].toInt = file.level frame) : file.Decoded wav := by
  refine ⟨length, fun frame inside => ?_, fun earlier later first second order => ?_,
    fun player loaded playing => ?_⟩
  · rw [levels frame inside]
    exact level_sign readable (by omega)
  · rw [levels earlier first, levels later second]
    exact file.level_le order
  · have sign := level_sign readable (show player.playhead < file.frames by omega)
    have positive : (0 : BitVec 16).slt wav.data[player.playhead] =
        decide (0 < file.frameSum player.playhead) := by
      have zero : (0 : BitVec 16).toInt = 0 := rfl
      rw [BitVec.slt_eq_decide, levels _ playing, zero]
      apply decide_eq_decide.mpr
      rw [← Int.sign_eq_one_iff_pos, sign, Int.sign_eq_one_iff_pos]
    unfold Tape.sample
    dsimp only
    rw [loaded, decide_eq_true playing, Bool.and_self, if_pos rfl,
      List.getElem?_eq_getElem playing]
    dsimp only
    rw [positive]
    simp only [decide_eq_true_eq]

/-- A well-formed file is decoded faithfully where the reader can take it, over whatever was read
before: its format comes first, the chunks before the data have even sizes, something follows the
header of the data, no two samples of more than 8 bits average to a half, and averages of 32-bit
samples fit the 16 bits of an entry. -/
theorem setBytes_decoded (file : PcmFile) (readable : file.Readable) (wav : Wav) :
    ∃ after, wav.setBytes file.bytes = .ok (true, after) ∧ file.Decoded after := by
  obtain ⟨chunk, decodes, size, tail, contents⟩ := firstData_readable readable
  obtain ⟨-, -, channels, -, bits⟩ := header_taken readable.first
  have frames : file.samples.length / file.type.size / file.channels = file.frames := by
    rw [Nat.div_div_eq_div_mul, Nat.mul_comm]
    rfl
  have numChannels : (wav.headed file.bytes).numChannels = file.channels := channels
  have type : SampleType.ofBits (wav.headed file.bytes).bitsPerSample = some file.type := by
    show SampleType.ofBits (fieldAt file.bytes 34 2) = _
    rw [bits]
    exact SampleType.ofBits_bits file.type
  have whole : WholeFrames (wav.headed file.bytes).numChannels (chunk.size / file.type.size) := by
    rw [numChannels, size]
    rcases file.monoOrStereo with mono | stereo
    · exact ⟨by omega, .inr (.inl mono)⟩
    · refine ⟨by omega, .inr (.inr ⟨stereo, ?_⟩)⟩
      have framed := file.framed
      rw [stereo, Nat.mul_comm] at framed
      obtain ⟨count, samples⟩ := Nat.dvd_of_mod_eq_zero framed
      rw [samples, Nat.mul_assoc, Nat.mul_div_cancel_left _ (typeSize_pos file.type)]
      omega
  have read := Tape.setBytes_decodes decodes wav
  rw [Wav.decode_whole type decodes.2.1.inside whole, numChannels, size, frames] at read
  refine ⟨_, read, decoded_of_levels readable ?_ ?_⟩
  · show (List.map _ _).length = _
    rw [List.length_map, List.length_range]
  · intro frame inside
    have listed : frame < file.frames := by
      have length := inside
      dsimp only at length
      rwa [List.length_map, List.length_range] at length
    have fits := level_fits readable listed
    dsimp only
    rw [List.getElem_map, List.getElem_range, merged_level readable contents listed,
      BitVec.toInt_ofInt, Int.bmod_eq_of_le]
    · omega
    · omega

/-- One frame of 16 bits, with other chunks between the format and the data. -/
def oneFrame (between : List RiffChunk)
    (others : ∀ other ∈ [] ++ between, other.id ≠ fmtTag ∧ other.id ≠ dataTag) : PcmFile where
  before := []
  channels := 1
  monoOrStereo := .inl rfl
  type := .int16
  sampleRate := 44100
  sampled := by decide
  rateShort := by decide
  extension := []
  extensionShort := by decide
  between
  samples := [1, 0]
  framed := rfl
  samplesShort := by decide
  after := []
  others

/-- A file of one frame. -/
theorem setBytes_oneFrame :
    ∃ after, Wav.setBytes ⟨[], 0, 0, 0, 0, 0⟩
        (oneFrame [] fun _ listed => absurd listed List.not_mem_nil).bytes =
          .ok (true, after) ∧
      (oneFrame [] fun _ listed => absurd listed List.not_mem_nil).Decoded after :=
  setBytes_decoded (oneFrame [] fun _ listed => absurd listed List.not_mem_nil)
    { first := rfl
      extensionEven := rfl
      even := fun other listed => absurd listed List.not_mem_nil
      more := .inl (List.cons_ne_nil _ _)
      rounded := fun _ stereo => absurd stereo (by decide)
      fits := fun wide => SampleType.noConfusion wide } _

/-- A chunk of one byte, which is padded. -/
def listChunk : RiffChunk where
  id := [0x4c, 0x49, 0x53, 0x54]
  payload := [0]
  tagged := rfl
  short := by decide

theorem listChunk_other :
    ∀ other ∈ [] ++ [listChunk], other.id ≠ fmtTag ∧ other.id ≠ dataTag := by
  intro other listed
  rw [List.mem_singleton.mp listed]
  decide

/-- A padded chunk before the data hides it. -/
theorem padded_not_decoded : ¬ ∀ (file : PcmFile) (wav : Wav),
    ∃ after, wav.setBytes file.bytes = .ok (true, after) ∧ file.Decoded after := by
  intro decoded
  obtain ⟨after, read, -⟩ := decoded (oneFrame [listChunk] listChunk_other) ⟨[], 0, 0, 0, 0, 0⟩
  have first : (oneFrame [listChunk] listChunk_other).before = [] := rfl
  obtain ⟨header, size, -⟩ := header_taken first
  have passed : chunkAt (oneFrame [listChunk] listChunk_other).bytes 36 =
      some ⟨[0x4c, 0x49, 0x53, 0x54], 44, 1, 45⟩ := by decide
  have astray : chunkAt (oneFrame [listChunk] listChunk_other).bytes 45 =
      some ⟨[0, 0x64, 0x61, 0x74], 53, 3, 56⟩ := by decide
  have ended : chunkAt (oneFrame [listChunk] listChunk_other).bytes 56 = none := by decide
  have lost : findData (oneFrame [listChunk] listChunk_other).bytes 36 = none := by
    rw [findData_step, passed]
    dsimp only
    rw [if_neg (by decide), findData_step, astray]
    dsimp only
    rw [if_neg (by decide), findData_step, ended]
  unfold Wav.setBytes at read
  rw [Wav.parseHeader_taken header, size] at read
  dsimp only at read
  rw [show 20 + (16 + (oneFrame [listChunk] listChunk_other).extension.length) = 36 from rfl,
    lost] at read
  cases read

end PcmFile

end VectorDebugger
