import VectorDebugger.Machine.WavDecoding

/-!
# Recordings of the sound

`WavRecorder` collects the samples in a buffer, writes the buffer when it is full, and fills in the
size of the data when it is closed. The player of tapes reads such a file back as one entry a frame,
the mean of both channels.
-/

namespace VectorDebugger

/-- A frame of two channels, as 16 bits each. The conversion of the amplitudes, which are
floating-point numbers, is left out. -/
abbrev StereoFrame := BitVec 16 × BitVec 16

/-- `WavRecorder`, with what it has written. -/
structure WavRecorder where
  /-- `file`. -/
  file : List Byte
  /-- `buffer`. -/
  buffer : List (BitVec 16)
  /-- `offset`. -/
  offset : Nat
  /-- `data_size`. -/
  dataSize : BitVec 32

namespace WavRecorder

/-- `header`. -/
def header : List Byte :=
  [0x52, 0x49, 0x46, 0x46, 0x24, 0xb0, 0x2b,
    0x00, 0x57, 0x41, 0x56, 0x45, 0x66, 0x6d, 0x74, 0x20, 0x10, 0x00,
    0x00, 0x00, 0x01, 0x00, 0x02, 0x00, 0x80, 0xbb, 0x00, 0x00, 0x00,
    0xee, 0x02, 0x00, 0x04, 0x00, 0x10, 0x00, 0x64, 0x61, 0x74, 0x61,
    0x00, 0xb0, 0x2b, 0x00]

/-- `WavRecorder::init`. -/
def init : WavRecorder where
  file := header
  buffer := List.replicate 8192 0
  offset := 0
  dataSize := 0

/-- `length_pos`. -/
def lengthPos : Nat := header.length - 4

/-- The bytes of samples in memory. -/
def sampleBytes (samples : List (BitVec 16)) : List Byte :=
  samples.flatMap fun sample => toLittleEndian 2 sample.toNat

/-- `WavRecorder::record_sample`. -/
def recordSample (rec : WavRecorder) (frame : StereoFrame) : WavRecorder :=
  let buffer := (rec.buffer.set rec.offset frame.1).set (rec.offset + 1) frame.2
  let dataSize := rec.dataSize + 4
  if rec.offset + 2 ≥ buffer.length then
    { file := rec.file ++ sampleBytes buffer, buffer, offset := 0, dataSize }
  else { file := rec.file, buffer, offset := rec.offset + 2, dataSize }

/-- `WavRecorder::record_buffer`. -/
def recordBuffer (rec : WavRecorder) (frames : List StereoFrame) : WavRecorder :=
  frames.foldl recordSample rec

/-- `WavRecorder::~WavRecorder`: the file as it is closed. -/
def close (rec : WavRecorder) : List Byte :=
  let file :=
    if rec.offset > 0 then rec.file ++ sampleBytes (rec.buffer.take rec.offset) else rec.file
  file.take lengthPos ++ toLittleEndian 4 rec.dataSize.toNat ++ file.drop (lengthPos + 4)

/-- The file after some buffers. -/
def recording (buffers : List (List StereoFrame)) : List Byte :=
  (buffers.foldl recordBuffer init).close

/-! ## Writing -/

/-- The samples of frames. -/
def interleave (frames : List StereoFrame) : List (BitVec 16) :=
  frames.flatMap fun frame => [frame.1, frame.2]

/-- The file and the buffer hold the frames, and there is room for another one. -/
structure Holds (rec : WavRecorder) (frames : List StereoFrame) : Prop where
  /-- The size of the buffer. -/
  size : rec.buffer.length = 8192
  /-- The buffer holds whole frames. -/
  whole : rec.offset % 2 = 0
  /-- There is room. -/
  room : rec.offset < 8192
  /-- What was recorded. -/
  written : rec.file ++ sampleBytes (rec.buffer.take rec.offset) =
    header ++ sampleBytes (interleave frames)
  /-- Its size. -/
  counted : rec.dataSize = BitVec.ofNat 32 (4 * frames.length)

theorem sampleBytes_append (samples more : List (BitVec 16)) :
    sampleBytes (samples ++ more) = sampleBytes samples ++ sampleBytes more :=
  List.flatMap_append

/-- Two samples behind the others. -/
theorem take_set_set {samples : List (BitVec 16)} {offset : Nat}
    (room : offset + 1 < samples.length) (left right : BitVec 16) :
    ((samples.set offset left).set (offset + 1) right).take (offset + 2) =
      samples.take offset ++ [left, right] := by
  have before : ((samples.set offset left).set (offset + 1) right).take offset =
      samples.take offset := by
    rw [List.take_set_of_le (by omega), List.take_set_of_le (le_refl _)]
  have first : ((samples.set offset left).set (offset + 1) right)[offset]? = some left := by
    rw [List.getElem?_set_ne (by omega), List.getElem?_set_self (by omega)]
  have second : ((samples.set offset left).set (offset + 1) right)[offset + 1]? = some right := by
    rw [List.getElem?_set_self (by rw [List.length_set]; exact room)]
  rw [List.take_add_one, List.take_add_one, before, first, second, List.append_assoc]
  rfl

/-- A frame is added, in the buffer or in the file. -/
theorem holds_recordSample {rec : WavRecorder} {frames : List StereoFrame}
    (holds : rec.Holds frames) (frame : StereoFrame) :
    (rec.recordSample frame).Holds (frames ++ [frame]) := by
  obtain ⟨size, whole, room, written, counted⟩ := holds
  obtain ⟨buffer, bufferEq⟩ : ∃ buffer,
      buffer = (rec.buffer.set rec.offset frame.1).set (rec.offset + 1) frame.2 := ⟨_, rfl⟩
  have length : buffer.length = 8192 := by
    rw [bufferEq, List.length_set, List.length_set, size]
  have taken : buffer.take (rec.offset + 2) = rec.buffer.take rec.offset ++ [frame.1, frame.2] := by
    rw [bufferEq]
    exact take_set_set (by omega) _ _
  have all : rec.file ++ sampleBytes (buffer.take (rec.offset + 2)) =
      header ++ sampleBytes (interleave (frames ++ [frame])) := by
    have more : interleave (frames ++ [frame]) = interleave frames ++ [frame.1, frame.2] :=
      List.flatMap_append
    rw [taken, more, sampleBytes_append, sampleBytes_append, ← List.append_assoc, written,
      List.append_assoc]
  have next : rec.dataSize + 4 = BitVec.ofNat 32 (4 * (frames ++ [frame]).length) := by
    rw [counted, List.length_append, Nat.mul_add, BitVec.ofNat_add]
    rfl
  unfold recordSample
  rw [← bufferEq]
  dsimp only
  split
  case isTrue full =>
    have last : rec.offset + 2 = buffer.length := by omega
    rw [last, List.take_length] at all
    exact ⟨length, rfl, Nat.succ_pos 8191, (List.append_nil _).trans all, next⟩
  case isFalse free =>
    exact ⟨length, by show (rec.offset + 2) % 2 = 0; omega, by
      show rec.offset + 2 < 8192; omega, all, next⟩

theorem holds_recordBuffer (more : List StereoFrame) :
    ∀ {rec : WavRecorder} {frames : List StereoFrame}, rec.Holds frames →
      (rec.recordBuffer more).Holds (frames ++ more) := by
  induction more with
  | nil =>
    intro rec frames holds
    rw [List.append_nil]
    exact holds
  | cons frame more inductionHypothesis =>
    intro rec frames holds
    have later := inductionHypothesis (holds_recordSample holds frame)
    rw [List.append_assoc] at later
    exact later

theorem holds_buffers (buffers : List (List StereoFrame)) :
    ∀ {rec : WavRecorder} {frames : List StereoFrame}, rec.Holds frames →
      (buffers.foldl recordBuffer rec).Holds (frames ++ buffers.flatten) := by
  induction buffers with
  | nil =>
    intro rec frames holds
    rw [List.flatten_nil, List.append_nil]
    exact holds
  | cons more buffers inductionHypothesis =>
    intro rec frames holds
    have later := inductionHypothesis (holds_recordBuffer more holds)
    rw [List.append_assoc] at later
    exact later

theorem holds_init : init.Holds [] :=
  ⟨List.length_replicate, rfl, by decide, rfl, rfl⟩

theorem length_sampleBytes (samples : List (BitVec 16)) :
    (sampleBytes samples).length = 2 * samples.length := by
  induction samples with
  | nil => rfl
  | cons sample samples inductionHypothesis =>
    have here : sampleBytes (sample :: samples) =
        toLittleEndian 2 sample.toNat ++ sampleBytes samples := rfl
    rw [here, List.length_append, inductionHypothesis, toLittleEndian_length, List.length_cons]
    omega

theorem length_interleave (frames : List StereoFrame) :
    (interleave frames).length = 2 * frames.length := by
  induction frames with
  | nil => rfl
  | cons frame frames inductionHypothesis =>
    have here : interleave (frame :: frames) = [frame.1, frame.2] ++ interleave frames := rfl
    rw [here, List.length_append, inductionHypothesis]
    show 2 + 2 * frames.length = 2 * (frames.length + 1)
    omega

/-- The file is its header, the size and the samples. -/
theorem recording_eq (buffers : List (List StereoFrame)) :
    recording buffers = header.take 40 ++
      (toLittleEndian 4 (4 * buffers.flatten.length % 2 ^ 32) ++
        sampleBytes (interleave buffers.flatten)) := by
  have holds := holds_buffers buffers holds_init
  obtain ⟨rec, recEq⟩ : ∃ rec, rec = buffers.foldl recordBuffer init := ⟨_, rfl⟩
  rw [List.nil_append, ← recEq] at holds
  have file : (if rec.offset > 0 then rec.file ++ sampleBytes (rec.buffer.take rec.offset)
      else rec.file) = header ++ sampleBytes (interleave buffers.flatten) := by
    split
    case isTrue => exact holds.written
    case isFalse none =>
      have written := holds.written
      rw [show rec.offset = 0 by omega, List.take_zero] at written
      exact (List.append_nil _).symm.trans written
  unfold recording close
  rw [← recEq]
  dsimp only
  rw [file, holds.counted, BitVec.toNat_ofNat, List.append_assoc]
  rfl

/-! ## Reading -/

/-- The entry of a frame: the mean of both channels, rounded to zero. -/
def mean (frame : StereoFrame) : BitVec 16 :=
  BitVec.ofInt 16 ((frame.1.toInt + frame.2.toInt).tdiv 2)

theorem drop_frames (frames : List StereoFrame) : ∀ k,
    (sampleBytes (interleave frames)).drop (4 * k) = sampleBytes (interleave (frames.drop k)) := by
  induction frames with
  | nil =>
    intro k
    rw [List.drop_nil]
    exact List.drop_nil
  | cons frame frames inductionHypothesis =>
    intro k
    cases k with
    | zero => rfl
    | succ k =>
      rw [List.drop_succ_cons, ← inductionHypothesis k, Nat.mul_succ, Nat.add_comm,
        ← List.drop_drop]
      rfl

theorem widen_sample (sample : BitVec 16) :
    SampleType.widen .int16 (toLittleEndian 2 sample.toNat) = sample.toInt := by
  show (BitVec.ofNat 16 (littleEndian (toLittleEndian 2 sample.toNat))).toInt = _
  rw [littleEndian_toLittleEndian 2 _ sample.isLt, BitVec.ofNat_toNat, BitVec.setWidth_eq]

/-- What the reader merges is the frame. -/
theorem merged_frame {raw : List Byte} {src : Nat} {frames : List StereoFrame}
    (contents : raw.drop src = sampleBytes (interleave frames)) {k : Nat}
    (inside : k < frames.length) :
    BitVec.ofInt 16 (SampleType.merged .int16 2 raw src (2 * k)) = mean frames[k] := by
  have here : raw.drop (src + 4 * k) =
      toLittleEndian 2 frames[k].1.toNat ++ (toLittleEndian 2 frames[k].2.toNat ++
        sampleBytes (interleave (frames.drop (k + 1)))) := by
    rw [← List.drop_drop, contents, drop_frames, List.drop_eq_getElem_cons inside]
    rfl
  have left : SampleType.sampleAt .int16 raw src (2 * k) = frames[k].1.toInt := by
    have offset : src + 2 * k * SampleType.size .int16 = src + 4 * k := by
      show src + 2 * k * 2 = _
      omega
    unfold SampleType.sampleAt
    rw [offset, here, ← widen_sample]
    rfl
  have right : SampleType.sampleAt .int16 raw src (2 * k + 1) = frames[k].2.toInt := by
    have offset : src + (2 * k + 1) * SampleType.size .int16 = src + 4 * k + 2 := by
      show src + (2 * k + 1) * 2 = _
      omega
    unfold SampleType.sampleAt
    rw [offset, ← List.drop_drop, here, ← widen_sample]
    rfl
  have small : (BitVec.ofInt 32 (frames[k].1.toInt + frames[k].2.toInt)).toInt =
      frames[k].1.toInt + frames[k].2.toInt := by
    have first := BitVec.le_toInt frames[k].1
    have second := BitVec.le_toInt frames[k].2
    have third := @BitVec.toInt_lt _ frames[k].1
    have fourth := @BitVec.toInt_lt _ frames[k].2
    rw [BitVec.toInt_ofInt, Int.bmod_eq_of_le]
    · omega
    · omega
  unfold SampleType.merged mean
  rw [if_pos rfl, left, right, small]

/-- A recording of up to 4 GiB is read back by the player of tapes, whatever it had read before: its
format is taken, and its entries are the means of the frames in their order. -/
theorem recording_read (buffers : List (List StereoFrame)) (some' : buffers.flatten ≠ [])
    (short : 4 * buffers.flatten.length < 2 ^ 32) (wav : Wav) :
    ∃ after, wav.setBytes (recording buffers) = .ok (true, after) ∧
      after.data = buffers.flatten.map mean ∧ after.numChannels = 2 ∧
      after.sampleRate = 48000 ∧ after.bitsPerSample = 16 := by
  obtain ⟨frames, framesEq⟩ : ∃ frames, frames = buffers.flatten := ⟨_, rfl⟩
  have file := recording_eq buffers
  rw [← framesEq] at some' short file ⊢
  rw [Nat.mod_eq_of_lt short] at file
  have length : (sampleBytes (interleave frames)).length = 4 * frames.length := by
    rw [length_sampleBytes, length_interleave]
    omega
  have positive := List.length_pos_iff.mpr some'
  let data : RiffChunk :=
    { id := dataTag, payload := sampleBytes (interleave frames), tagged := rfl
      short := by rw [length]; exact short }
  have padding : data.padding = [] := by
    refine RiffChunk.padding_even ?_
    show (sampleBytes (interleave frames)).length % 2 = 0
    omega
  have more : data.payload ++ data.padding ++ [] ≠ [] := by
    rw [List.append_nil, padding, List.append_nil]
    refine List.ne_nil_of_length_pos ?_
    show 0 < (sampleBytes (interleave frames)).length
    omega
  have chunk : (recording buffers).drop 36 = data.bytes ++ [] := by
    have bytes : data.bytes = dataTag ++ toLittleEndian 4 (4 * frames.length) ++
        sampleBytes (interleave frames) := by
      unfold RiffChunk.bytes
      rw [padding, List.append_nil]
      show dataTag ++ toLittleEndian 4 (sampleBytes (interleave frames)).length ++ _ = _
      rw [length]
    rw [file, bytes, List.append_nil]
    rfl
  obtain ⟨found, contents⟩ := RiffChunk.chunkAt_bytes chunk more
  rw [padding, List.append_nil, List.append_nil] at contents
  have size : fieldAt (recording buffers) 16 4 = 16 := by
    rw [file]
    rfl
  have channels : fieldAt (recording buffers) 22 2 = 2 := by
    rw [file]
    rfl
  have rate : fieldAt (recording buffers) 24 4 = 48000 := by
    have field : fieldAt (recording buffers) 24 4 = littleEndian [0x80, 0xbb, 0x00, 0x00] := by
      rw [file]
      rfl
    rw [field]
    decide
  have bits : fieldAt (recording buffers) 34 2 = 16 := by
    rw [file]
    rfl
  have tags : PcmTags (recording buffers) := by
    rw [file]
    exact ⟨rfl, rfl, rfl, rfl⟩
  have long : 36 < (recording buffers).length := by
    rw [file, List.length_append]
    show 36 < 40 + _
    omega
  have first : FirstData (recording buffers) 36 _ := .here found rfl
  have decodes : Decodes (recording buffers) _ .int16 :=
    ⟨⟨long, tags⟩, by rw [size]; exact first, by rw [bits]; rfl⟩
  have type : SampleType.ofBits (wav.headed (recording buffers)).bitsPerSample = some .int16 := by
    show SampleType.ofBits (fieldAt (recording buffers) 34 2) = _
    rw [bits]
    rfl
  have stereo : (wav.headed (recording buffers)).numChannels = 2 := channels
  have count : data.payload.length / SampleType.size .int16 = 2 * frames.length := by
    show (sampleBytes (interleave frames)).length / 2 = _
    omega
  have whole : WholeFrames (wav.headed (recording buffers)).numChannels
      (data.payload.length / SampleType.size .int16) := by
    rw [stereo, count]
    exact ⟨by decide, .inr (.inr ⟨rfl, by omega⟩)⟩
  have read := Tape.setBytes_decodes decodes wav
  rw [Wav.decode_whole type first.inside whole] at read
  refine ⟨_, read, ?_, channels, rate, bits⟩
  rw [stereo, count, Nat.mul_div_cancel_left _ (by decide)]
  refine List.ext_getElem (by rw [List.length_map, List.length_map, List.length_range])
    fun k listed inside => ?_
  rw [List.getElem_map, List.getElem_map, List.getElem_range]
  exact merged_frame contents _

/-- Two buffers, the second one empty. -/
theorem recording_read_buffers :
    ∃ after, Wav.setBytes ⟨[], 0, 0, 0, 0, 0⟩ (recording [[(0x7fff, 1), (0x8000, 0xffff)], []]) =
        .ok (true, after) ∧
      after.data = [[(0x7fff, 1), (0x8000, 0xffff)], []].flatten.map mean ∧
      after.numChannels = 2 ∧ after.sampleRate = 48000 ∧ after.bitsPerSample = 16 :=
  recording_read [[(0x7fff, 1), (0x8000, 0xffff)], []] (List.cons_ne_nil _ _) (by decide) _

end WavRecorder

end VectorDebugger
