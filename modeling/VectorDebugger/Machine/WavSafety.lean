import VectorDebugger.Machine.Wav

/-!
# What a recording can break

A file is read without a fault exactly when its samples are whole frames of one or two channels, or
there are none, and it is then played without one exactly when it gives a sample rate or has no
frames. The conditions are on the fields of the file and on its first `data` chunk.
-/

namespace VectorDebugger

/-- A field of the file. -/
def fieldAt (raw : List Byte) (offset size : Nat) : Nat :=
  littleEndian ((raw.drop offset).take size)

/-- The tags and the format of a file that `parse_header` takes. -/
def PcmTags (raw : List Byte) : Prop :=
  raw.take 4 = riffTag ∧ (raw.drop 8).take 4 = waveTag ∧ (raw.drop 12).take 4 = fmtTag ∧
    fieldAt raw 20 2 = 1

instance (raw : List Byte) : Decidable (PcmTags raw) :=
  inferInstanceAs (Decidable (_ ∧ _ ∧ _ ∧ _))

/-- A file whose header is taken: it goes on after the last field. -/
def PcmHeader (raw : List Byte) : Prop := 36 < raw.length ∧ PcmTags raw

/-- The first `data` chunk, from an offset on. -/
inductive FirstData (raw : List Byte) : Nat → WavChunk → Prop
  /-- The chunk at the offset. -/
  | here {offset : Nat} {chunk : WavChunk} (found : chunkAt raw offset = some chunk)
    (data : chunk.id = dataTag) : FirstData raw offset chunk
  /-- A chunk after another one. -/
  | later {offset : Nat} {other chunk : WavChunk} (found : chunkAt raw offset = some other)
    (skipped : other.id ≠ dataTag) (rest : FirstData raw other.next chunk) :
    FirstData raw offset chunk

/-- A pass of the loop of `set_bytes`. -/
theorem findData_step (raw : List Byte) (offset : Nat) :
    findData raw offset =
      match chunkAt raw offset with
      | none => none
      | some chunk => if chunk.id = dataTag then some chunk else findData raw chunk.next := by
  rw [findData.eq_def]
  split
  · rename_i none
    rw [none]
  · rename_i chunk found
    rw [found]

/-- The loop of `set_bytes` finds the first `data` chunk. -/
theorem findData_iff {raw : List Byte} {chunk : WavChunk} (offset : Nat) :
    findData raw offset = some chunk ↔ FirstData raw offset chunk := by
  constructor
  · intro found
    induction offset using findData.induct raw with
    | case1 offset none =>
      rw [findData_step, none] at found
      cases found
    | case2 offset other at_ data =>
      rw [findData_step, at_] at found
      dsimp only at found
      rw [if_pos data] at found
      cases found
      exact .here at_ data
    | case3 offset other at_ skipped inductionHypothesis =>
      rw [findData_step, at_] at found
      dsimp only at found
      rw [if_neg skipped] at found
      exact .later at_ skipped (inductionHypothesis found)
  · intro first
    induction first with
    | here found data =>
      rw [findData_step, found]
      exact if_pos data
    | later found skipped rest inductionHypothesis =>
      rw [findData_step, found]
      dsimp only
      rw [if_neg skipped]
      exact inductionHypothesis

/-- The first `data` chunk lies in the file. -/
theorem FirstData.inside {raw : List Byte} {offset : Nat} {chunk : WavChunk}
    (first : FirstData raw offset chunk) : chunk.start + chunk.size ≤ raw.length := by
  induction first with
  | here found data => exact (chunkAt_inside found).2.2.1
  | later found skipped rest inductionHypothesis => exact inductionHypothesis

/-- The samples of a chunk are whole frames, so that `Data` has room for them. -/
def WholeFrames (numChannels count : Nat) : Prop :=
  numChannels ≠ 0 ∧ (count = 0 ∨ numChannels = 1 ∨ numChannels = 2 ∧ count % 2 = 0)

namespace Wav

/-- The sample rate that the header of a file leaves. -/
def headerRate (wav : Wav) (raw : List Byte) : Nat :=
  if 28 < raw.length ∧ PcmTags raw then fieldAt raw 24 4 else wav.sampleRate

/-- A header that is not taken: the samples stay, and the rate may have been set. -/
def Rejected (wav : Wav) (raw : List Byte) (parsed : Wav × Option Nat) : Prop :=
  parsed.2 = none ∧ parsed.1.data = wav.data ∧ parsed.1.sampleRate = wav.headerRate raw

theorem rejected_token {wav : Wav} {raw : List Byte} {offset size : Nat}
    {short : Wav × Option Nat} {next : List Byte → Nat → Wav × Option Nat}
    (ended : raw.length ≤ offset + size → wav.Rejected raw short)
    (read : offset + size < raw.length →
      wav.Rejected raw (next ((raw.drop offset).take size) (offset + size))) :
    wav.Rejected raw (token raw offset size short next) := by
  by_cases ends : raw.length ≤ offset + size
  · rw [token_short _ _ ends]
    exact ended ends
  · rw [token_read _ _ (Nat.not_le.mp ends)]
    exact read (Nat.not_le.mp ends)

/-- A file without a header that is taken. -/
theorem parseHeader_rejected {raw : List Byte} (bad : ¬ PcmHeader raw) (wav : Wav) :
    wav.Rejected raw (wav.parseHeader raw 0) := by
  have early : ¬ (28 < raw.length ∧ PcmTags raw) →
      ∀ parsed : Wav, parsed.data = wav.data → parsed.sampleRate = wav.sampleRate →
        wav.Rejected raw (parsed, none) := by
    intro before parsed data rate
    refine ⟨rfl, data, ?_⟩
    unfold headerRate
    rw [if_neg before]
    exact rate
  unfold parseHeader
  refine rejected_token (fun ends => early (by omega) _ rfl rfl) fun _ => ?_
  by_cases riff : raw.take 4 = riffTag
  swap
  · rw [if_pos (show (raw.drop 0).take 4 ≠ riffTag from riff)]
    exact early (fun read => riff read.2.1) _ rfl rfl
  rw [if_neg (show ¬ (raw.drop 0).take 4 ≠ riffTag from not_not.mpr riff)]
  refine rejected_token (fun ends => early (by omega) _ rfl rfl) fun _ => ?_
  refine rejected_token (fun ends => early (by omega) _ rfl rfl) fun _ => ?_
  by_cases wave : (raw.drop 8).take 4 = waveTag
  swap
  · rw [if_pos wave]
    exact early (fun read => wave read.2.2.1) _ rfl rfl
  rw [if_neg (not_not.mpr wave)]
  refine rejected_token (fun ends => early (by omega) _ rfl rfl) fun _ => ?_
  by_cases fmt : (raw.drop 12).take 4 = fmtTag
  swap
  · rw [if_pos fmt]
    exact early (fun read => fmt read.2.2.2.1) _ rfl rfl
  rw [if_neg (not_not.mpr fmt)]
  refine rejected_token (fun ends => early (by omega) _ rfl rfl) fun _ => ?_
  dsimp only
  refine rejected_token (fun ends => early (by omega) _ rfl rfl) fun _ => ?_
  by_cases pcm : fieldAt raw 20 2 = 1
  swap
  · rw [if_pos (show littleEndian ((raw.drop (0 + 4 + 4 + 4 + 4 + 4)).take 2) ≠ 1 from pcm)]
    exact early (fun read => pcm read.2.2.2.2) _ rfl rfl
  rw [if_neg (show ¬ littleEndian ((raw.drop (0 + 4 + 4 + 4 + 4 + 4)).take 2) ≠ 1 from
    not_not.mpr pcm)]
  have tags : PcmTags raw := ⟨riff, wave, fmt, pcm⟩
  refine rejected_token (fun ends => early (by omega) _ rfl rfl) fun _ => ?_
  refine rejected_token (fun ends => early (by omega) _ rfl rfl) fun rateRead => ?_
  have late : ∀ parsed : Wav, parsed.data = wav.data → parsed.sampleRate = fieldAt raw 24 4 →
      wav.Rejected raw (parsed, none) := by
    intro parsed data rate
    refine ⟨rfl, data, ?_⟩
    unfold headerRate
    rw [if_pos ⟨rateRead, tags⟩]
    exact rate
  refine rejected_token (fun ends => late _ rfl rfl) fun _ => ?_
  refine rejected_token (fun ends => late _ rfl rfl) fun _ => ?_
  refine rejected_token (fun ends => late _ rfl rfl) fun whole => ?_
  exact absurd ⟨whole, tags⟩ bad

/-- The fields of a header that is taken. -/
def headed (wav : Wav) (raw : List Byte) : Wav :=
  { data := wav.data
    numChannels := fieldAt raw 22 2
    sampleRate := fieldAt raw 24 4
    byteRate := fieldAt raw 28 4
    blockAlign := fieldAt raw 32 2
    bitsPerSample := fieldAt raw 34 2 }

/-- A file whose header is taken. -/
theorem parseHeader_taken {raw : List Byte} (header : PcmHeader raw) (wav : Wav) :
    wav.parseHeader raw 0 = (wav.headed raw, some (20 + fieldAt raw 16 4)) := by
  obtain ⟨long, riff, wave, fmt, pcm⟩ := header
  unfold parseHeader
  rw [token_read _ _ (by omega),
    if_neg (show ¬ (raw.drop 0).take 4 ≠ riffTag from not_not.mpr riff),
    token_read _ _ (by omega), token_read _ _ (by omega), if_neg (not_not.mpr wave),
    token_read _ _ (by omega), if_neg (not_not.mpr fmt), token_read _ _ (by omega)]
  dsimp only
  rw [token_read _ _ (by omega), if_neg
      (show ¬ littleEndian ((raw.drop (0 + 4 + 4 + 4 + 4 + 4)).take 2) ≠ 1 from not_not.mpr pcm),
    token_read _ _ (by omega), token_read _ _ (by omega), token_read _ _ (by omega),
    token_read _ _ (by omega),
    token_read _ _ (by omega)]
  rfl

/-- The samples of whole frames are read without a fault, one entry a frame. -/
theorem decode_whole {wav : Wav} {raw : List Byte} {chunk : WavChunk} {type : SampleType}
    (bits : SampleType.ofBits wav.bitsPerSample = some type)
    (inside : chunk.start + chunk.size ≤ raw.length)
    (whole : WholeFrames wav.numChannels (chunk.size / type.size)) :
    wav.decode raw chunk =
      .ok (true, { wav with
        data := (List.range (chunk.size / type.size / wav.numChannels)).map fun frame =>
          BitVec.ofInt 16 (type.merged wav.numChannels raw chunk.start
            (samplesTaken wav.numChannels * frame)) }) := by
  have samples : samplesTaken wav.numChannels * (chunk.size / type.size / wav.numChannels) =
      chunk.size / type.size := by
    unfold samplesTaken
    rcases whole.2 with empty | mono | ⟨stereo, even⟩
    · rw [empty, Nat.zero_div, Nat.mul_zero]
    · rw [if_neg (by omega), mono, Nat.div_one, Nat.one_mul]
    · rw [if_pos stereo, stereo]
      omega
  have bytes : chunk.size / type.size * type.size ≤ chunk.size := Nat.div_mul_le_self _ _
  have length := resize_length wav.data (chunk.size / type.size / wav.numChannels)
  have read : chunk.start + chunk.size / type.size * type.size ≤ raw.length := by omega
  have merged := mergeStereo_frames read (chunk.size / type.size / wav.numChannels) 0 0
    (resize wav.data (chunk.size / type.size / wav.numChannels)) (by rw [Nat.zero_add, samples])
    (by omega)
  unfold decode
  rw [bits]
  dsimp only
  rw [if_neg whole.1, merged]
  dsimp only
  rw [List.take_zero, List.nil_append, List.drop_of_length_le (by omega), List.append_nil]
  simp only [Nat.zero_add]

/-- Other samples leave a buffer, and no channels divide by zero. -/
theorem decode_faults {wav : Wav} {raw : List Byte} {chunk : WavChunk} {type : SampleType}
    (bits : SampleType.ofBits wav.bitsPerSample = some type)
    (uneven : ¬ WholeFrames wav.numChannels (chunk.size / type.size)) :
    ∃ fault, wav.decode raw chunk = .error fault := by
  unfold decode
  rw [bits]
  dsimp only
  by_cases none : wav.numChannels = 0
  · rw [if_pos none]
    exact ⟨_, rfl⟩
  rw [if_neg none]
  have more : samplesTaken wav.numChannels * (chunk.size / type.size / wav.numChannels) <
      chunk.size / type.size := by
    unfold samplesTaken
    by_cases stereo : wav.numChannels = 2
    · have odd : chunk.size / type.size % 2 ≠ 0 :=
        fun even => uneven ⟨none, .inr (.inr ⟨stereo, even⟩)⟩
      rw [if_pos stereo, stereo]
      omega
    · have some : chunk.size / type.size ≠ 0 := fun empty => uneven ⟨none, .inl empty⟩
      have many : wav.numChannels ≠ 1 := fun mono => uneven ⟨none, .inr (.inl mono)⟩
      rw [if_neg stereo, Nat.one_mul]
      exact Nat.div_lt_self (Nat.pos_of_ne_zero some) (by omega)
  have overflows : ∃ fault, mergeStereo type wav.numChannels raw chunk.start
      (chunk.size / type.size) 0 0
      (resize wav.data (chunk.size / type.size / wav.numChannels)) = .error fault :=
    mergeStereo_overflows (chunk.size / type.size / wav.numChannels) 0 0 _
      (by rw [resize_length, Nat.zero_add]) (by rw [Nat.zero_add]; exact more)
  obtain ⟨fault, overflows⟩ := overflows
  rw [overflows]
  exact ⟨fault, rfl⟩

end Wav

/-- The first `data` chunk of a file whose header is taken, with its sample type. -/
def Decodes (raw : List Byte) (chunk : WavChunk) (type : SampleType) : Prop :=
  PcmHeader raw ∧ FirstData raw (20 + fieldAt raw 16 4) chunk ∧
    SampleType.ofBits (fieldAt raw 34 2) = some type

/-- The fields of a file that has samples: whole frames, and a sample rate for them. -/
def SoundFields (raw : List Byte) (chunk : WavChunk) (type : SampleType) : Prop :=
  WholeFrames (fieldAt raw 22 2) (chunk.size / type.size) ∧
    (fieldAt raw 24 4 = 0 → chunk.size / type.size / fieldAt raw 22 2 = 0)

namespace Tape

/-- A file without samples leaves those of the tape, with the rate of its header. -/
theorem setBytes_undecoded {raw : List Byte} (nothing : ¬ ∃ chunk type, Decodes raw chunk type)
    (tape : Tape) : ∃ after, tape.setBytes raw = .ok (false, after) ∧
      after.player = tape.player ∧ after.wav.data = tape.wav.data ∧
      after.wav.sampleRate = tape.wav.headerRate raw := by
  have finished : ∀ wav : Wav, tape.wav.setBytes raw = .ok (false, wav) →
      wav.data = tape.wav.data → wav.sampleRate = tape.wav.headerRate raw →
      ∃ after, tape.setBytes raw = .ok (false, after) ∧ after.player = tape.player ∧
        after.wav.data = tape.wav.data ∧ after.wav.sampleRate = tape.wav.headerRate raw := by
    intro wav read data rate
    refine ⟨⟨wav, tape.player⟩, ?_, rfl, data, rate⟩
    unfold setBytes
    rw [read]
    rfl
  by_cases header : PcmHeader raw
  · have rate : tape.wav.headerRate raw = fieldAt raw 24 4 := by
      unfold Wav.headerRate
      exact if_pos ⟨by have long := header.1; omega, header.2⟩
    cases found : findData raw (20 + fieldAt raw 16 4) with
    | none =>
      refine finished (tape.wav.headed raw) ?_ rfl rate.symm
      unfold Wav.setBytes
      rw [Wav.parseHeader_taken header]
      dsimp only
      rw [found]
    | some chunk =>
      have first := (findData_iff _).mp found
      refine finished (tape.wav.headed raw) ?_ rfl rate.symm
      unfold Wav.setBytes
      rw [Wav.parseHeader_taken header]
      dsimp only
      rw [found]
      dsimp only
      unfold Wav.decode
      cases bits : SampleType.ofBits (tape.wav.headed raw).bitsPerSample with
      | none => rfl
      | some type => exact absurd ⟨chunk, type, header, first, bits⟩ nothing
  · obtain ⟨fails, data, rate⟩ := Wav.parseHeader_rejected header tape.wav
    refine finished (tape.wav.parseHeader raw 0).1 ?_ data rate
    unfold Wav.setBytes
    rw [show tape.wav.parseHeader raw 0 = ((tape.wav.parseHeader raw 0).1, none) from
      Prod.ext rfl fails]

/-- A file with samples is read as its `data` chunk is. -/
theorem setBytes_decodes {raw : List Byte} {chunk : WavChunk} {type : SampleType}
    (decodes : Decodes raw chunk type) (wav : Wav) :
    wav.setBytes raw = (wav.headed raw).decode raw chunk := by
  obtain ⟨header, first, -⟩ := decodes
  unfold Wav.setBytes
  rw [Wav.parseHeader_taken header]
  dsimp only
  rw [(findData_iff _).mpr first]

/-- A file, whatever its fields, and whatever tape was there before, is harmless exactly when its
samples, if it has any that are decoded, are whole frames with a sample rate, and else the rate
that its header leaves is not zero while earlier samples wait to be played. -/
theorem setBytes_harmless_iff (tape : Tape) (raw : List Byte) :
    tape.Harmless raw ↔
      (∀ chunk type, Decodes raw chunk type → SoundFields raw chunk type) ∧
        ((∀ chunk type, ¬ Decodes raw chunk type) →
          ¬ (tape.player.loaded = true ∧ tape.player.playhead < tape.wav.data.length ∧
            tape.player.ratio = 0 ∧ tape.wav.headerRate raw = 0)) := by
  unfold Harmless
  simp only [calls_ok_iff]
  by_cases some : ∃ chunk type, Decodes raw chunk type
  · obtain ⟨chunk, type, decodes⟩ := some
    have only : ∀ other (kind : SampleType), Decodes raw other kind →
        other = chunk ∧ kind = type := by
      intro other kind again
      have same := (findData_iff _).mpr decodes.2.1
      rw [(findData_iff _).mpr again.2.1] at same
      have sort := again.2.2.symm.trans decodes.2.2
      exact ⟨Option.some.inj same, Option.some.inj sort⟩
    have reduced : ((∀ chunk type, Decodes raw chunk type → SoundFields raw chunk type) ∧
        ((∀ chunk type, ¬ Decodes raw chunk type) →
          ¬ (tape.player.loaded = true ∧ tape.player.playhead < tape.wav.data.length ∧
            tape.player.ratio = 0 ∧ tape.wav.headerRate raw = 0))) ↔
          SoundFields raw chunk type := by
      constructor
      · exact fun both => both.1 chunk type decodes
      · intro sound
        refine ⟨fun other kind again => ?_, fun nothing => absurd decodes (nothing chunk type)⟩
        obtain ⟨rfl, rfl⟩ := only other kind again
        exact sound
    rw [reduced]
    have read := setBytes_decodes decodes tape.wav
    have bits : SampleType.ofBits (tape.wav.headed raw).bitsPerSample = Option.some type :=
      decodes.2.2
    by_cases whole : WholeFrames (tape.wav.headed raw).numChannels (chunk.size / type.size)
    · rw [Wav.decode_whole bits decodes.2.1.inside whole] at read
      generalize entriesEq : (List.range (chunk.size / type.size /
        (tape.wav.headed raw).numChannels)).map _ = entries at read
      have length : entries.length = chunk.size / type.size / fieldAt raw 22 2 := by
        rw [← entriesEq, List.length_map, List.length_range]
        rfl
      have returned : tape.setBytes raw = .ok (true,
          ⟨{ tape.wav.headed raw with data := entries }, tape.player.onloaded⟩) := by
        unfold setBytes
        rw [read]
        rfl
      rw [returned]
      constructor
      · rintro ⟨loaded, after, same, fed⟩
        cases same
        refine ⟨whole, fun rate => ?_⟩
        by_contra frames
        exact fed ⟨rfl, by rw [length]; exact Nat.pos_of_ne_zero frames, rfl, rate⟩
      · rintro ⟨-, rate⟩
        refine ⟨_, _, rfl, ?_⟩
        rintro ⟨-, playing, -, zero⟩
        have some : 0 < entries.length := playing
        rw [length, rate zero] at some
        exact Nat.lt_irrefl 0 some
    · obtain ⟨fault, faults⟩ := Wav.decode_faults bits whole
      have returned : tape.setBytes raw = .error fault := by
        unfold setBytes
        rw [read, faults]
      rw [returned]
      constructor
      · rintro ⟨loaded, after, same, -⟩
        cases same
      · exact fun sound => absurd sound.1 whole
  · have nothing : ∀ chunk type, ¬ Decodes raw chunk type :=
      fun chunk type decodes => some ⟨chunk, type, decodes⟩
    obtain ⟨after, read, player, data, rate⟩ := setBytes_undecoded some tape
    rw [read]
    have starved : after.Starved ↔ tape.player.loaded = true ∧
        tape.player.playhead < tape.wav.data.length ∧ tape.player.ratio = 0 ∧
          tape.wav.headerRate raw = 0 := by
      unfold Starved
      rw [player, data, rate]
    rw [← starved]
    constructor
    · rintro ⟨loaded, last, returned, fed⟩
      cases returned
      exact ⟨fun chunk type decodes => absurd decodes (nothing chunk type), fun _ => fed⟩
    · rintro ⟨-, fed⟩
      exact ⟨false, after, rfl, fed nothing⟩

/-- A file of no channels, with one byte of samples. -/
def noChannels : List Byte :=
  riffTag ++ [0x25, 0, 0, 0] ++ waveTag ++ fmtTag ++ [0x10, 0, 0, 0, 1, 0, 0, 0] ++
    [0x80, 0xbb, 0, 0, 0x80, 0xbb, 0, 0, 1, 0, 8, 0] ++ dataTag ++ [1, 0, 0, 0, 0x80]

/-- A file of no channels divides by zero. -/
theorem noChannels_faults : ¬ ∀ (tape : Tape) (raw : List Byte), tape.Harmless raw := by
  intro harmless
  obtain ⟨loaded, after, read, -⟩ :=
    harmless ⟨⟨[], 0, 0, 0, 0, 0⟩, ⟨0, 0, 0, false⟩⟩ noChannels
  have decodes : Decodes noChannels ⟨dataTag, 44, 1, 45⟩ .uint8 :=
    ⟨⟨by decide, by decide⟩, .here (by decide) rfl, by decide⟩
  have none : ((⟨[], 0, 0, 0, 0, 0⟩ : Wav).headed noChannels).numChannels = 0 := by decide
  have bits : SampleType.ofBits ((⟨[], 0, 0, 0, 0, 0⟩ : Wav).headed noChannels).bitsPerSample =
      some .uint8 := by decide
  have faults : ∃ fault, ((⟨[], 0, 0, 0, 0, 0⟩ : Wav).headed noChannels).decode noChannels
      ⟨dataTag, 44, 1, 45⟩ = .error fault :=
    Wav.decode_faults bits fun whole => whole.1 none
  obtain ⟨fault, faults⟩ := faults
  unfold setBytes at read
  rw [setBytes_decodes decodes, faults] at read
  cases read

end Tape

end VectorDebugger
