import VectorDebugger.Machine.Memory

/-!
# Tape recordings

`Wav` reads the samples of a WAV file and `WavPlayer` plays them. Both take the fields of the file
as they are, so a file can make them divide by zero or leave their buffers: each operation returns
the fault where the source has undefined behaviour.
-/

namespace VectorDebugger

/-- What a file can make the reader or the player do. -/
inductive WavFault
  /-- A division by zero. -/
  | divisionByZero
  /-- A read outside the file or outside `Data`. -/
  | readOutside
  /-- A write outside `Data`. -/
  | writeOutside
  deriving DecidableEq, Repr

/-- The value of bytes in the order of the machine that runs the emulator. -/
def littleEndian : List Byte → Nat
  | [] => 0
  | byte :: bytes => byte.toNat + 256 * littleEndian bytes

/-- `Wav`. -/
structure Wav where
  /-- `Data`. -/
  data : List (BitVec 16)
  /-- `NumChannels`. -/
  numChannels : Nat
  /-- `SampleRate`. -/
  sampleRate : Nat
  /-- `ByteRate`. -/
  byteRate : Nat
  /-- `BlockAlign`. -/
  blockAlign : Nat
  /-- `BitsPerSample`. -/
  bitsPerSample : Nat
  deriving DecidableEq, Repr

/-- The bytes `RIFF`. -/
def riffTag : List Byte := [0x52, 0x49, 0x46, 0x46]

/-- The bytes `WAVE`. -/
def waveTag : List Byte := [0x57, 0x41, 0x56, 0x45]

/-- The bytes `fmt` and a blank. -/
def fmtTag : List Byte := [0x66, 0x6d, 0x74, 0x20]

/-- The bytes `data`. -/
def dataTag : List Byte := [0x64, 0x61, 0x74, 0x61]

/-- `Wav::token`, with what follows it: `short` where it throws. The test leaves out a field that
ends the file. -/
def token {α : Type} (raw : List Byte) (offset size : Nat) (short : α)
    (next : List Byte → Nat → α) : α :=
  if offset + size ≥ raw.length then short
  else next ((raw.drop offset).take size) (offset + size)

section Token

variable {α : Type} {raw : List Byte} {offset size : Nat} (short : α)
  (next : List Byte → Nat → α)

theorem token_short (ends : raw.length ≤ offset + size) :
    token raw offset size short next = short := if_pos ends

theorem token_read (inside : offset + size < raw.length) :
    token raw offset size short next = next ((raw.drop offset).take size) (offset + size) :=
  if_neg (Nat.not_le.mpr inside)

end Token

namespace Wav

/-- `Wav::parse_header`: the fields that are set, and the next chunk unless it fails or throws. -/
def parseHeader (wav : Wav) (raw : List Byte) (sptr : Nat) : Wav × Option Nat :=
  token raw sptr 4 (wav, none) fun chunkid sptr =>
  if chunkid ≠ riffTag then (wav, none) else
  token raw sptr 4 (wav, none) fun _ sptr =>
  token raw sptr 4 (wav, none) fun wave sptr =>
  if wave ≠ waveTag then (wav, none) else
  token raw sptr 4 (wav, none) fun fmtid sptr =>
  if fmtid ≠ fmtTag then (wav, none) else
  token raw sptr 4 (wav, none) fun subchunksize sptr =>
  let nextchunk := sptr + littleEndian subchunksize
  token raw sptr 2 (wav, none) fun audioformat sptr =>
  if littleEndian audioformat ≠ 1 then (wav, none) else
  token raw sptr 2 (wav, none) fun channels sptr =>
  let wav := { wav with numChannels := littleEndian channels }
  token raw sptr 4 (wav, none) fun rate sptr =>
  let wav := { wav with sampleRate := littleEndian rate }
  token raw sptr 4 (wav, none) fun byteRate sptr =>
  let wav := { wav with byteRate := littleEndian byteRate }
  token raw sptr 2 (wav, none) fun blockAlign sptr =>
  let wav := { wav with blockAlign := littleEndian blockAlign }
  token raw sptr 2 (wav, none) fun bits _ =>
  ({ wav with bitsPerSample := littleEndian bits }, some nextchunk)

end Wav

/-- A chunk as `Wav::set_bytes` takes it. -/
structure WavChunk where
  /-- `chunk2id`. -/
  id : List Byte
  /-- `sptr`, the first byte of its contents. -/
  start : Nat
  /-- `chunk2sz`, cut at the end of the file. -/
  size : Nat
  /-- `nextchunk`. -/
  next : Nat
  deriving DecidableEq, Repr

/-- The pass of the loop of `Wav::set_bytes` that reads a chunk. -/
def chunkAt (raw : List Byte) (sptr : Nat) : Option WavChunk :=
  token raw sptr 4 none fun chunk2id sptr =>
  token raw sptr 4 none fun size sptr =>
  let chunk2sz := littleEndian size
  if sptr + chunk2sz > raw.length then
    some ⟨chunk2id, sptr, raw.length - sptr, raw.length⟩
  else some ⟨chunk2id, sptr, chunk2sz, sptr + chunk2sz⟩

/-- A chunk lies in the file, after its header, and the next one follows it. -/
theorem chunkAt_inside {raw : List Byte} {sptr : Nat} {chunk : WavChunk}
    (found : chunkAt raw sptr = some chunk) :
    chunk.start = sptr + 8 ∧ chunk.start < raw.length ∧
      chunk.start + chunk.size ≤ raw.length ∧ chunk.next = chunk.start + chunk.size := by
  unfold chunkAt at found
  by_cases ends : raw.length ≤ sptr + 4
  · rw [token_short _ _ ends] at found
    cases found
  rw [token_read _ _ (Nat.not_le.mp ends)] at found
  by_cases cut : raw.length ≤ sptr + 4 + 4
  · rw [token_short _ _ cut] at found
    cases found
  rw [token_read _ _ (Nat.not_le.mp cut)] at found
  dsimp only at found
  by_cases long : sptr + 4 + 4 + littleEndian ((raw.drop (sptr + 4)).take 4) > raw.length
  · rw [if_pos long] at found
    cases found
    dsimp only
    omega
  · rw [if_neg long] at found
    cases found
    dsimp only
    omega

/-- The loop of `Wav::set_bytes` up to the chunk `data`. It ends because each chunk moves on. -/
def findData (raw : List Byte) (nextchunk : Nat) : Option WavChunk :=
  match _found : chunkAt raw nextchunk with
  | none => none
  | some chunk => if chunk.id = dataTag then some chunk else findData raw chunk.next
termination_by raw.length - nextchunk
decreasing_by
  have inside := chunkAt_inside _found
  omega

/-- The sample types of `merge_stereo`. -/
inductive SampleType
  /-- `uint8_t`. -/
  | uint8
  /-- `int16_t`. -/
  | int16
  /-- `int32_t`. -/
  | int32
  deriving DecidableEq, Repr

namespace SampleType

/-- The bytes of a sample. -/
def size : SampleType → Nat
  | uint8 => 1
  | int16 => 2
  | int32 => 4

/-- The sample type of `BitsPerSample`. -/
def ofBits : Nat → Option SampleType
  | 8 => some uint8
  | 16 => some int16
  | 32 => some int32
  | _ => none

/-- A sample as `merge_stereo` widens it. -/
def widen (type : SampleType) (bytes : List Byte) : Int :=
  match type with
  | uint8 => ((littleEndian bytes : Int) - 128) * 256
  | int16 => (BitVec.ofNat 16 (littleEndian bytes)).toInt
  | int32 => (BitVec.ofNat 32 (littleEndian bytes)).toInt

/-- The sample `src[i]`. -/
def sampleAt (type : SampleType) (raw : List Byte) (src i : Nat) : Int :=
  type.widen ((raw.drop (src + i * type.size)).take type.size)

/-- The value `y` of a pass of `merge_stereo`, an `int`. -/
def merged (type : SampleType) (numChannels : Nat) (raw : List Byte) (src i : Nat) : Int :=
  if numChannels = 2 then
    (BitVec.ofInt 32 (type.sampleAt raw src i + type.sampleAt raw src (i + 1))).toInt.tdiv 2
  else type.sampleAt raw src i

end SampleType

/-- The samples that a pass of `merge_stereo` takes. -/
def samplesTaken (numChannels : Nat) : Nat := if numChannels = 2 then 2 else 1

theorem samplesTaken_pos (numChannels : Nat) : 0 < samplesTaken numChannels := by
  unfold samplesTaken
  split
  · exact Nat.two_pos
  · exact Nat.one_pos

/-- `Wav::merge_stereo`, from a pass on. -/
def mergeStereo (type : SampleType) (numChannels : Nat) (raw : List Byte) (src count i o : Nat)
    (data : List (BitVec 16)) : Except WavFault (List (BitVec 16)) :=
  if i < count then
    if src + (i + samplesTaken numChannels) * type.size ≤ raw.length then
      if o < data.length then
        mergeStereo type numChannels raw src count (i + samplesTaken numChannels) (o + 1)
          (data.set o (BitVec.ofInt 16 (type.merged numChannels raw src i)))
      else .error .writeOutside
    else .error .readOutside
  else .ok data
termination_by count - i
decreasing_by
  have taken := samplesTaken_pos numChannels
  omega

/-- Passes over whole frames, inside the file and with room in `Data`, fill it in order. -/
theorem mergeStereo_frames {type : SampleType} {numChannels src count : Nat} {raw : List Byte}
    (inside : src + count * type.size ≤ raw.length) (frames : Nat) :
    ∀ (i o : Nat) (data : List (BitVec 16)), i + samplesTaken numChannels * frames = count →
      o + frames ≤ data.length →
      mergeStereo type numChannels raw src count i o data =
        .ok (data.take o ++ (List.range frames).map (fun frame =>
            BitVec.ofInt 16 (type.merged numChannels raw src
              (i + samplesTaken numChannels * frame))) ++ data.drop (o + frames)) := by
  induction frames with
  | zero =>
    intro i o data whole room
    unfold mergeStereo
    rw [if_neg (by omega), List.range_zero, List.map_nil, List.append_nil, Nat.add_zero,
      List.take_append_drop]
  | succ frames inductionHypothesis =>
    intro i o data whole room
    have taken := samplesTaken_pos numChannels
    rw [Nat.mul_succ] at whole
    have read : (i + samplesTaken numChannels) * type.size ≤ count * type.size :=
      Nat.mul_le_mul_right _ (by omega)
    unfold mergeStereo
    rw [if_pos (show i < count by omega), if_pos (by omega), if_pos (show o < data.length by omega),
      inductionHypothesis (i + samplesTaken numChannels) (o + 1) _ (by omega)
        (by rw [List.length_set]; omega)]
    have written : (data.set o (BitVec.ofInt 16 (type.merged numChannels raw src i))).take (o + 1) =
        data.take o ++ [BitVec.ofInt 16 (type.merged numChannels raw src i)] := by
      rw [List.take_add_one, List.take_set_of_le (Nat.le_refl o),
        List.getElem?_set_self (show o < data.length by omega)]
      rfl
    have kept : (data.set o (BitVec.ofInt 16 (type.merged numChannels raw src i))).drop
        (o + 1 + frames) = data.drop (o + (frames + 1)) := by
      rw [List.drop_set_of_lt (by omega)]
      congr 1
      omega
    have values : (List.range (frames + 1)).map (fun frame => BitVec.ofInt 16
          (type.merged numChannels raw src (i + samplesTaken numChannels * frame))) =
        BitVec.ofInt 16 (type.merged numChannels raw src i) ::
          (List.range frames).map (fun frame => BitVec.ofInt 16 (type.merged numChannels raw src
            (i + samplesTaken numChannels + samplesTaken numChannels * frame))) := by
      rw [List.range_succ_eq_map, List.map_cons, List.map_map, Nat.mul_zero, Nat.add_zero]
      congr 1
      refine List.map_congr_left fun frame _ => ?_
      show BitVec.ofInt 16 (type.merged numChannels raw src
        (i + samplesTaken numChannels * (frame + 1))) = _
      rw [Nat.mul_succ, Nat.add_assoc, Nat.add_comm (samplesTaken numChannels)]
    rw [written, kept, values, List.append_assoc (data.take o), List.singleton_append]

/-- Passes over more samples than `Data` has room for leave a buffer. -/
theorem mergeStereo_overflows {type : SampleType} {numChannels src count : Nat}
    {raw : List Byte} (frames : Nat) :
    ∀ (i o : Nat) (data : List (BitVec 16)), o + frames = data.length →
      i + samplesTaken numChannels * frames < count →
      ∃ fault, mergeStereo type numChannels raw src count i o data = .error fault := by
  induction frames with
  | zero =>
    intro i o data room more
    unfold mergeStereo
    rw [if_pos (show i < count by omega), if_neg (show ¬ o < data.length by omega)]
    split
    · exact ⟨_, rfl⟩
    · exact ⟨_, rfl⟩
  | succ frames inductionHypothesis =>
    intro i o data room more
    rw [Nat.mul_succ] at more
    unfold mergeStereo
    rw [if_pos (show i < count by omega), if_pos (show o < data.length by omega)]
    split
    · exact inductionHypothesis _ _ _ (by rw [List.length_set]; omega) (by omega)
    · exact ⟨_, rfl⟩

/-- `std::vector::resize`. -/
def resize (data : List (BitVec 16)) (size : Nat) : List (BitVec 16) :=
  data.take size ++ List.replicate (size - data.length) 0

theorem resize_length (data : List (BitVec 16)) (size : Nat) :
    (resize data size).length = size := by
  unfold resize
  rw [List.length_append, List.length_take, List.length_replicate]
  omega

namespace Wav

/-- The branch of `Wav::set_bytes` for the chunk `data`. -/
def decode (wav : Wav) (raw : List Byte) (chunk : WavChunk) : Except WavFault (Bool × Wav) :=
  match SampleType.ofBits wav.bitsPerSample with
  | none => .ok (false, wav)
  | some type =>
    let count := chunk.size / type.size
    if wav.numChannels = 0 then .error .divisionByZero
    else
      match mergeStereo type wav.numChannels raw chunk.start count 0 0
        (resize wav.data (count / wav.numChannels)) with
      | .error fault => .error fault
      | .ok data => .ok (true, { wav with data })

/-- `Wav::set_bytes`. -/
def setBytes (wav : Wav) (raw : List Byte) : Except WavFault (Bool × Wav) :=
  match wav.parseHeader raw 0 with
  | (wav, none) => .ok (false, wav)
  | (wav, some nextchunk) =>
    match findData raw nextchunk with
    | none => .ok (false, wav)
    | some chunk => wav.decode raw chunk

end Wav

/-- `WavPlayer`. -/
structure WavPlayer where
  /-- `playhead`. -/
  playhead : Nat
  /-- `ratio`. -/
  ratio : BitVec 32
  /-- `frac`. -/
  frac : BitVec 32
  /-- `loaded`. -/
  loaded : Bool
  deriving DecidableEq, Repr

/-- `WavPlayer::rewind`, after `onloaded` marks the file as loaded. -/
def WavPlayer.onloaded (_player : WavPlayer) : WavPlayer :=
  { playhead := 0, ratio := 0, frac := 0, loaded := true }

/-- A player with its file. -/
structure Tape where
  /-- `wav`. -/
  wav : Wav
  /-- The player. -/
  player : WavPlayer
  deriving DecidableEq, Repr

/-- A later call of the player. -/
inductive TapeCall
  /-- `WavPlayer::advance`. -/
  | advance (instructionTime : BitVec 32)
  /-- `WavPlayer::sample`. -/
  | sample

namespace Tape

/-- `Wav::set_bytes`, with the player's hook. -/
def setBytes (tape : Tape) (raw : List Byte) : Except WavFault (Bool × Tape) :=
  match tape.wav.setBytes raw with
  | .error fault => .error fault
  | .ok (loaded, wav) =>
    .ok (loaded, ⟨wav, if loaded then tape.player.onloaded else tape.player⟩)

/-- `WavPlayer::init`. -/
def init (tape : Tape) : Except WavFault Tape :=
  if tape.wav.sampleRate = 0 then .error .divisionByZero
  else
    .ok { tape with
      player := { tape.player with
        ratio := BitVec.ofNat 32 (59904 * 50 / tape.wav.sampleRate)
        frac := 0 } }

/-- The counting of `WavPlayer::advance`. -/
def count (tape : Tape) (instructionTime : BitVec 32) : Tape :=
  let player := { tape.player with frac := tape.player.frac + instructionTime }
  if player.ratio.slt player.frac then
    { tape with
      player := { player with
        frac := player.frac - player.ratio
        playhead := player.playhead + 1 } }
  else { tape with player }

/-- `WavPlayer::advance`. -/
def advance (tape : Tape) (instructionTime : BitVec 32) : Except WavFault Tape :=
  if tape.player.loaded then
    if tape.player.playhead < tape.wav.data.length then
      if tape.player.ratio = 0 then
        match tape.init with
        | .error fault => .error fault
        | .ok started => .ok (started.count instructionTime)
      else .ok (tape.count instructionTime)
    else .ok { tape with player := { tape.player with loaded := false } }
  else .ok tape

/-- `WavPlayer::sample`. -/
def sample (tape : Tape) : Except WavFault Nat :=
  if tape.player.loaded && decide (tape.player.playhead < tape.wav.data.length) then
    match tape.wav.data[tape.player.playhead]? with
    | none => .error .readOutside
    | some entry => .ok (if (0 : BitVec 16).slt entry then 1 else 0)
  else .ok 0

/-- A call of the player. -/
def call (tape : Tape) : TapeCall → Except WavFault Tape
  | .advance instructionTime => tape.advance instructionTime
  | .sample =>
    match tape.sample with
    | .error fault => .error fault
    | .ok _ => .ok tape

/-- Calls of the player in a row. -/
def calls (tape : Tape) : List TapeCall → Except WavFault Tape
  | [] => .ok tape
  | first :: rest =>
    match tape.call first with
    | .error fault => .error fault
    | .ok next => next.calls rest

/-- Reading a file and every later call of the player return without a fault. -/
def Harmless (tape : Tape) (raw : List Byte) : Prop :=
  ∃ loaded after, tape.setBytes raw = .ok (loaded, after) ∧
    ∀ later, ∃ last, after.calls later = .ok last

/-- The next `advance` divides by the sample rate, which is zero. -/
def Starved (tape : Tape) : Prop :=
  tape.player.loaded = true ∧ tape.player.playhead < tape.wav.data.length ∧
    tape.player.ratio = 0 ∧ tape.wav.sampleRate = 0

/-- A call of a player that is not starved returns one that is not. -/
theorem call_fed {tape : Tape} (fed : ¬ tape.Starved) (first : TapeCall) :
    ∃ next, tape.call first = .ok next ∧ ¬ next.Starved := by
  have counted : ∀ (tape : Tape) (time : BitVec 32),
      (tape.count time).wav = tape.wav ∧ (tape.count time).player.ratio = tape.player.ratio := by
    intro tape time
    unfold count
    dsimp only
    split
    · exact ⟨rfl, rfl⟩
    · exact ⟨rfl, rfl⟩
  cases first with
  | advance time =>
    show ∃ next, tape.advance time = .ok next ∧ ¬ next.Starved
    unfold advance
    by_cases loaded : tape.player.loaded = true
    · rw [if_pos loaded]
      by_cases playing : tape.player.playhead < tape.wav.data.length
      · rw [if_pos playing]
        by_cases fresh : tape.player.ratio = 0
        · have rate : tape.wav.sampleRate ≠ 0 := fun rate => fed ⟨loaded, playing, fresh, rate⟩
          rw [if_pos fresh]
          unfold init
          rw [if_neg rate]
          refine ⟨_, rfl, fun starved => rate ?_⟩
          have same := (counted _ time).1 ▸ starved.2.2.2
          exact same
        · rw [if_neg fresh]
          exact ⟨_, rfl, fun starved => fresh ((counted tape time).2.symm.trans starved.2.2.1)⟩
      · rw [if_neg playing]
        exact ⟨_, rfl, fun starved => Bool.false_ne_true starved.1⟩
    · rw [if_neg loaded]
      exact ⟨tape, rfl, fed⟩
  | sample =>
    have read : ∃ value, tape.sample = .ok value := by
      unfold sample
      by_cases playing : tape.player.playhead < tape.wav.data.length
      · rw [List.getElem?_eq_getElem playing]
        split
        · exact ⟨_, rfl⟩
        · exact ⟨_, rfl⟩
      · rw [decide_eq_false playing, Bool.and_false, if_neg Bool.false_ne_true]
        exact ⟨0, rfl⟩
    obtain ⟨value, read⟩ := read
    refine ⟨tape, ?_, fed⟩
    show (match tape.sample with
      | .error fault => .error fault
      | .ok _ => .ok tape) = Except.ok tape
    rw [read]

/-- Every later call returns exactly when the player is not starved. -/
theorem calls_ok_iff (tape : Tape) :
    (∀ later, ∃ last, tape.calls later = .ok last) ↔ ¬ tape.Starved := by
  constructor
  · rintro returns ⟨loaded, playing, fresh, rate⟩
    obtain ⟨last, called⟩ := returns [.advance 0]
    have fails : tape.call (.advance 0) = .error .divisionByZero := by
      show tape.advance 0 = _
      unfold advance init
      rw [if_pos loaded, if_pos playing, if_pos fresh, if_pos rate]
    unfold calls at called
    rw [fails] at called
    cases called
  · intro fed later
    induction later generalizing tape with
    | nil => exact ⟨tape, rfl⟩
    | cons first rest inductionHypothesis =>
      obtain ⟨next, called, still⟩ := call_fed fed first
      unfold calls
      rw [called]
      exact inductionHypothesis next still

end Tape

end VectorDebugger
