import VectorDebugger.Machine.Floppy

/-!
# Faults of the disk controller

A byte of a transfer lies where the registers say, and the image checks it only when it is moved.
A run whose sector commands name sectors inside their images, and which does not take a transfer
over to a drive where it would leave the image, raises no fault.
-/

namespace VectorDebugger

/-- The image gives and takes a byte at the index. -/
def DiskImage.Has (image : DiskImage) (index : Int) : Prop :=
  match image with
  | .cardboard => True
  | .attached data => 0 ≤ index ∧ index < wrapInt data.length

namespace DiskImage

theorem get_ok {image : DiskImage} {index : Int} (has : image.Has index) :
    ∃ value, image.get index = .ok value := by
  cases image with
  | cardboard => exact ⟨0, rfl⟩
  | attached data =>
    exact ⟨_, if_neg (fun outside => outside.elim (by have := has.1; omega)
      (by have := has.2; omega))⟩

theorem set_ok {image : DiskImage} {index : Int} (has : image.Has index) (value : Byte) :
    ∃ after, image.set index value = .ok after ∧ ∀ other, after.Has other ↔ image.Has other := by
  cases image with
  | cardboard => exact ⟨.cardboard, rfl, fun other => Iff.rfl⟩
  | attached data =>
    refine ⟨.attached (data.set index.toNat value), if_neg (fun outside => ?_), fun other => ?_⟩
    · exact outside.elim (by have := has.1; omega) (by have := has.2; omega)
    · show 0 ≤ other ∧ other < wrapInt (data.set index.toNat value).length ↔ _
      rw [List.length_set]
      rfl

theorem get_attached {data : List Byte} {index : Nat}
    (inside : (index : Int) < wrapInt data.length) :
    (attached data).get index = .ok (data.getD index 0) := by
  unfold get
  dsimp only
  rw [if_neg (by omega), Int.toNat_natCast]

theorem set_attached {data : List Byte} {index : Nat}
    (inside : (index : Int) < wrapInt data.length) (value : Byte) :
    (attached data).set index value = .ok (.attached (data.set index value)) := by
  unfold set
  dsimp only
  rw [if_neg (by omega), Int.toNat_natCast]

end DiskImage

namespace FDisk

/-- The bytes that a transfer has left are in the image. -/
def LeftInside (disk : FDisk) : Prop :=
  ∀ i, disk.readOffset ≤ i → i < disk.readLength → disk.dsk.Has (wrapInt (disk.position + i))

/-- The bytes that come from `readBuffer` are in it. -/
def Buffered (disk : FDisk) : Prop :=
  disk.readSource = true → disk.readLength ≤ disk.readBuffer.length

/-- A drive as constructed, or with an image attached. -/
theorem buffered_init (dsk : DiskImage) : (init dsk).Buffered := by
  intro source
  cases source

theorem Buffered.seek {disk : FDisk} (buffered : disk.Buffered) (track sector side : Int) :
    (disk.seek track sector side).Buffered := by
  unfold FDisk.seek
  split
  · exact buffered
  · exact buffered

theorem buffered_beginSector (disk : FDisk) (sector : Int) :
    (disk.beginSector sector).Buffered := by
  apply Buffered.seek
  intro source
  cases source

theorem buffered_readAddress (disk : FDisk) : disk.readAddress.Buffered := by
  intro source
  exact Nat.le_refl 6

/-- A read that stays inside moves the offset on, or is finished. -/
theorem read_ok {disk : FDisk} (buffered : disk.Buffered)
    (inside : disk.readSource = true ∨ disk.LeftInside) :
    ∃ data offset finished, disk.read = .ok ({ disk with data, readOffset := offset }, finished) ∧
      disk.readOffset ≤ offset := by
  unfold read
  split
  · rename_i left
    have next : ∃ value, disk.nextByte = .ok value := by
      unfold nextByte
      split
      · rename_i source
        have short := Nat.lt_of_lt_of_le left (buffered source)
        rw [List.getElem?_eq_getElem short]
        exact ⟨_, rfl⟩
      · rename_i source
        exact DiskImage.get_ok
          ((inside.resolve_left source) disk.readOffset (Nat.le_refl _) left)
    obtain ⟨value, same⟩ := next
    rw [same]
    exact ⟨value, disk.readOffset + 1, false, rfl, Nat.le_succ _⟩
  · exact ⟨disk.data, disk.readOffset, true, rfl, Nat.le_refl _⟩

/-- A write that stays inside changes the image, which keeps its size, and moves the offset on, or
is finished. -/
theorem writeData_ok {disk : FDisk} (inside : disk.LeftInside) (value : Byte) :
    ∃ dsk offset finished,
      disk.writeData value = .ok ({ disk with dsk, readOffset := offset }, finished) ∧
        disk.readOffset ≤ offset ∧ ∀ other, dsk.Has other ↔ disk.dsk.Has other := by
  unfold writeData
  split
  · rename_i left
    obtain ⟨after, same, has⟩ :=
      DiskImage.set_ok (inside disk.readOffset (Nat.le_refl _) left) value
    rw [same]
    exact ⟨after, disk.readOffset + 1, false, rfl, Nat.le_succ _, has⟩
  · exact ⟨disk.dsk, disk.readOffset, true, rfl, Nat.le_refl _, fun other => Iff.rfl⟩

end FDisk

namespace FD1793

/-- The transfer that is in force stays inside the image of the selected drive. -/
def TransferInside (c : FD1793) : Prop :=
  (c.commandtr = cmdReadSec ∨ c.commandtr = cmdReadAddr →
    c.dsk.readSource = true ∨ c.dsk.LeftInside) ∧
  (c.commandtr = cmdWriteSec → c.dsk.LeftInside)

/-- No step of a transfer can fault. -/
structure Sound (c : FD1793) : Prop where
  buffered : ∀ drive, (c.disks drive).Buffered
  inside : c.TransferInside

/-- Where the sector that the registers name starts. -/
def sectorPosition (c : FD1793) : Int :=
  wrapInt ((c.track * 10 + 5 * c.side + if c.sector ≠ 0 then c.sector - 1 else 0) * 1024)

/-- The sector that the registers name is inside the image of the selected drive. -/
def NamesSector (c : FD1793) : Prop :=
  match c.dsk.dsk with
  | .cardboard => True
  | .attached data => 0 ≤ c.sectorPosition ∧ c.sectorPosition + 1024 ≤ wrapInt data.length

/-- The controller after a write of the parameter register. -/
def select (c : FD1793) (val : Byte) : FD1793 :=
  { c with dsksel := Fin.ofNat 4 val.toNat, side := ((~~~val >>> 2) &&& 1).toNat }

/-- A command transfers a sector. -/
def isSectorCommand (val : Byte) : Bool := 0x8 ≤ (val >>> 4).toNat && (val >>> 4).toNat ≤ 0xb

/-- A sector command names a sector inside the image, and a drive is not selected while a transfer
is in force that would leave its image. -/
def Heeds (c : FD1793) : FdcAccess → Prop
  | .write 0 val => isSectorCommand val = true → c.NamesSector
  | .write 4 val => (c.select val).TransferInside
  | _ => True

theorem wrapInt_of_small {n : Int} (nonneg : 0 ≤ n) (small : n < 2 ^ 31) : wrapInt n = n :=
  Int.bmod_eq_of_le (by omega) (by omega)

theorem wrapInt_lt (n : Int) : wrapInt n < 2 ^ 31 := Int.bmod_lt (by decide)

/-- Leaving everything that a transfer depends on alone keeps it sound. -/
theorem Sound.congr {c other : FD1793} (sound : c.Sound) (disks : other.disks = c.disks)
    (dsksel : other.dsksel = c.dsksel) (commandtr : other.commandtr = c.commandtr) :
    other.Sound := by
  have same : other.dsk = c.dsk := by
    unfold dsk
    rw [disks, dsksel]
  refine ⟨fun drive => disks ▸ sound.buffered drive, ?_⟩
  unfold TransferInside
  rw [same, commandtr]
  exact sound.inside

/-- The selected drive of a controller whose disk changed. -/
theorem dsk_setDsk (c : FD1793) (disk : FDisk) : (c.setDsk disk).dsk = disk :=
  Function.update_self _ _ _

/-- All drives keep to their buffers when the selected one does. -/
theorem buffered_setDsk {c : FD1793} {disk : FDisk} (buffered : ∀ drive, (c.disks drive).Buffered)
    (selected : disk.Buffered) (drive : Fin 4) : ((c.setDsk disk).disks drive).Buffered := by
  show (Function.update c.disks c.dsksel disk drive).Buffered
  by_cases same : drive = c.dsksel
  · rw [same, Function.update_self]
    exact selected
  · rw [Function.update_of_ne same]
    exact buffered drive

/-- What one step of a transfer makes of the selected disk. -/
inductive Moves (c : FD1793) : FDisk → Prop
  /-- No byte is moved. -/
  | idle : Moves c c.dsk
  /-- A byte is read. -/
  | read {disk : FDisk} {finished : Bool}
      (command : c.commandtr = cmdReadSec ∨ c.commandtr = cmdReadAddr)
      (read : c.dsk.read = .ok (disk, finished)) : Moves c disk
  /-- A byte is written. -/
  | write {disk : FDisk} {finished : Bool} (command : c.commandtr = cmdWriteSec)
      (written : c.dsk.writeData c.data = .ok (disk, finished)) : Moves c disk

/-- One step of a transfer changes the selected disk, and what no transfer depends on. -/
structure Executed (c after : FD1793) : Prop where
  disks : ∃ disk, c.Moves disk ∧ after.disks = (c.setDsk disk).disks
  dsksel : after.dsksel = c.dsksel
  commandtr : after.commandtr = c.commandtr

/-- A step that leaves the disks alone. -/
theorem Executed.ofDisks {c after : FD1793} (disks : after.disks = c.disks)
    (dsksel : after.dsksel = c.dsksel) (commandtr : after.commandtr = c.commandtr) :
    c.Executed after :=
  ⟨⟨c.dsk, .idle, disks.trans (Function.update_eq_self _ _).symm⟩, dsksel, commandtr⟩

/-- A sound controller executes without a fault. -/
theorem exec_ok {c : FD1793} (sound : c.Sound) :
    ∃ after, c.exec = .ok after ∧ c.Executed after := by
  have buffered : c.dsk.Buffered := sound.buffered c.dsksel
  unfold exec
  split
  · rename_i command
    split
    · exact ⟨c, rfl, .ofDisks rfl rfl rfl⟩
    obtain ⟨data, offset, finished, read, -⟩ :=
      FDisk.read_ok buffered (sound.inside.1 command)
    have moves := Moves.read command read
    rw [read]
    cases finished with
    | true => exact ⟨_, rfl, ⟨_, moves, rfl⟩, rfl, rfl⟩
    | false => exact ⟨_, rfl, ⟨_, moves, rfl⟩, rfl, rfl⟩
  split
  · rename_i command
    split
    · exact ⟨c, rfl, .ofDisks rfl rfl rfl⟩
    obtain ⟨dsk, offset, finished, written, -⟩ :=
      FDisk.writeData_ok (sound.inside.2 command) c.data
    have moves := Moves.write command written
    rw [written]
    cases finished with
    | true => exact ⟨_, rfl, ⟨_, moves, rfl⟩, rfl, rfl⟩
    | false => exact ⟨_, rfl, ⟨_, moves, rfl⟩, rfl, rfl⟩
  · exact ⟨_, rfl, .ofDisks rfl rfl rfl⟩

/-- A disk that moved a byte keeps to its buffer and has less left. -/
theorem Moves.disk {c : FD1793} (sound : c.Sound) {disk : FDisk} (moves : c.Moves disk) :
    disk.Buffered ∧ disk.readSource = c.dsk.readSource ∧ (c.dsk.LeftInside → disk.LeftInside) := by
  have buffered : c.dsk.Buffered := sound.buffered c.dsksel
  cases moves with
  | idle => exact ⟨buffered, rfl, id⟩
  | read command read =>
    obtain ⟨data, offset, finished, same, further⟩ :=
      FDisk.read_ok buffered (sound.inside.1 command)
    rw [same] at read
    cases read
    exact ⟨buffered, rfl, fun inside i low high => inside i (Nat.le_trans further low) high⟩
  | write command written =>
    obtain ⟨dsk, offset, finished, same, further, has⟩ :=
      FDisk.writeData_ok (sound.inside.2 command) c.data
    rw [same] at written
    cases written
    exact ⟨buffered, rfl, fun inside i low high =>
      (has _).mpr (inside i (Nat.le_trans further low) high)⟩

theorem Executed.dsk {c after : FD1793} (executed : c.Executed after) : c.Moves after.dsk := by
  obtain ⟨disk, moves, disks⟩ := executed.disks
  have same : after.dsk = disk := by
    unfold FD1793.dsk
    rw [disks, executed.dsksel]
    exact Function.update_self _ _ _
  exact same ▸ moves

/-- A step of a transfer keeps the controller sound. -/
theorem Executed.sound {c after : FD1793} (executed : c.Executed after) (sound : c.Sound) :
    after.Sound := by
  obtain ⟨buffered, source, left⟩ := executed.dsk.disk sound
  obtain ⟨disk, moves, disks⟩ := executed.disks
  have selected := moves.disk sound
  refine ⟨fun drive => disks ▸ buffered_setDsk sound.buffered selected.1 drive, ?_, ?_⟩
  · intro command
    rw [source]
    exact (sound.inside.1 (executed.commandtr ▸ command)).imp id left
  · intro command
    exact left (sound.inside.2 (executed.commandtr ▸ command))

/-! ### Commands -/

/-- A command of the controller that transfers nothing leaves no transfer in force. -/
theorem sound_of_idle {c : FD1793} (buffered : ∀ drive, (c.disks drive).Buffered)
    (idle : c.commandtr = 0) : c.Sound := by
  refine ⟨buffered, ?_, ?_⟩
  · intro command
    rw [idle] at command
    rcases command with same | same <;> cases same
  · intro command
    rw [idle] at command
    cases command

/-- What a sector command makes of a disk that is ready. -/
theorem seek_beginSector {disk : FDisk} (ready : disk.isReady = true) (track sector side : Int) :
    (disk.seek track sector side).beginSector sector =
      { disk with
        position :=
          wrapInt ((track * 10 + 5 * side + if sector ≠ 0 then sector - 1 else 0) * 1024)
        track
        side
        sector
        readLength := 1024
        readOffset := 0
        readSource := false } := by
  have size : ∀ other : FDisk, other.isReady = true → other.sectorSize = 1024 :=
    fun other ready => if_pos ready
  have sought : ∀ other : FDisk, other.isReady = true → other.seek track sector side =
      { other with
        position :=
          wrapInt ((track * 10 + 5 * side + if sector ≠ 0 then sector - 1 else 0) * 1024)
        track
        side } := by
    intro other ready
    unfold FDisk.seek FDisk.sectorsPerTrack FDisk.numHeads FDisk.sectorSize
    rw [if_pos ready, if_pos ready, if_pos ready, if_pos ready]
    rfl
  unfold FDisk.beginSector
  rw [sought disk ready]
  show FDisk.seek _ track sector side = _
  rw [sought _ (by exact ready), size _ (by exact ready)]

/-- The image of a disk stays under a sector command. -/
theorem dsk_seek (disk : FDisk) (track sector side : Int) :
    (disk.seek track sector side).dsk = disk.dsk := by
  unfold FDisk.seek
  split
  · rfl
  · rfl

theorem dsk_beginSector (disk : FDisk) (sector : Int) :
    (disk.beginSector sector).dsk = disk.dsk := dsk_seek _ _ _ _

/-- An image with a sector in it is ready. -/
theorem isReady_of_inside {disk : FDisk} {data : List Byte} {position : Int}
    (image : disk.dsk = .attached data) (low : 0 ≤ position)
    (high : position + 1024 ≤ wrapInt data.length) : disk.isReady = true := by
  unfold FDisk.isReady
  rw [image]
  cases data with
  | nil =>
    have empty : wrapInt ([] : List Byte).length = 0 := rfl
    omega
  | cons value data => exact decide_eq_true (Nat.succ_pos _)

/-- A sector that the registers name is inside the image as a transfer. -/
theorem NamesSector.leftInside {c : FD1793} (names : c.NamesSector) :
    ((c.dsk.seek c.track c.sector c.side).beginSector c.sector).LeftInside := by
  intro i low high
  rw [dsk_beginSector, dsk_seek]
  unfold NamesSector at names
  cases image : c.dsk.dsk with
  | cardboard => trivial
  | attached data =>
    rw [image] at names
    obtain ⟨nonneg, fits⟩ := names
    have ready := isReady_of_inside image nonneg fits
    rw [seek_beginSector ready] at high ⊢
    have most := wrapInt_lt data.length
    have short : i < 1024 := high
    show 0 ≤ wrapInt (c.sectorPosition + i) ∧ wrapInt (c.sectorPosition + i) < wrapInt data.length
    rw [wrapInt_of_small (by omega) (by omega)]
    omega

/-- The selected disk after the start of a transfer. -/
theorem dsk_beginTransfer (c : FD1793) (commandtr : Nat) (flags : Byte) :
    (c.beginTransfer commandtr flags).dsk =
      (c.dsk.seek c.track c.sector c.side).beginSector c.sector := by
  show ((c.setDsk (c.dsk.seek c.track c.sector c.side)).setDsk
    ((c.setDsk (c.dsk.seek c.track c.sector c.side)).dsk.beginSector c.sector)).dsk = _
  rw [dsk_setDsk, dsk_setDsk]

/-- The start of a transfer of a sector inside the image. -/
theorem sound_beginTransfer {c : FD1793} (sound : c.Sound) (names : c.NamesSector)
    (commandtr : Nat) (flags : Byte) : (c.beginTransfer commandtr flags).Sound := by
  have begun := dsk_beginTransfer c commandtr flags
  have left := names.leftInside
  have sought : (c.dsk.seek c.track c.sector c.side).Buffered :=
    (sound.buffered c.dsksel).seek c.track c.sector c.side
  refine ⟨?_, ?_, ?_⟩
  · exact buffered_setDsk (buffered_setDsk sound.buffered sought)
      (FDisk.buffered_beginSector _ _)
  · intro command
    rw [begun]
    exact .inr left
  · intro command
    rw [begun]
    exact left

/-- A command keeps a controller sound, when a sector command names a sector inside the image. -/
theorem sound_command {c : FD1793} (sound : c.Sound) (val : Byte)
    (names : isSectorCommand val = true → c.NamesSector) : (c.command val).Sound := by
  have buffered := sound.buffered
  have seeks : ∀ track sector : Int, (c.dsk.seek track sector c.side).Buffered :=
    fun track sector => (buffered c.dsksel).seek track sector c.side
  have idle : ∀ other : FD1793, (∀ drive, (other.disks drive).Buffered) →
      other.commandtr = 0 → other.Sound := fun other => sound_of_idle
  have transfer : ∀ commandtr flags, c.NamesSector →
      (({ c with intrq := 0, commandtr := 0 } : FD1793).beginTransfer commandtr flags).Sound :=
    fun commandtr flags named =>
      sound_beginTransfer (c := { c with intrq := 0, commandtr := 0 }) (idle _ buffered rfl) named
        commandtr flags
  have nibble : ∀ command, (val >>> 4).toNat = command → 8 ≤ command → command ≤ 11 →
      isSectorCommand val = true := by
    intro command same low high
    unfold isSectorCommand
    rw [same, decide_eq_true low, decide_eq_true high]
    rfl
  unfold command
  split
  · dsimp only
    split
    · exact idle _ (buffered_setDsk buffered (seeks 0 1)) rfl
    · exact idle _ buffered rfl
  · exact idle _ (buffered_setDsk buffered (seeks c.data.toNat c.sector)) rfl
  · exact idle _ buffered rfl
  · exact idle _ buffered rfl
  · exact idle _ buffered rfl
  · exact idle _ buffered rfl
  · exact idle _ buffered rfl
  · exact idle _ buffered rfl
  · exact transfer _ _ (names (nibble _ ‹_› (by decide) (by decide)))
  · exact transfer _ _ (names (nibble _ ‹_› (by decide) (by decide)))
  · exact transfer _ _ (names (nibble _ ‹_› (by decide) (by decide)))
  · exact transfer _ _ (names (nibble _ ‹_› (by decide) (by decide)))
  · refine ⟨buffered_setDsk buffered (FDisk.buffered_readAddress _), ?_, ?_⟩
    · intro command
      exact .inl (congrArg FDisk.readSource (dsk_setDsk c c.dsk.readAddress))
    · intro command
      cases command
  · exact idle _ buffered rfl

/-! ### Runs -/

/-- What a step of a transfer and a change of the registers leave true, an access leaves true. -/
theorem perform_invariant {Inv : FD1793 → Prop} (sound : ∀ c, Inv c → c.Sound)
    (congr : ∀ c other : FD1793, other.disks = c.disks → other.dsksel = c.dsksel →
      other.commandtr = c.commandtr → Inv c → Inv other)
    (executed : ∀ c after : FD1793, c.Executed after → Inv c → Inv after)
    {c : FD1793} {access : FdcAccess} (inv : Inv c)
    (command : ∀ val, access = .write 0 val → Inv (c.command val))
    (selects : ∀ val, access = .write 4 val → Inv (c.select val)) :
    ∃ value after, c.perform access = .ok (value, after) ∧ Inv after := by
  have executes : ∀ base : FD1793, Inv base → ∃ after, base.exec = .ok after ∧ Inv after := by
    intro base inv
    obtain ⟨after, same, step⟩ := exec_ok (sound base inv)
    exact ⟨after, same, executed base after step inv⟩
  cases access with
  | read addr =>
    by_cases poll : (FdcAccess.read addr).isPoll = true
    · rcases c.poll_cases poll with
        ⟨value, after, performed, alike⟩ | ⟨-, base, result, alike, performed, results⟩
      · exact ⟨value, after, performed,
          congr c after alike.disks alike.dsksel alike.commandtr inv⟩
      · obtain ⟨after, same, inv⟩ :=
          executes base (congr c base alike.disks alike.dsksel alike.commandtr inv)
        rw [performed, same]
        have last := results after
        exact ⟨_, _, rfl, congr after _ last.disks last.dsksel last.commandtr inv⟩
    · have data : addr = 3 := by
        by_contra other
        exact poll (decide_eq_true other)
      subst data
      cases on : c.nofdc with
      | true => exact ⟨0xff, c, if_pos on, inv⟩
      | false =>
        rw [perform_data c on]
        obtain ⟨after, same, inv⟩ := executes _ (congr c
          { c.sampleReady with status := c.sampleReady.status &&& ~~~stDrq } rfl rfl rfl inv)
        rw [same]
        exact ⟨_, _, rfl, inv⟩
  | write addr val =>
    obtain ⟨addr, small⟩ := addr
    match addr, small with
    | 0, _ => exact ⟨_, _, rfl, command val rfl⟩
    | 1, _ => exact ⟨_, _, rfl, congr c _ rfl rfl rfl inv⟩
    | 2, _ => exact ⟨_, _, rfl, congr c _ rfl rfl rfl inv⟩
    | 3, _ =>
      obtain ⟨after, same, inv⟩ := executes _ (congr c
        { c with data := val, status := c.status &&& ~~~stDrq } rfl rfl rfl inv)
      refine ⟨0, after, ?_, inv⟩
      show Except.map _ (FD1793.exec _) = _
      rw [same]
      rfl
    | 4, _ => exact ⟨_, _, rfl, selects val rfl⟩

/-- A command that a sound controller is given. -/
theorem Heeds.command {c : FD1793} {access : FdcAccess} (heeds : c.Heeds access) (sound : c.Sound)
    (val : Byte) (same : access = .write 0 val) : (c.command val).Sound := by
  subst same
  exact sound_command sound val heeds

/-- A drive that is selected. -/
theorem Heeds.select {c : FD1793} {access : FdcAccess} (heeds : c.Heeds access) (sound : c.Sound)
    (val : Byte) (same : access = .write 4 val) : (c.select val).Sound := by
  subst same
  exact ⟨sound.buffered, heeds⟩

/-- An access that heeds the images succeeds, and the controller is sound after it. -/
theorem perform_sound {c : FD1793} {access : FdcAccess} (sound : c.Sound) (heeds : c.Heeds access) :
    ∃ value after, c.perform access = .ok (value, after) ∧ after.Sound :=
  perform_invariant (fun _ sound => sound)
    (fun _ _ disks dsksel commandtr sound => sound.congr disks dsksel commandtr)
    (fun _ _ executed sound => executed.sound sound) sound (heeds.command sound)
    (heeds.select sound)

/-- A controller as constructed, with an image in every drive, is sound. -/
theorem sound_init (images : Fin 4 → DiskImage) :
    (init fun drive => FDisk.init (images drive)).Sound :=
  sound_of_idle (fun drive => FDisk.buffered_init (images drive)) rfl

/-- No access of a run that heeds the images faults. -/
theorem runs_inside (images : Fin 4 → DiskImage) (nofdc : Bool) (accesses : List FdcAccess)
    (heeds : ({ init (fun drive => FDisk.init (images drive)) with nofdc } : FD1793).Along Heeds
      accesses) :
    ∃ bytes final,
      ({ init (fun drive => FDisk.init (images drive)) with nofdc } : FD1793).run accesses =
        .ok (bytes, final) := by
  have sound : ({ init (fun drive => FDisk.init (images drive)) with nofdc } : FD1793).Sound :=
    (sound_init images).congr rfl rfl rfl
  obtain ⟨bytes, final, ran, -⟩ :=
    run_invariant (fun c access sound heeds => perform_sound sound heeds) accesses sound heeds
  exact ⟨bytes, final, ran⟩

set_option maxRecDepth 8000 in
/-- A sector inside an image of one sector is read. -/
theorem runs_inside_sector :
    ∃ bytes final,
      (init fun _ => FDisk.init (.attached (List.replicate 1024 0))).run
        [.write 2 1, .write 0 0x80, .read 3] = .ok (bytes, final) := by
  have names : ∀ c : FD1793, c.dsk.dsk = .attached (List.replicate 1024 0) →
      c.sectorPosition = 0 → c.NamesSector := by
    intro c image position
    unfold NamesSector
    rw [image]
    show 0 ≤ c.sectorPosition ∧ c.sectorPosition + 1024 ≤ _
    rw [position, List.length_replicate]
    decide
  exact runs_inside (fun _ => .attached (List.replicate 1024 0)) false
    [.write 2 1, .write 0 0x80, .read 3]
    (.cons trivial rfl (.cons (fun _ => names _ rfl (by decide)) rfl (.cons trivial rfl trivial)))

set_option maxRecDepth 8000 in
/-- A track register beyond the image makes a read fault. -/
theorem run_outside : ¬ ∀ (images : Fin 4 → DiskImage) (accesses : List FdcAccess),
    ∃ bytes final,
      (init fun drive => FDisk.init (images drive)).run accesses = .ok (bytes, final) := by
  intro always
  obtain ⟨bytes, final, ran⟩ := always (fun _ => .attached (List.replicate 1024 0))
    [.write 1 0xff, .write 2 1, .write 0 0x80, .read 3]
  have fault : (init fun _ => FDisk.init (.attached (List.replicate 1024 0))).run
      [.write 1 0xff, .write 2 1, .write 0 0x80, .read 3] = .error .boundary := rfl
  rw [fault] at ran
  cases ran

end FD1793

end VectorDebugger
