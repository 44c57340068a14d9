import VectorDebugger.Machine.Timer

/-!
# The disk controller

`FD1793` moves the bytes of a sector one at a time between its data register and the image of the
selected drive. The guest reaches it through five registers. An image that is asked for a byte
outside itself raises an exception, which nothing catches. What the log prints is left out.
-/

namespace VectorDebugger

/-- There are five registers. -/
instance neZero_registers : NeZero 5 := ⟨by decide⟩

/-- Why an access does not return. -/
inductive DiskFault
  /-- `std::out_of_range`, raised by an image. -/
  | boundary
  /-- An index outside `readBuffer`. -/
  | buffer
deriving DecidableEq, Repr

/-- An `int`, which wraps around at 32 bits. -/
def wrapInt (n : Int) : Int := Int.bmod n (2 ^ 32)

/-- `DiskImage`. -/
inductive DiskImage
  /-- `CardboardDiskImage`, which holds nothing. -/
  | cardboard
  /-- `DetachedDiskImage`, `FileDiskImage` or `DirectoryImage`, with its bytes. -/
  | attached (data : List Byte)

namespace DiskImage

/-- `DiskImage::size`. -/
def size : DiskImage → Nat
  | .cardboard => 0
  | .attached data => data.length

/-- `DiskImage::get`; the size is compared as an `int`. -/
def get (image : DiskImage) (index : Int) : Except DiskFault Byte :=
  match image with
  | .cardboard => .ok 0
  | .attached data =>
    if index < 0 ∨ index ≥ wrapInt data.length then .error .boundary
    else .ok (data.getD index.toNat 0)

/-- `DiskImage::set`. -/
def set (image : DiskImage) (index : Int) (value : Byte) : Except DiskFault DiskImage :=
  match image with
  | .cardboard => .ok .cardboard
  | .attached data =>
    if index < 0 ∨ index ≥ wrapInt data.length then .error .boundary
    else .ok (.attached (data.set index.toNat value))

end DiskImage

/-- `FDisk`; the fields that only follow from the size of the image are definitions. -/
structure FDisk where
  /-- `dsk`. -/
  dsk : DiskImage
  /-- `data`. -/
  data : Byte
  /-- `track`. -/
  track : Int
  /-- `side`. -/
  side : Int
  /-- `sector`. -/
  sector : Int
  /-- `position`. -/
  position : Int
  /-- `readOffset`. -/
  readOffset : Nat
  /-- `readLength`. -/
  readLength : Nat
  /-- `readSource`: bytes come from `readBuffer`. -/
  readSource : Bool
  /-- `readBuffer`. -/
  readBuffer : List Byte

namespace FDisk

/-- `FDisk::init` for an image; what it leaves alone is zero. -/
def init (dsk : DiskImage) : FDisk where
  dsk
  data := 0
  track := 0
  side := 0
  sector := 0
  position := 0
  readOffset := 0
  readLength := 0
  readSource := false
  readBuffer := List.replicate 6 0

/-- `FDisk::isReady`. -/
def isReady (disk : FDisk) : Bool := 0 < disk.dsk.size

/-- `sectorsPerTrack`, as `init` and `parse_v06c` set it. -/
def sectorsPerTrack (disk : FDisk) : Int := if disk.isReady then 5 else 9

/-- `numHeads`, as `init` and `parse_v06c` set it. -/
def numHeads (disk : FDisk) : Int := if disk.isReady then 2 else 1

/-- `sectorSize`, as `init` and `parse_v06c` set it. -/
def sectorSize (disk : FDisk) : Nat := if disk.isReady then 1024 else 512

/-- `FDisk::sector_length_to_code`. -/
def sectorLengthToCode (length : Nat) : Int :=
  match length with
  | 128 => 0
  | 256 => 1
  | 512 => 2
  | 1024 => 3
  | _ => -1

/-- `FDisk::seek`. -/
def seek (disk : FDisk) (track sector side : Int) : FDisk :=
  if disk.isReady then
    let offsetSector := if sector ≠ 0 then sector - 1 else 0
    { disk with
      position := wrapInt ((track * (disk.sectorsPerTrack * disk.numHeads) +
        disk.sectorsPerTrack * side + offsetSector) * disk.sectorSize)
      track
      side }
  else disk

/-- `FDisk::readSector` and `FDisk::writeSector`. -/
def beginSector (disk : FDisk) (sector : Int) : FDisk :=
  let begun := { disk with
    readLength := disk.sectorSize, readOffset := 0, readSource := false, sector }
  begun.seek begun.track begun.sector begun.side

/-- `FDisk::readAddress`. -/
def readAddress (disk : FDisk) : FDisk :=
  { disk with
    readLength := 6
    readSource := true
    readOffset := 0
    readBuffer := [BitVec.ofInt 8 disk.track, BitVec.ofInt 8 disk.side, BitVec.ofInt 8 disk.sector,
      BitVec.ofInt 8 (sectorLengthToCode disk.sectorSize), 0, 0] }

/-- The byte that `FDisk::read` takes. -/
def nextByte (disk : FDisk) : Except DiskFault Byte :=
  if disk.readSource then
    match disk.readBuffer[disk.readOffset]? with
    | some value => .ok value
    | none => .error .buffer
  else disk.dsk.get (wrapInt (disk.position + disk.readOffset))

/-- `FDisk::read`, with whether it is finished. -/
def read (disk : FDisk) : Except DiskFault (FDisk × Bool) :=
  if disk.readOffset < disk.readLength then
    disk.nextByte.map fun data =>
      ({ disk with data, readOffset := disk.readOffset + 1 }, false)
  else .ok (disk, true)

/-- `FDisk::write_data`, with whether it is finished. -/
def writeData (disk : FDisk) (data : Byte) : Except DiskFault (FDisk × Bool) :=
  if disk.readOffset < disk.readLength then
    (disk.dsk.set (wrapInt (disk.position + disk.readOffset)) data).map fun dsk =>
      ({ disk with dsk, readOffset := disk.readOffset + 1 }, false)
  else .ok (disk, true)

end FDisk

/-- `FD1793`. -/
structure FD1793 where
  /-- `_disks`. -/
  disks : Fin 4 → FDisk
  /-- `_side`. -/
  side : Int
  /-- `_intrq`. -/
  intrq : Byte
  /-- `_data`. -/
  data : Byte
  /-- `_status`. -/
  status : Byte
  /-- `_commandtr`. -/
  commandtr : Nat
  /-- `_track`. -/
  track : Int
  /-- `_sector`. -/
  sector : Int
  /-- `_stepdir`. -/
  stepdir : Int
  /-- `_lingertime`. -/
  lingertime : Int
  /-- `_dsksel`, the low bits of the parameter register. -/
  dsksel : Fin 4
  /-- `LINGER_BEFORE`, which no constructor sets. -/
  lingerBefore : Int
  /-- `Options.nofdc`. -/
  nofdc : Bool

namespace FD1793

/-- `ST_NOTREADY`. -/
def stNotReady : Byte := 0x80

/-- `ST_SEEKERR`. -/
def stSeekErr : Byte := 0x10

/-- `ST_DRQ`. -/
def stDrq : Byte := 0x02

/-- `ST_BUSY`. -/
def stBusy : Byte := 0x01

/-- `PRT_INTRQ`. -/
def prtIntrq : Byte := 0x01

/-- `PRT_DRQ`. -/
def prtDrq : Byte := 0x80

/-- `CMD_READSEC`. -/
def cmdReadSec : Nat := 1

/-- `CMD_READADDR`. -/
def cmdReadAddr : Nat := 2

/-- `CMD_WRITESEC`. -/
def cmdWriteSec : Nat := 3

/-- `LINGER_AFTER`. -/
def lingerAfter : Int := 2

/-- A controller as constructed, with these disks; what the constructor leaves alone is zero. -/
def init (disks : Fin 4 → FDisk) : FD1793 where
  disks
  side := 0
  intrq := 0
  data := 0
  status := 0
  commandtr := 0
  track := 0
  sector := 0
  stepdir := 1
  lingertime := 3
  dsksel := 0
  lingerBefore := 0
  nofdc := false

/-- The status requests data. -/
def drq (c : FD1793) : Bool := c.status &&& stDrq != 0

/-- The status is busy. -/
def busy (c : FD1793) : Bool := c.status &&& stBusy != 0

/-- `FD1793::dsk`. -/
def dsk (c : FD1793) : FDisk := c.disks c.dsksel

/-- The selected disk changes. -/
def setDsk (c : FD1793) (disk : FDisk) : FD1793 :=
  { c with disks := Function.update c.disks c.dsksel disk }

/-- `FD1793::exec`. -/
def exec (c : FD1793) : Except DiskFault FD1793 :=
  if c.commandtr = cmdReadSec ∨ c.commandtr = cmdReadAddr then
    if c.drq then .ok c
    else
      c.dsk.read.map fun done =>
        let moved := c.setDsk done.1
        if done.2 then { moved with status := c.status &&& ~~~stBusy, intrq := prtIntrq }
        else { moved with status := c.status ||| stDrq, data := done.1.data }
  else if c.commandtr = cmdWriteSec then
    if c.drq then .ok c
    else
      (c.dsk.writeData c.data).map fun done =>
        let moved := c.setDsk done.1
        if done.2 then { moved with status := c.status &&& ~~~stBusy, intrq := prtIntrq }
        else { moved with status := c.status ||| stDrq }
  else .ok { c with status := c.status &&& ~~~stBusy }

/-- The first lines of `FD1793::read`. -/
def sampleReady (c : FD1793) : FD1793 :=
  { c with
    status := if c.dsk.isReady then c.status &&& ~~~stNotReady else c.status ||| stNotReady }

/-- A read of the status register. -/
def readStatus (c : FD1793) : Except DiskFault (Byte × FD1793) :=
  if c.busy then
    if c.lingertime < 0 then
      .ok (c.status &&& ~~~stBusy, { c with lingertime := c.lingertime + 1, intrq := 0 })
    else if c.lingertime < lingerAfter then
      .ok (c.status, { c with lingertime := c.lingertime + 1, intrq := 0 })
    else if c.lingertime = lingerAfter then
      ({ c with lingertime := c.lingertime + 1 } : FD1793).exec.map fun after =>
        (after.status, { after with intrq := 0 })
    else .ok (c.status, { c with intrq := 0 })
  else .ok (c.status, { c with intrq := 0 })

/-- What register 4 reads as. -/
def control (c : FD1793) : Byte := c.intrq ||| if c.drq then prtDrq else 0

/-- `FD1793::read`. -/
def read (c : FD1793) (addr : Nat) : Except DiskFault (Byte × FD1793) :=
  if c.nofdc then .ok (0xff, c)
  else
    let c := c.sampleReady
    match addr with
    | 0 => c.readStatus
    | 1 => .ok (BitVec.ofInt 8 c.track, c)
    | 2 => .ok (BitVec.ofInt 8 c.sector, c)
    | 3 =>
      ({ c with status := c.status &&& ~~~stDrq } : FD1793).exec.map fun after => (c.data, after)
    | 4 =>
      (if c.busy then c.exec else .ok c).map fun after => (after.control, after)
    | _ => .ok (0xff, c)

/-- A sector command: `commandtr`, and what it adds to the status. -/
def beginTransfer (c : FD1793) (commandtr : Nat) (flags : Byte) : FD1793 :=
  let sought := c.setDsk (c.dsk.seek c.track c.sector c.side)
  let begun := sought.setDsk (sought.dsk.beginSector c.sector)
  { begun with commandtr, status := c.status ||| flags, lingertime := c.lingerBefore }

/-- A step of the head, which stops at track 0 when it is told to. -/
def step (c : FD1793) (stepdir : Int) (clamp : Bool) : FD1793 :=
  let track := wrapInt (c.track + stepdir)
  { c with
    stepdir
    track := if clamp ∧ track < 0 then 0 else track
    lingertime := c.lingerBefore
    status := c.status ||| stBusy }

/-- `FD1793::command`. -/
def command (c : FD1793) (val : Byte) : FD1793 :=
  let c := { c with intrq := 0, commandtr := 0 }
  match (val >>> 4).toNat with
  | 0x0 =>
    let c := { c with intrq := prtIntrq }
    if c.dsk.isReady then { c.setDsk (c.dsk.seek 0 1 c.side) with track := 0 }
    else { c with status := c.status ||| stSeekErr }
  | 0x1 =>
    { c.setDsk (c.dsk.seek c.data.toNat c.sector c.side) with
      track := c.data.toNat
      intrq := prtIntrq
      status := c.status ||| stBusy
      lingertime := c.lingerBefore }
  | 0x2 | 0x3 => c.step c.stepdir true
  | 0x4 | 0x5 => c.step 1 false
  | 0x6 | 0x7 => c.step (-1) true
  | 0x8 | 0x9 => c.beginTransfer cmdReadSec stBusy
  | 0xa | 0xb => c.beginTransfer cmdWriteSec (stBusy ||| stDrq)
  | 0xc =>
    { c.setDsk c.dsk.readAddress with
      commandtr := cmdReadAddr
      status := c.status ||| stBusy
      lingertime := c.lingerBefore }
  | _ => c

/-- `FD1793::write`. -/
def write (c : FD1793) (addr : Nat) (val : Byte) : Except DiskFault FD1793 :=
  match addr with
  | 0 => .ok (c.command val)
  | 1 => .ok { c with track := val.toNat, status := c.status &&& ~~~stDrq }
  | 2 => .ok { c with sector := val.toNat, status := c.status &&& ~~~stDrq }
  | 3 => ({ c with data := val, status := c.status &&& ~~~stDrq } : FD1793).exec
  | 4 =>
    .ok
      { c with
        dsksel := Fin.ofNat 4 val.toNat
        side := ((~~~val >>> 2) &&& 1).toNat }
  | _ => .ok c

end FD1793

/-- An access of the guest to a register of the controller. -/
inductive FdcAccess
  /-- A read. -/
  | read (addr : Fin 5)
  /-- A write. -/
  | write (addr : Fin 5) (val : Byte)
deriving DecidableEq

/-- The access reads a register other than the data register. -/
def FdcAccess.isPoll : FdcAccess → Bool
  | .read addr => addr ≠ 3
  | .write _ _ => false

namespace FD1793

/-- The value that an access returns, and the controller after it. -/
def perform (c : FD1793) : FdcAccess → Except DiskFault (Byte × FD1793)
  | .read addr => c.read addr
  | .write addr val => (c.write addr val).map fun after => (0, after)

/-- The bytes that accesses read from the data register, and the controller after them. -/
def run (c : FD1793) : List FdcAccess → Except DiskFault (List Byte × FD1793)
  | [] => .ok ([], c)
  | access :: rest =>
    (c.perform access).bind fun done =>
      (done.2.run rest).map fun later =>
        (if access = .read 3 then done.1 :: later.1 else later.1, later.2)

/-- Every access is one that is allowed in the state that it is made in. -/
def Along (Ok : FD1793 → FdcAccess → Prop) (c : FD1793) : List FdcAccess → Prop
  | [] => True
  | access :: rest =>
    Ok c access ∧ ∀ value after, c.perform access = .ok (value, after) → Along Ok after rest

/-- Accesses of a kind are made only when the status requests data. -/
def DataReady (kind : FdcAccess → Bool) : FD1793 → List FdcAccess → Prop :=
  Along fun c access => kind access = true → c.drq = true

/-- A run makes its first access, and the others after it. -/
theorem run_cons {c final : FD1793} {access : FdcAccess} {rest : List FdcAccess}
    {bytes : List Byte} : c.run (access :: rest) = .ok (bytes, final) ↔
      ∃ value after later, c.perform access = .ok (value, after) ∧
        after.run rest = .ok (later, final) ∧
          bytes = if access = .read 3 then value :: later else later := by
  show (c.perform access).bind _ = _ ↔ _
  cases first : c.perform access with
  | error fault =>
    refine iff_of_false (fun same => by cases same) ?_
    rintro ⟨value, after, later, performed, -⟩
    cases performed
  | ok done =>
    show ((done.2.run rest).map _ = _) ↔ _
    cases others : done.2.run rest with
    | error fault =>
      refine iff_of_false (fun same => by cases same) ?_
      rintro ⟨value, after, later, performed, ran, -⟩
      cases performed
      rw [others] at ran
      cases ran
    | ok last =>
      constructor
      · intro same
        obtain ⟨read, ends⟩ := Prod.mk.inj (Except.ok.inj same)
        exact ⟨done.1, done.2, last.1, rfl, ends ▸ others, read.symm⟩
      · rintro ⟨value, after, later, performed, ran, rfl⟩
        cases performed
        rw [others] at ran
        cases ran
        rfl

/-- Two runs after each other are one. -/
theorem run_append {front back : List FdcAccess} {middle final : FD1793} {second : List Byte}
    (after : middle.run back = .ok (second, final)) : ∀ {c : FD1793} {first : List Byte},
      c.run front = .ok (first, middle) → c.run (front ++ back) = .ok (first ++ second, final) := by
  induction front with
  | nil =>
    intro c first before
    obtain ⟨rfl, rfl⟩ := Prod.mk.inj (Except.ok.inj before)
    exact after
  | cons access front inductionHypothesis =>
    intro c first before
    obtain ⟨value, next, later, performed, ran, rfl⟩ := run_cons.mp before
    refine run_cons.mpr ⟨value, next, later ++ second, performed, inductionHypothesis ran, ?_⟩
    split <;> rfl

/-- An access that is allowed goes before accesses that are allowed after it. -/
theorem Along.cons {Ok : FD1793 → FdcAccess → Prop} {c after : FD1793} {access : FdcAccess}
    {rest : List FdcAccess} {value : Byte} (ok : Ok c access)
    (performed : c.perform access = .ok (value, after)) (allowed : after.Along Ok rest) :
    c.Along Ok (access :: rest) := by
  refine ⟨ok, fun other next same => ?_⟩
  rw [performed] at same
  cases same
  exact allowed

/-- What is allowed as a whole is allowed up to its last part. -/
theorem Along.before {Ok : FD1793 → FdcAccess → Prop} {front back : List FdcAccess} :
    ∀ {c : FD1793}, c.Along Ok (front ++ back) → c.Along Ok front := by
  induction front with
  | nil =>
    intro c allowed
    trivial
  | cons access front inductionHypothesis =>
    intro c allowed
    exact ⟨allowed.1, fun value after performed =>
      inductionHypothesis (allowed.2 value after performed)⟩

/-- What is allowed as a whole is allowed after its first part. -/
theorem Along.after {Ok : FD1793 → FdcAccess → Prop} {front back : List FdcAccess}
    {middle : FD1793} : ∀ {c : FD1793} {first : List Byte}, c.Along Ok (front ++ back) →
      c.run front = .ok (first, middle) → middle.Along Ok back := by
  induction front with
  | nil =>
    intro c first allowed before
    obtain ⟨-, rfl⟩ := Prod.mk.inj (Except.ok.inj before)
    exact allowed
  | cons access front inductionHypothesis =>
    intro c first allowed before
    obtain ⟨value, next, later, performed, ran, -⟩ := run_cons.mp before
    exact inductionHypothesis (allowed.2 value next performed) ran

/-- A run whose accesses are all allowed succeeds, when allowed accesses keep an invariant and
succeed. -/
theorem run_invariant {Inv : FD1793 → Prop} {Ok : FD1793 → FdcAccess → Prop}
    (step : ∀ c access, Inv c → Ok c access →
      ∃ value after, c.perform access = .ok (value, after) ∧ Inv after)
    (accesses : List FdcAccess) : ∀ {c : FD1793}, Inv c → c.Along Ok accesses →
      ∃ bytes final, c.run accesses = .ok (bytes, final) ∧ Inv final := by
  induction accesses with
  | nil =>
    intro c inv allowed
    exact ⟨[], c, rfl, inv⟩
  | cons access accesses inductionHypothesis =>
    intro c inv allowed
    obtain ⟨value, after, performed, next⟩ := step c access inv allowed.1
    obtain ⟨bytes, final, ran, last⟩ := inductionHypothesis next (allowed.2 value after performed)
    exact ⟨_, final, run_cons.mpr ⟨value, after, bytes, performed, ran, rfl⟩, last⟩

/-! ### What an access does to a transfer -/

/-- A bit that is set is seen. -/
theorem or_and_self (x mask : Byte) : (x ||| mask) &&& mask = mask := by
  apply BitVec.eq_of_getLsbD_eq
  intro i _
  rw [BitVec.getLsbD_and, BitVec.getLsbD_or]
  cases mask.getLsbD i with
  | true => rw [Bool.or_true, Bool.and_true]
  | false => rw [Bool.and_false]

/-- A bit that is cleared is not seen. -/
theorem clear_and_self (x mask : Byte) : (x &&& ~~~mask) &&& mask = 0#8 := by
  rw [BitVec.and_assoc, BitVec.not_and_self]
  exact BitVec.and_zero

/-- Setting one bit shows no other. -/
theorem or_and_other {mask other : Byte} (apart : mask &&& other = 0#8) (x : Byte) :
    (x ||| mask) &&& other = x &&& other := by
  rw [BitVec.and_or_distrib_right, apart, BitVec.or_zero]

/-- Clearing one bit hides no other. -/
theorem clear_and_other {mask other : Byte} (apart : mask &&& other = 0#8) (x : Byte) :
    (x &&& ~~~mask) &&& other = x &&& other := by
  have whole : (x &&& ~~~mask) ||| (x &&& mask) = x := by
    rw [← BitVec.and_or_distrib_left, BitVec.not_or_self, BitVec.and_allOnes]
  calc (x &&& ~~~mask) &&& other
      = ((x &&& ~~~mask) ||| (x &&& mask)) &&& other := by
        rw [BitVec.and_or_distrib_right, BitVec.and_assoc x mask, apart, BitVec.and_zero,
          BitVec.or_zero]
    _ = x &&& other := by rw [whole]

theorem drq_or (status : Byte) : ((status ||| stDrq) &&& stDrq != 0) = true := by
  rw [or_and_self]
  rfl

theorem drq_clear (status : Byte) : ((status &&& ~~~stDrq) &&& stDrq != 0) = false := by
  rw [clear_and_self]
  rfl

theorem busy_or (status : Byte) :
    ((status ||| stDrq) &&& stBusy != 0) = (status &&& stBusy != 0) := by
  rw [or_and_other rfl]

theorem busy_clear (status : Byte) :
    ((status &&& ~~~stDrq) &&& stBusy != 0) = (status &&& stBusy != 0) := by
  rw [clear_and_other rfl]

theorem drq_idle (status : Byte) :
    ((status &&& ~~~stBusy) &&& stDrq != 0) = (status &&& stDrq != 0) := by
  rw [clear_and_other rfl]

theorem busy_idle (status : Byte) : ((status &&& ~~~stBusy) &&& stBusy != 0) = false := by
  rw [clear_and_self]
  rfl

/-- Two controllers differ at most in what a poll changes by itself. -/
structure Alike (c other : FD1793) : Prop where
  disks : other.disks = c.disks
  dsksel : other.dsksel = c.dsksel
  side : other.side = c.side
  track : other.track = c.track
  sector : other.sector = c.sector
  data : other.data = c.data
  commandtr : other.commandtr = c.commandtr
  nofdc : other.nofdc = c.nofdc
  drq : other.drq = c.drq
  busy : other.busy = c.busy

theorem Alike.refl (c : FD1793) : c.Alike c := ⟨rfl, rfl, rfl, rfl, rfl, rfl, rfl, rfl, rfl, rfl⟩

theorem Alike.dsk {c other : FD1793} (alike : c.Alike other) : other.dsk = c.dsk := by
  unfold FD1793.dsk
  rw [alike.disks, alike.dsksel]

/-- The delays and the interrupt request are no part of a transfer. -/
theorem Alike.setQuiet {c other : FD1793} (alike : c.Alike other) (lingertime : Int)
    (intrq : Byte) : c.Alike { other with lingertime, intrq } :=
  ⟨alike.disks, alike.dsksel, alike.side, alike.track, alike.sector, alike.data,
    alike.commandtr, alike.nofdc, alike.drq, alike.busy⟩

/-- The ready bit is no part of a transfer. -/
theorem alike_sampleReady (c : FD1793) : c.Alike c.sampleReady := by
  refine ⟨rfl, rfl, rfl, rfl, rfl, rfl, rfl, rfl, ?_, ?_⟩
  · show ((if c.dsk.isReady then _ else _ : Byte) &&& stDrq != 0) = (c.status &&& stDrq != 0)
    split
    · rw [clear_and_other rfl]
    · rw [or_and_other rfl]
  · show ((if c.dsk.isReady then _ else _ : Byte) &&& stBusy != 0) = (c.status &&& stBusy != 0)
    split
    · rw [clear_and_other rfl]
    · rw [or_and_other rfl]

/-- A poll does nothing to a transfer, or it lets a busy controller go on with it. -/
theorem poll_cases (c : FD1793) {access : FdcAccess} (poll : access.isPoll = true) :
    (∃ value after, c.perform access = .ok (value, after) ∧ c.Alike after) ∨
      c.busy = true ∧ ∃ (base : FD1793) (result : FD1793 → Byte × FD1793), c.Alike base ∧
        c.perform access = base.exec.map result ∧
          ∀ after : FD1793, after.Alike (result after).2 := by
  cases access with
  | write addr val => cases poll
  | read addr =>
    have sampled := alike_sampleReady c
    by_cases off : c.nofdc = true
    · exact .inl ⟨0xff, c, by simp [perform, read, off], Alike.refl c⟩
    have shown : c.perform (.read addr) = c.read addr := rfl
    rw [shown]
    unfold read
    rw [if_neg off]
    obtain ⟨addr, small⟩ := addr
    match addr, small with
    | 0, _ =>
      show (∃ value after, c.sampleReady.readStatus = .ok (value, after) ∧ c.Alike after) ∨
        c.busy = true ∧ ∃ base result, c.Alike base ∧
          c.sampleReady.readStatus = Except.map result base.exec ∧ _
      unfold readStatus
      split
      · rename_i working
        split
        · exact .inl ⟨_, _, rfl, sampled.setQuiet _ _⟩
        split
        · exact .inl ⟨_, _, rfl, sampled.setQuiet _ _⟩
        split
        · exact .inr ⟨sampled.busy ▸ working, _, _, sampled.setQuiet _ c.sampleReady.intrq, rfl,
            fun after => (Alike.refl after).setQuiet after.lingertime 0⟩
        · exact .inl ⟨_, _, rfl, sampled.setQuiet c.sampleReady.lingertime 0⟩
      · exact .inl ⟨_, _, rfl, sampled.setQuiet c.sampleReady.lingertime 0⟩
    | 1, _ => exact .inl ⟨_, _, rfl, sampled⟩
    | 2, _ => exact .inl ⟨_, _, rfl, sampled⟩
    | 3, _ => cases poll
    | 4, _ =>
      by_cases working : c.busy = true
      · refine .inr ⟨working, c.sampleReady,
          fun after => (after.control, after), sampled, ?_, fun after => Alike.refl after⟩
        show Except.map _ (if c.sampleReady.busy then c.sampleReady.exec else .ok c.sampleReady) = _
        rw [if_pos (sampled.busy.trans working)]
      · refine .inl ⟨c.sampleReady.control, c.sampleReady, ?_, sampled⟩
        show Except.map _ (if c.sampleReady.busy then c.sampleReady.exec else .ok c.sampleReady) = _
        rw [if_neg (fun same => working (sampled.busy.symm.trans same))]
        rfl

/-- A read of the data register goes on with the transfer, and returns the byte from before. -/
theorem perform_data (c : FD1793) (on : c.nofdc = false) :
    c.perform (.read 3) =
      ({ c.sampleReady with status := c.sampleReady.status &&& ~~~stDrq } : FD1793).exec.map
        fun after => (c.data, after) := by
  show c.read 3 = _
  unfold read
  rw [if_neg (fun off => absurd (on.symm.trans off) Bool.false_ne_true)]
  rfl

end FD1793

end VectorDebugger
