import VectorDebugger.Library.Windows
import VectorDebugger.Machine.FloppyFaults

/-!
# Transfers of sectors

A sector is moved byte by byte. A sector that is read comes with the first byte before it is asked
for, and the transfer ends with the last one. A sector that is written ends only with one byte more
than it has.
-/

namespace VectorDebugger

open Windows

theorem wrapInt_le {n : Int} (nonneg : 0 ≤ n) : wrapInt n ≤ n := by
  unfold wrapInt Int.bmod
  dsimp only
  split
  · omega
  · omega

/-- What stays fixed while a sector is transferred. -/
structure SectorTransfer where
  /-- The command that is in force. -/
  commandtr : Nat
  /-- The controller is off. -/
  nofdc : Bool
  /-- The selected drive. -/
  drive : Fin 4
  /-- The disks at the start. -/
  disks : Fin 4 → FDisk
  /-- Where the sector starts. -/
  start : Nat

namespace FD1793

/-- A sector of an image is being transferred, up to an offset. -/
structure Transferring (transfer : SectorTransfer) (data : List Byte) (offset : Nat) (c : FD1793) :
    Prop where
  commandtr : c.commandtr = transfer.commandtr
  nofdc : c.nofdc = transfer.nofdc
  dsksel : c.dsksel = transfer.drive
  others : ∀ drive, drive ≠ transfer.drive → c.disks drive = transfer.disks drive
  image : c.dsk.dsk = .attached data
  source : c.dsk.readSource = false
  length : c.dsk.readLength = 1024
  position : c.dsk.position = transfer.start
  offset : c.dsk.readOffset = offset
  inside : (transfer.start : Int) + 1024 ≤ wrapInt data.length

namespace Transferring

variable {transfer : SectorTransfer} {data : List Byte} {offset : Nat} {c : FD1793}

/-- The sector is inside the image. -/
theorem fits (at_ : Transferring transfer data offset c) : transfer.start + 1024 ≤ data.length := by
  have inside := at_.inside
  have bound := wrapInt_le (Int.natCast_nonneg data.length)
  omega

/-- Where the next byte is. -/
theorem index (at_ : Transferring transfer data offset c) (short : offset < 1024) :
    wrapInt (c.dsk.position + c.dsk.readOffset) = (transfer.start + offset : Nat) ∧
      ((transfer.start + offset : Nat) : Int) < wrapInt data.length := by
  have inside := at_.inside
  have most := wrapInt_lt data.length
  rw [at_.position, at_.offset, wrapInt_of_small (by omega) (by omega)]
  omega

/-- A transfer depends on the disks and on what is selected and in force. -/
theorem congr {other : FD1793} (at_ : Transferring transfer data offset c)
    (disks : other.disks = c.disks) (dsksel : other.dsksel = c.dsksel)
    (commandtr : other.commandtr = c.commandtr) (nofdc : other.nofdc = c.nofdc) :
    Transferring transfer data offset other := by
  have same : other.dsk = c.dsk := by
    unfold FD1793.dsk
    rw [disks, dsksel]
  exact ⟨commandtr.trans at_.commandtr, nofdc.trans at_.nofdc, dsksel.trans at_.dsksel,
    fun drive other => (congrFun disks drive).trans (at_.others drive other), same ▸ at_.image,
    same ▸ at_.source, same ▸ at_.length, same ▸ at_.position, same ▸ at_.offset, at_.inside⟩

theorem alike {other : FD1793} (at_ : Transferring transfer data offset c) (alike : c.Alike other) :
    Transferring transfer data offset other :=
  at_.congr alike.disks alike.dsksel alike.commandtr alike.nofdc

/-- A transfer goes on with the selected disk. -/
theorem move {data' : List Byte} {byte : Byte} (at_ : Transferring transfer data offset c)
    (size : data'.length = data.length) {after : FD1793}
    (disks : after.disks = (c.setDsk
      { c.dsk with dsk := .attached data', data := byte, readOffset := offset + 1 }).disks)
    (dsksel : after.dsksel = c.dsksel) (commandtr : after.commandtr = c.commandtr)
    (nofdc : after.nofdc = c.nofdc) : Transferring transfer data' (offset + 1) after := by
  have same : after.dsk =
      { c.dsk with dsk := .attached data', data := byte, readOffset := offset + 1 } := by
    unfold FD1793.dsk
    rw [disks, dsksel]
    exact Function.update_self _ _ _
  refine ⟨commandtr.trans at_.commandtr, nofdc.trans at_.nofdc, dsksel.trans at_.dsksel, ?_, ?_, ?_,
    ?_, ?_, ?_, ?_⟩
  · intro drive other
    rw [disks, ← at_.others drive other]
    exact Function.update_of_ne (at_.dsksel ▸ other) _ _
  · rw [same]
  · rw [same]
    exact at_.source
  · rw [same]
    exact at_.length
  · rw [same]
    exact at_.position
  · rw [same]
  · rw [size]
    exact at_.inside

/-- The next byte of a sector that is read. -/
theorem read (at_ : Transferring transfer data offset c) (short : offset < 1024) :
    c.dsk.read = .ok ({ c.dsk with
      dsk := .attached data
      data := data.getD (transfer.start + offset) 0
      readOffset := offset + 1 }, false) := by
  obtain ⟨index, below⟩ := at_.index short
  have next : c.dsk.nextByte = .ok (data.getD (transfer.start + offset) 0) := by
    unfold FDisk.nextByte
    rw [if_neg (by rw [at_.source]; decide), index, at_.image]
    exact DiskImage.get_attached below
  have left : c.dsk.readOffset < c.dsk.readLength := by
    rw [at_.offset, at_.length]
    exact short
  unfold FDisk.read
  rw [if_pos left, next, ← at_.image, ← at_.offset]
  rfl

/-- The next byte of a sector that is written. -/
theorem writeData (at_ : Transferring transfer data offset c) (short : offset < 1024)
    (value : Byte) :
    c.dsk.writeData value = .ok ({ c.dsk with
      dsk := .attached (data.set (transfer.start + offset) value)
      data := c.dsk.data
      readOffset := offset + 1 }, false) := by
  obtain ⟨index, below⟩ := at_.index short
  have next : c.dsk.dsk.set ((transfer.start + offset : Nat) : Int) value =
      .ok (.attached (data.set (transfer.start + offset) value)) := by
    rw [at_.image]
    exact DiskImage.set_attached below value
  have left : c.dsk.readOffset < c.dsk.readLength := by
    rw [at_.offset, at_.length]
    exact short
  unfold FDisk.writeData
  rw [if_pos left, index, next, ← at_.offset]
  rfl

/-- A sector that is through. -/
theorem read_finished (at_ : Transferring transfer data 1024 c) :
    c.dsk.read = .ok (c.dsk, true) := by
  unfold FDisk.read
  rw [if_neg (by rw [at_.offset, at_.length]; decide)]

end Transferring

/-- A sector that is read, with so many bytes taken. -/
inductive Reading (transfer : SectorTransfer) (data : List Byte) : Nat → FD1793 → Prop
  /-- The next byte is still to come. -/
  | waiting {done : Nat} {c : FD1793} (at_ : Transferring transfer data done c)
      (short : done < 1024) (drq : c.drq = false) (busy : c.busy = true) :
      Reading transfer data done c
  /-- The next byte is there. -/
  | ready {done : Nat} {c : FD1793} (at_ : Transferring transfer data (done + 1) c)
      (short : done < 1024) (drq : c.drq = true) (busy : c.busy = true)
      (byte : c.data = data.getD (transfer.start + done) 0) : Reading transfer data done c
  /-- No byte is left. -/
  | finished {c : FD1793} (at_ : Transferring transfer data 1024 c) (drq : c.drq = false)
      (busy : c.busy = false) : Reading transfer data 1024 c

/-- A sector of which these bytes have been written. -/
structure Writing (transfer : SectorTransfer) (data written : List Byte) (c : FD1793) : Prop where
  at_ : Transferring transfer (overwrite data transfer.start written) written.length c
  drq : c.drq = true
  busy : c.busy = true

section Steps

variable {transfer : SectorTransfer} {data : List Byte} {done : Nat} {c : FD1793}

/-- A byte is fetched. -/
theorem exec_fetch (reads : transfer.commandtr = cmdReadSec)
    (at_ : Transferring transfer data done c) (short : done < 1024) (drq : c.drq = false)
    (busy : c.busy = true) : ∃ after, c.exec = .ok after ∧
      Transferring transfer data (done + 1) after ∧ after.drq = true ∧ after.busy = true ∧
      after.data = data.getD (transfer.start + done) 0 := by
  unfold exec
  rw [if_pos (.inl (at_.commandtr.trans reads)), if_neg (by rw [drq]; decide), at_.read short]
  exact ⟨_, rfl, at_.move rfl rfl rfl rfl rfl, drq_or c.status, (busy_or c.status).trans busy, rfl⟩

/-- The transfer ends when no byte is left. -/
theorem exec_finish (reads : transfer.commandtr = cmdReadSec)
    (at_ : Transferring transfer data 1024 c) (drq : c.drq = false) :
    ∃ after, c.exec = .ok after ∧ Reading transfer data 1024 after ∧ after.intrq = prtIntrq := by
  unfold exec
  rw [if_pos (.inl (at_.commandtr.trans reads)), if_neg (by rw [drq]; decide), at_.read_finished]
  refine ⟨_, rfl, .finished (at_.congr ?_ rfl rfl rfl) ?_ (busy_idle c.status), rfl⟩
  · exact Function.update_eq_self _ _
  · exact (drq_idle c.status).trans drq

/-- Nothing is executed while the status requests data. -/
theorem exec_drq (transfers : c.commandtr = cmdReadSec ∨ c.commandtr = cmdWriteSec)
    (drq : c.drq = true) : c.exec = .ok c := by
  unfold exec
  rcases transfers with command | command
  · rw [if_pos (.inl command), if_pos drq]
  · rw [command, if_neg (by decide), if_pos rfl, if_pos drq]

/-- A poll does not disturb a sector that is read. -/
theorem Reading.poll (reads : transfer.commandtr = cmdReadSec)
    (reading : Reading transfer data done c) {access : FdcAccess} (poll : access.isPoll = true) :
    ∃ value after, c.perform access = .ok (value, after) ∧ Reading transfer data done after := by
  have alike : ∀ {base other : FD1793}, base.Alike other → Reading transfer data done base →
      Reading transfer data done other := by
    intro base other same reading
    cases reading with
    | waiting at_ short drq busy =>
      exact .waiting (at_.alike same) short (same.drq.trans drq) (same.busy.trans busy)
    | ready at_ short drq busy byte =>
      exact .ready (at_.alike same) short (same.drq.trans drq) (same.busy.trans busy)
        (same.data.trans byte)
    | finished at_ drq busy =>
      exact .finished (at_.alike same) (same.drq.trans drq) (same.busy.trans busy)
  rcases c.poll_cases poll with
    ⟨value, after, performed, same⟩ | ⟨working, base, result, same, performed, results⟩
  · exact ⟨value, after, performed, alike same reading⟩
  have executed : ∃ after, base.exec = .ok after ∧ Reading transfer data done after := by
    cases alike same reading with
    | waiting at_ short drq busy =>
      obtain ⟨after, same, next, drq, busy, byte⟩ := exec_fetch reads at_ short drq busy
      exact ⟨after, same, .ready next short drq busy byte⟩
    | ready at_ short drq busy byte =>
      exact ⟨base, exec_drq (.inl (at_.commandtr.trans reads)) drq,
        .ready at_ short drq busy byte⟩
    | finished at_ drq busy =>
      rw [same.busy, working] at busy
      cases busy
  obtain ⟨after, same, reading⟩ := executed
  rw [performed, same]
  exact ⟨_, _, rfl, alike (results after) reading⟩

/-- A read of the data register goes on with a transfer that requests nothing. -/
theorem Transferring.perform_data (at_ : Transferring transfer data done c)
    (on : transfer.nofdc = false) (busy : c.busy = true) :
    ∃ base, Transferring transfer data done base ∧ base.drq = false ∧ base.busy = true ∧
      c.perform (.read 3) = base.exec.map fun after => (c.data, after) :=
  ⟨{ c.sampleReady with status := c.sampleReady.status &&& ~~~stDrq }, at_.congr rfl rfl rfl rfl,
    drq_clear c.sampleReady.status,
    (busy_clear c.sampleReady.status).trans ((alike_sampleReady c).busy.trans busy),
    FD1793.perform_data c (at_.nofdc.trans on)⟩

/-- A read of the data register takes the next byte, and the last one ends the transfer. -/
theorem Reading.take (reads : transfer.commandtr = cmdReadSec) (on : transfer.nofdc = false)
    (reading : Reading transfer data done c) (drq : c.drq = true) :
    ∃ after, c.perform (.read 3) = .ok (data.getD (transfer.start + done) 0, after) ∧
      Reading transfer data (done + 1) after ∧ (done + 1 = 1024 → after.intrq = prtIntrq) := by
  cases reading with
  | waiting at_ short idle busy =>
    rw [drq] at idle
    cases idle
  | finished at_ idle busy =>
    rw [drq] at idle
    cases idle
  | ready at_ short drq busy byte =>
    obtain ⟨base, next, cleared, working, performed⟩ := at_.perform_data on busy
    rw [performed, byte]
    by_cases more : done + 1 < 1024
    · obtain ⟨after, same, next, drq, busy, byte⟩ := exec_fetch reads next more cleared working
      rw [same]
      exact ⟨after, rfl, .ready next more drq busy byte, fun last => by omega⟩
    · have last : done + 1 = 1024 := by omega
      rw [last] at next ⊢
      obtain ⟨after, same, reading, raised⟩ := exec_finish reads next cleared
      rw [same]
      exact ⟨after, rfl, reading, fun _ => raised⟩

/-- A byte that is there is one of the image. -/
theorem Reading.inside (reading : Reading transfer data done c) (drq : c.drq = true) :
    transfer.start + done < data.length := by
  cases reading with
  | waiting at_ short idle busy =>
    rw [drq] at idle
    cases idle
  | ready at_ short drq busy byte => exact Nat.lt_of_lt_of_le (by omega) at_.fits
  | finished at_ idle busy =>
    rw [drq] at idle
    cases idle

/-- A controller is busy while bytes are left. -/
theorem Reading.busy (reading : Reading transfer data done c) (short : done < 1024) :
    c.busy = true := by
  cases reading with
  | waiting at_ short idle busy => exact busy
  | ready at_ short drq busy byte => exact busy
  | finished at_ idle busy => exact absurd short (by decide)

/-- A controller is done with a transfer when no byte is left. -/
theorem Reading.complete (reading : Reading transfer data 1024 c) :
    c.busy = false ∧ c.drq = false := by
  cases reading with
  | waiting at_ short idle busy => exact absurd short (by decide)
  | ready at_ short drq busy byte => exact absurd short (by decide)
  | finished at_ idle busy => exact ⟨busy, idle⟩

/-- A poll does not disturb a sector that is written. -/
theorem Writing.poll {written : List Byte} (writes : transfer.commandtr = cmdWriteSec)
    (writing : Writing transfer data written c) {access : FdcAccess}
    (poll : access.isPoll = true) :
    ∃ value after, c.perform access = .ok (value, after) ∧ Writing transfer data written after := by
  have alike : ∀ {base other : FD1793}, base.Alike other → Writing transfer data written base →
      Writing transfer data written other :=
    fun same writing => ⟨writing.at_.alike same, same.drq.trans writing.drq,
      same.busy.trans writing.busy⟩
  rcases c.poll_cases poll with
    ⟨value, after, performed, same⟩ | ⟨-, base, result, same, performed, results⟩
  · exact ⟨value, after, performed, alike same writing⟩
  have next := alike same writing
  rw [performed, exec_drq (.inr (next.at_.commandtr.trans writes)) next.drq]
  exact ⟨_, _, rfl, alike (results base) next⟩

/-- A write of the data register writes the next byte. -/
theorem Writing.put {written : List Byte} (writes : transfer.commandtr = cmdWriteSec)
    (writing : Writing transfer data written c) (fits : transfer.start + 1024 ≤ data.length)
    (short : written.length < 1024) (value : Byte) :
    ∃ after, c.perform (.write 3 value) = .ok (0, after) ∧
      Writing transfer data (written ++ [value]) after := by
  let base : FD1793 := { c with data := value, status := c.status &&& ~~~stDrq }
  have next : Transferring transfer (overwrite data transfer.start written) written.length base :=
    writing.at_.congr rfl rfl rfl rfl
  have cleared : base.drq = false := drq_clear c.status
  have working : base.busy = true := (busy_clear c.status).trans writing.busy
  have performed : c.perform (.write 3 value) = base.exec.map fun after => (0, after) := rfl
  have command : base.commandtr = cmdWriteSec := next.commandtr.trans writes
  rw [performed]
  unfold exec
  rw [command, if_neg (by decide), if_pos rfl, if_neg (by rw [cleared]; decide),
    next.writeData short]
  refine ⟨_, rfl, ?_, drq_or base.status, (busy_or base.status).trans working⟩
  rw [List.length_append, List.length_singleton, ← set_overwrite (by omega)]
  exact next.move (List.length_set ..) rfl rfl rfl rfl

end Steps

/-! ### Commands -/

/-- READ SECTOR. -/
def isReadSector (val : Byte) : Bool := (val >>> 4).toNat = 8 || (val >>> 4).toNat = 9

/-- WRITE SECTOR. -/
def isWriteSector (val : Byte) : Bool := (val >>> 4).toNat = 10 || (val >>> 4).toNat = 11

theorem command_read {val : Byte} (reads : isReadSector val = true) (c : FD1793) :
    c.command val =
      ({ c with intrq := 0, commandtr := 0 } : FD1793).beginTransfer cmdReadSec stBusy := by
  have nibble : (val >>> 4).toNat = 8 ∨ (val >>> 4).toNat = 9 := by
    simpa [isReadSector] using reads
  unfold command
  rcases nibble with same | same
  · rw [same]
    rfl
  · rw [same]
    rfl

theorem command_write {val : Byte} (writes : isWriteSector val = true) (c : FD1793) :
    c.command val = ({ c with intrq := 0, commandtr := 0 } : FD1793).beginTransfer cmdWriteSec
      (stBusy ||| stDrq) := by
  have nibble : (val >>> 4).toNat = 10 ∨ (val >>> 4).toNat = 11 := by
    simpa [isWriteSector] using writes
  unfold command
  rcases nibble with same | same
  · rw [same]
    rfl
  · rw [same]
    rfl

/-- A sector command on a sector inside the image starts the transfer of that sector. -/
theorem transferring_beginTransfer {c : FD1793} {data : List Byte}
    (image : c.dsk.dsk = .attached data) (low : 0 ≤ c.sectorPosition)
    (high : c.sectorPosition + 1024 ≤ wrapInt data.length) (commandtr : Nat) (flags : Byte) :
    Transferring ⟨commandtr, c.nofdc, c.dsksel, c.disks, c.sectorPosition.toNat⟩ data 0
      (c.beginTransfer commandtr flags) := by
  have begun := dsk_beginTransfer c commandtr flags
  rw [seek_beginSector (isReady_of_inside image low high)] at begun
  have start : ((c.sectorPosition.toNat : Nat) : Int) = c.sectorPosition := Int.toNat_of_nonneg low
  refine ⟨rfl, rfl, rfl, ?_, ?_, ?_, ?_, ?_, ?_, ?_⟩
  · intro drive other
    show Function.update (Function.update c.disks c.dsksel _) c.dsksel _ drive = c.disks drive
    rw [Function.update_of_ne other, Function.update_of_ne other]
  · rw [begun]
    exact image
  · rw [begun]
  · rw [begun]
  · rw [begun, start]
    rfl
  · rw [begun]
  · rw [start]
    exact high

/-! ### Whole transfers -/

/-- The access reads the data register. -/
def isTake (access : FdcAccess) : Bool := access = .read 3

/-- The access writes the data register. -/
def isPut : FdcAccess → Bool
  | .read _ => false
  | .write addr _ => addr = 3

/-- The values that accesses write to the data register. -/
def putValues (accesses : List FdcAccess) : List Byte :=
  accesses.filterMap fun
    | .write 3 value => some value
    | _ => none

section Runs

variable {transfer : SectorTransfer} {data : List Byte}

/-- The bytes of a sector are read one after another. -/
theorem Reading.run (reads : transfer.commandtr = cmdReadSec) (on : transfer.nofdc = false)
    (accesses : List FdcAccess) : ∀ {done : Nat} {c : FD1793}, Reading transfer data done c →
      (∀ access ∈ accesses, access.isPoll = true ∨ isTake access = true) →
      c.DataReady isTake accesses →
      ∃ final, c.run accesses =
          .ok (window data (transfer.start + done) (accesses.countP isTake), final) ∧
        Reading transfer data (done + accesses.countP isTake) final := by
  induction accesses with
  | nil =>
    intro done c reading kinds ready
    exact ⟨c, rfl, reading⟩
  | cons access rest inductionHypothesis =>
    intro done c reading kinds ready
    have others : ∀ access ∈ rest, access.isPoll = true ∨ isTake access = true :=
      fun access member => kinds access (List.mem_cons_of_mem _ member)
    cases take : isTake access with
    | false =>
      have poll := (kinds access List.mem_cons_self).resolve_right (by rw [take]; decide)
      obtain ⟨value, after, performed, next⟩ := reading.poll reads poll
      obtain ⟨final, ran, last⟩ := inductionHypothesis next others (ready.2 value after performed)
      have other : access ≠ .read 3 := of_decide_eq_false take
      rw [List.countP_cons_of_neg (by rw [take]; decide)]
      exact ⟨final, run_cons.mpr ⟨value, after, _, performed, ran, (if_neg other).symm⟩, last⟩
    | true =>
      have drq := ready.1 take
      obtain rfl : access = .read 3 := of_decide_eq_true take
      obtain ⟨after, performed, next, -⟩ := reading.take reads on drq
      obtain ⟨final, ran, last⟩ := inductionHypothesis next others (ready.2 _ after performed)
      have inside : transfer.start + done < data.length := reading.inside drq
      rw [List.countP_cons_of_pos take, window_succ data inside _ 0]
      refine ⟨final, run_cons.mpr ⟨_, after, _, performed, ran, (if_pos rfl).symm⟩, ?_⟩
      rw [Nat.add_comm (rest.countP isTake) 1, ← Nat.add_assoc]
      exact last

/-- The bytes of a sector are written one after another. -/
theorem Writing.run (writes : transfer.commandtr = cmdWriteSec)
    (fits : transfer.start + 1024 ≤ data.length) (accesses : List FdcAccess) :
    ∀ {written : List Byte} {c : FD1793}, Writing transfer data written c →
      (∀ access ∈ accesses, access.isPoll = true ∨ isPut access = true) →
      written.length + (putValues accesses).length ≤ 1024 →
      c.DataReady isPut accesses ∧ ∃ final, c.run accesses = .ok ([], final) ∧
        Writing transfer data (written ++ putValues accesses) final := by
  induction accesses with
  | nil =>
    intro written c writing kinds short
    exact ⟨trivial, c, rfl, (List.append_nil written).symm ▸ writing⟩
  | cons access rest inductionHypothesis =>
    intro written c writing kinds short
    have others : ∀ access ∈ rest, access.isPoll = true ∨ isPut access = true :=
      fun access member => kinds access (List.mem_cons_of_mem _ member)
    have next : ∃ values after value, putValues (access :: rest) = values ++ putValues rest ∧
        c.perform access = .ok (value, after) ∧
        Writing transfer data (written ++ values) after := by
      rcases kinds access List.mem_cons_self with poll | put
      · obtain ⟨value, after, performed, next⟩ := writing.poll writes poll
        cases access with
        | read addr =>
          exact ⟨[], after, value, rfl, performed, (List.append_nil written).symm ▸ next⟩
        | write addr value => cases poll
      · cases access with
        | read addr => cases put
        | write addr value =>
          obtain rfl : addr = 3 := of_decide_eq_true put
          rw [show putValues (.write 3 value :: rest) = value :: putValues rest from rfl,
            List.length_cons] at short
          obtain ⟨after, performed, next⟩ := writing.put writes fits (by omega) value
          exact ⟨[value], after, 0, rfl, performed, next⟩
    obtain ⟨values, after, value, puts, performed, next⟩ := next
    have other : access ≠ .read 3 := by
      rintro rfl
      rcases kinds _ List.mem_cons_self with poll | put
      · cases poll
      · cases put
    rw [puts, List.length_append] at short
    obtain ⟨ready, final, ran, last⟩ :=
      inductionHypothesis next others (by rw [List.length_append]; omega)
    rw [puts, ← List.append_assoc]
    exact ⟨.cons (fun _ => writing.drq) performed ready, final,
      run_cons.mpr ⟨value, after, [], performed, ran, (if_neg other).symm⟩, last⟩

end Runs

/-- A controller that is off does nothing. -/
theorem run_off {c : FD1793} (off : c.nofdc = true) (drq : c.drq = false)
    (accesses : List FdcAccess)
    (kinds : ∀ access ∈ accesses, access.isPoll = true ∨ isTake access = true)
    (ready : c.DataReady isTake accesses) :
    c.run accesses = .ok ([], c) ∧ accesses.countP isTake = 0 := by
  induction accesses with
  | nil => exact ⟨rfl, rfl⟩
  | cons access rest inductionHypothesis =>
    have poll : isTake access = false := by
      cases take : isTake access with
      | false => rfl
      | true =>
        have now := ready.1 take
        rw [drq] at now
        cases now
    have other : access ≠ .read 3 := of_decide_eq_false poll
    have performed : c.perform access = .ok (0xff, c) := by
      cases access with
      | read addr => exact if_pos off
      | write addr value =>
        rcases kinds _ List.mem_cons_self with same | same
        · cases same
        · cases same
    obtain ⟨ran, none⟩ := inductionHypothesis
      (fun access member => kinds access (List.mem_cons_of_mem _ member)) (ready.2 _ c performed)
    rw [List.countP_cons_of_neg (by rw [poll]; decide)]
    exact ⟨run_cons.mpr ⟨0xff, c, [], performed, ran, (if_neg other).symm⟩, none⟩

/-- The accesses of a sector command that move its data. -/
def movesData (val : Byte) : FdcAccess → Bool := if isReadSector val then isTake else isPut

/-- A sector command stays busy until 1024 bytes are moved, and is then complete. -/
structure Completes (c : FD1793) (val : Byte) : Prop where
  /-- Before that the controller is busy. -/
  before : ∀ accesses : List FdcAccess,
    (∀ access ∈ accesses, access.isPoll = true ∨ movesData val access = true) →
    (c.command val).DataReady (movesData val) accesses →
    accesses.countP (movesData val) < 1024 →
    ∃ bytes final, (c.command val).run accesses = .ok (bytes, final) ∧ final.busy = true
  /-- The last byte ends the command. -/
  ends : ∀ (accesses : List FdcAccess) (last : FdcAccess),
    (∀ access ∈ accesses, access.isPoll = true ∨ movesData val access = true) →
    movesData val last = true →
    (c.command val).DataReady (movesData val) (accesses ++ [last]) →
    accesses.countP (movesData val) = 1023 →
    ∃ bytes final, (c.command val).run (accesses ++ [last]) = .ok (bytes, final) ∧
      final.busy = false ∧ final.drq = false ∧ final.intrq = prtIntrq

/-- A step that can be made again and again is repeated. -/
theorem run_replicate {P : Nat → FD1793 → Prop} (kind : FdcAccess → Bool) {access : FdcAccess}
    (count : Nat)
    (step : ∀ done c, done < count → P done c → c.drq = true ∧
      ∃ value after, c.perform access = .ok (value, after) ∧ P (done + 1) after) :
    ∀ left done : Nat, ∀ {c : FD1793}, done + left = count → P done c →
      c.DataReady kind (List.replicate left access) ∧
        ∃ bytes final, c.run (List.replicate left access) = .ok (bytes, final) ∧ P count final := by
  intro left
  induction left with
  | zero =>
    intro done c total holds
    obtain rfl : done = count := by omega
    exact ⟨trivial, [], c, rfl, holds⟩
  | succ left inductionHypothesis =>
    intro done c total holds
    obtain ⟨drq, value, after, performed, next⟩ := step done c (by omega) holds
    obtain ⟨ready, bytes, final, ran, last⟩ := inductionHypothesis (done + 1) (by omega) next
    exact ⟨.cons (fun _ => drq) performed ready, _, final,
      run_cons.mpr ⟨value, after, bytes, performed, ran, rfl⟩, last⟩

/-- A command that is still busy after its last byte does not complete. -/
theorem not_completes {c : FD1793} {val : Byte} (access : FdcAccess)
    {P : Nat → FD1793 → Prop} (moves : movesData val access = true) (start : P 0 (c.command val))
    (step : ∀ done c, done < 1024 → P done c → c.drq = true ∧
      ∃ value after, c.perform access = .ok (value, after) ∧ P (done + 1) after)
    (busy : ∀ final, P 1024 final → final.busy = true) : ¬ c.Completes val := by
  intro completes
  obtain ⟨ready, bytes, final, ran, last⟩ :=
    run_replicate (movesData val) 1024 step 1024 0 rfl start
  have split : List.replicate 1024 access = List.replicate 1023 access ++ [access] :=
    List.replicate_succ'
  rw [split] at ready ran
  obtain ⟨bytes', final', ran', idle, -⟩ := completes.ends (List.replicate 1023 access) access
    (fun other member => .inr (List.eq_of_mem_replicate member ▸ moves)) moves ready
    (by rw [List.countP_replicate, if_pos moves])
  rw [ran'] at ran
  cases ran
  rw [busy _ last] at idle
  cases idle

section Completion

variable {c : FD1793} {val : Byte} {data : List Byte}

theorem busy_begun (status : Byte) : ((status ||| stBusy) &&& stBusy != 0) = true := by
  rw [or_and_self]
  rfl

theorem drq_begun (status : Byte) :
    ((status ||| stBusy) &&& stDrq != 0) = (status &&& stDrq != 0) := by
  rw [or_and_other rfl]

/-- The transfer that a sector command starts. -/
def begunTransfer (c : FD1793) (commandtr : Nat) : SectorTransfer :=
  ⟨commandtr, c.nofdc, c.dsksel, c.disks, c.sectorPosition.toNat⟩

/-- WRITE SECTOR starts with no byte written. -/
theorem writing_command (writes : isWriteSector val = true) (image : c.dsk.dsk = .attached data)
    (low : 0 ≤ c.sectorPosition) (high : c.sectorPosition + 1024 ≤ wrapInt data.length) :
    Writing (c.begunTransfer cmdWriteSec) data [] (c.command val) := by
  rw [command_write writes]
  refine ⟨?_, ?_, ?_⟩
  · rw [overwrite_nil]
    exact transferring_beginTransfer (c := { c with intrq := 0, commandtr := 0 }) image low high
      cmdWriteSec (stBusy ||| stDrq)
  · show ((c.status ||| (stBusy ||| stDrq)) &&& stDrq != 0) = true
    rw [← BitVec.or_assoc]
    exact drq_or _
  · show ((c.status ||| (stBusy ||| stDrq)) &&& stBusy != 0) = true
    rw [← BitVec.or_assoc, busy_or]
    exact busy_begun c.status

/-- READ SECTOR starts with no byte taken. -/
theorem transferring_read (reads : isReadSector val = true) (image : c.dsk.dsk = .attached data)
    (low : 0 ≤ c.sectorPosition) (high : c.sectorPosition + 1024 ≤ wrapInt data.length) :
    Transferring (c.begunTransfer cmdReadSec) data 0 (c.command val) ∧
      (c.command val).busy = true ∧ (c.command val).drq = c.drq := by
  rw [command_read reads]
  exact ⟨transferring_beginTransfer (c := { c with intrq := 0, commandtr := 0 }) image low high
    cmdReadSec stBusy, busy_begun c.status, drq_begun c.status⟩

/-- WRITE SECTOR wants one byte more than the sector has. -/
theorem not_completes_write (writes : isWriteSector val = true) (image : c.dsk.dsk = .attached data)
    (low : 0 ≤ c.sectorPosition) (high : c.sectorPosition + 1024 ≤ wrapInt data.length) :
    ¬ c.Completes val := by
  have other : isReadSector val = false := by
    unfold isWriteSector at writes
    unfold isReadSector
    simp only [Bool.or_eq_true, decide_eq_true_eq, Bool.or_eq_false_iff, decide_eq_false_iff_not]
      at writes ⊢
    omega
  have start := writing_command writes image low high
  have fits : c.sectorPosition.toNat + 1024 ≤ data.length := (overwrite_nil data _ ▸ start.at_).fits
  apply not_completes (.write 3 0)
    (P := fun done => Writing (c.begunTransfer cmdWriteSec) data (List.replicate done 0))
  · unfold movesData
    rw [other]
    rfl
  · exact start
  · intro done state short writing
    obtain ⟨after, performed, next⟩ :=
      writing.put rfl fits (by rw [List.length_replicate]; exact short) 0
    rw [← List.replicate_succ'] at next
    exact ⟨writing.drq, 0, after, performed, next⟩
  · intro final writing
    exact writing.busy

/-- READ SECTOR with a request left from before gives a byte that is not of the sector. -/
theorem not_completes_stale (reads : isReadSector val = true) (drq : c.drq = true)
    (image : c.dsk.dsk = .attached data) (low : 0 ≤ c.sectorPosition)
    (high : c.sectorPosition + 1024 ≤ wrapInt data.length) : ¬ c.Completes val := by
  obtain ⟨at_, busy, same⟩ := transferring_read reads image low high
  have moves : movesData val (.read 3) = true := by
    unfold movesData
    rw [reads]
    rfl
  cases off : c.nofdc with
  | true =>
    -- A controller that is off answers, and does nothing.
    apply not_completes (.read 3) moves (P := fun _ state => state = c.command val) rfl
    · rintro done state - rfl
      refine ⟨same.trans drq, 0xff, c.command val, ?_, rfl⟩
      exact if_pos (at_.nofdc.trans off)
    · rintro final rfl
      exact busy
  | false =>
    apply not_completes (.read 3) moves (P := fun done state =>
      Transferring (c.begunTransfer cmdReadSec) data done state ∧ state.drq = true ∧
        state.busy = true) ⟨at_, same.trans drq, busy⟩
    · intro done state short stale
      obtain ⟨at_, drq, busy⟩ := stale
      obtain ⟨base, next, cleared, working, performed⟩ := at_.perform_data off busy
      obtain ⟨after, same, next, again, busy, -⟩ := exec_fetch rfl next short cleared working
      rw [performed, same]
      exact ⟨drq, state.data, after, rfl, next, again, busy⟩
    · rintro final ⟨-, -, busy⟩
      exact busy

/-- READ SECTOR on a controller that requests nothing completes. -/
theorem completes_read (reads : isReadSector val = true) (drq : c.drq = false)
    (image : c.dsk.dsk = .attached data) (low : 0 ≤ c.sectorPosition)
    (high : c.sectorPosition + 1024 ≤ wrapInt data.length) : c.Completes val := by
  obtain ⟨at_, busy, same⟩ := transferring_read reads image low high
  have moves : movesData val = isTake := if_pos reads
  have idle := same.trans drq
  cases off : c.nofdc with
  | true =>
    have none : ∀ accesses : List FdcAccess,
        (∀ access ∈ accesses, access.isPoll = true ∨ movesData val access = true) →
        (c.command val).DataReady (movesData val) accesses →
        (c.command val).run accesses = .ok ([], c.command val) ∧
          accesses.countP (movesData val) = 0 := by
      rw [moves]
      exact fun accesses kinds ready => run_off (at_.nofdc.trans off) idle accesses kinds ready
    refine ⟨fun accesses kinds ready short => ?_, fun accesses last kinds moved ready count => ?_⟩
    · exact ⟨_, _, (none accesses kinds ready).1, busy⟩
    · have all := (none (accesses ++ [last]) (fun access member => ?_) ready).2
      · rw [List.countP_append, count] at all
        omega
      · rcases List.mem_append.mp member with old | new
        · exact kinds access old
        · exact .inr (List.mem_singleton.mp new ▸ moved)
  | false =>
    have reading : Reading (c.begunTransfer cmdReadSec) data 0 (c.command val) :=
      .waiting at_ (by decide) idle busy
    refine ⟨fun accesses kinds ready short => ?_, fun accesses last kinds moved ready count => ?_⟩
    · rw [moves] at kinds ready short
      obtain ⟨final, ran, last⟩ := reading.run rfl off accesses kinds ready
      refine ⟨_, final, ran, last.busy ?_⟩
      rw [Nat.zero_add]
      exact short
    · rw [moves] at kinds moved ready count
      obtain rfl : last = .read 3 := of_decide_eq_true moved
      obtain ⟨middle, ran, reading⟩ :=
        reading.run rfl off accesses kinds ready.before
      have drq : middle.drq = true := (ready.after ran).1 moved
      rw [Nat.zero_add, count] at reading
      obtain ⟨final, performed, reading, raised⟩ := reading.take rfl off drq
      have last : middle.run [.read 3] = .ok _ :=
        run_cons.mpr ⟨_, final, [], performed, rfl, rfl⟩
      have ends := run_append last ran
      exact ⟨_, final, ends, reading.complete.1, reading.complete.2, raised rfl⟩

/-- A sector command completes exactly when it reads and nothing is requested before it. -/
theorem completes_iff (sector : isReadSector val = true ∨ isWriteSector val = true)
    (image : c.dsk.dsk = .attached data) (low : 0 ≤ c.sectorPosition)
    (high : c.sectorPosition + 1024 ≤ wrapInt data.length) :
    c.Completes val ↔ isReadSector val = true ∧ c.drq = false := by
  constructor
  · intro completes
    have reads : isReadSector val = true := by
      refine sector.resolve_right fun writes => ?_
      exact not_completes_write writes image low high completes
    refine ⟨reads, ?_⟩
    cases drq : c.drq with
    | false => rfl
    | true => exact absurd completes (not_completes_stale reads drq image low high)
  · rintro ⟨reads, drq⟩
    exact completes_read reads drq image low high

end Completion

/-- A controller whose drives hold one sector each, which the registers name. -/
def oneSector : FD1793 :=
  { init fun _ => FDisk.init (.attached (List.replicate 1024 0)) with sector := 1 }

theorem oneSector_inside :
    oneSector.sectorPosition + 1024 ≤ wrapInt (List.replicate 1024 (0 : Byte)).length := by
  rw [List.length_replicate]
  decide

/-- Reading the sector completes, and writing it does not. -/
theorem completes_iff_oneSector : oneSector.Completes 0x80 ∧ ¬ oneSector.Completes 0xa0 := by
  have low : 0 ≤ oneSector.sectorPosition := by decide
  refine ⟨(completes_iff (.inl rfl) rfl low oneSector_inside).mpr ⟨rfl, rfl⟩, fun completes => ?_⟩
  cases ((completes_iff (.inr rfl) rfl low oneSector_inside).mp completes).1

/-- WRITE SECTOR does not end with its sector. -/
theorem write_not_completes : ¬ ∀ (c : FD1793) (val : Byte) (data : List Byte),
    isReadSector val = true ∨ isWriteSector val = true → c.dsk.dsk = .attached data →
      0 ≤ c.sectorPosition → c.sectorPosition + 1024 ≤ wrapInt data.length → c.Completes val := by
  intro always
  have low : 0 ≤ oneSector.sectorPosition := by decide
  exact not_completes_write rfl rfl low oneSector_inside
    (always oneSector 0xa0 (List.replicate 1024 0) (.inr rfl) rfl low oneSector_inside)

end FD1793

end VectorDebugger
