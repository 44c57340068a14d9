import VectorDebugger.Machine.SectorTransfers

/-!
# Contents of sectors

A sector keeps what is written to it. The registers name a place, and places that are not the same
do not meet in an image, so a command on one of them leaves the others as they were.
-/

namespace VectorDebugger

open Windows

/-- A sector of a drive. -/
structure SectorPlace where
  /-- The drive. -/
  drive : Fin 4
  /-- The side. -/
  side : Nat
  /-- The track. -/
  track : Nat
  /-- The sector, from 1. -/
  sector : Nat
  side_lt : side < 2
  sector_pos : 1 ≤ sector
  sector_le : sector ≤ 5

namespace SectorPlace

/-- Where the sector starts in the image. -/
def start (place : SectorPlace) : Nat :=
  (place.track * 10 + 5 * place.side + (place.sector - 1)) * 1024

/-- Sectors of one drive do not meet. -/
theorem apart {place other : SectorPlace} (drive : other.drive = place.drive)
    (different : other ≠ place) :
    other.start + 1024 ≤ place.start ∨ place.start + 1024 ≤ other.start := by
  obtain ⟨drive₁, side₁, track₁, sector₁, low₁, pos₁, le₁⟩ := place
  obtain ⟨drive₂, side₂, track₂, sector₂, low₂, pos₂, le₂⟩ := other
  have numbers : track₂ * 10 + 5 * side₂ + (sector₂ - 1) ≠
      track₁ * 10 + 5 * side₁ + (sector₁ - 1) := by
    intro same
    obtain ⟨rfl, rfl, rfl⟩ : track₂ = track₁ ∧ side₂ = side₁ ∧ sector₂ = sector₁ := by omega
    exact different (by cases drive; rfl)
  unfold start
  dsimp only
  omega

/-- The registers that name a place. -/
def Addressed (place : SectorPlace) (param track sector : Byte) : Prop :=
  Fin.ofNat 4 param.toNat = place.drive ∧ ((~~~param >>> 2) &&& 1).toNat = place.side ∧
    track.toNat = place.track ∧ sector.toNat = place.sector

end SectorPlace

namespace FD1793

/-- The registers name a place. -/
structure Names (place : SectorPlace) (c : FD1793) : Prop where
  drive : c.dsksel = place.drive
  side : c.side = place.side
  track : c.track = place.track
  sector : c.sector = place.sector

/-- The bytes of a sector. -/
def sectorBytes (c : FD1793) (place : SectorPlace) : List Byte :=
  match (c.disks place.drive).dsk with
  | .cardboard => []
  | .attached data => window data place.start 1024

/-- A place inside an image is where the registers say. -/
theorem Names.position {place : SectorPlace} {c : FD1793} (names : c.Names place) {data : List Byte}
    (inside : (place.start : Int) + 1024 ≤ wrapInt data.length) :
    c.sectorPosition = place.start := by
  have most := wrapInt_lt data.length
  have low := place.sector_pos
  have offset : (if c.sector ≠ 0 then c.sector - 1 else 0) = ((place.sector - 1 : Nat) : Int) := by
    rw [names.sector, if_pos (by omega)]
    omega
  have linear : (c.track * 10 + 5 * c.side + (if c.sector ≠ 0 then c.sector - 1 else 0)) * 1024 =
      (place.start : Int) := by
    rw [offset, names.track, names.side]
    unfold SectorPlace.start
    push_cast
    rfl
  unfold sectorPosition
  rw [linear]
  exact wrapInt_of_small (by omega) (by omega)

/-- The transfer in force on a drive has no byte left. -/
def Settled (c : FD1793) (drive : Fin 4) : Prop :=
  c.commandtr = 0 ∨ (c.disks drive).readLength ≤ (c.disks drive).readOffset

/-- What a controller that has no byte left keeps under a poll. -/
structure Rests (c other : FD1793) : Prop where
  disks : other.disks = c.disks
  dsksel : other.dsksel = c.dsksel
  side : other.side = c.side
  track : other.track = c.track
  sector : other.sector = c.sector
  commandtr : other.commandtr = c.commandtr
  nofdc : other.nofdc = c.nofdc
  drq : other.drq = c.drq

theorem Alike.rests {c other : FD1793} (alike : c.Alike other) : c.Rests other :=
  ⟨alike.disks, alike.dsksel, alike.side, alike.track, alike.sector, alike.commandtr, alike.nofdc,
    alike.drq⟩

theorem Rests.refl (c : FD1793) : c.Rests c := (Alike.refl c).rests

theorem Rests.trans {c middle other : FD1793} (first : c.Rests middle)
    (second : middle.Rests other) : c.Rests other :=
  ⟨second.disks.trans first.disks, second.dsksel.trans first.dsksel, second.side.trans first.side,
    second.track.trans first.track, second.sector.trans first.sector,
    second.commandtr.trans first.commandtr, second.nofdc.trans first.nofdc,
    second.drq.trans first.drq⟩

theorem Rests.settled {c other : FD1793} (rests : c.Rests other) {drive : Fin 4}
    (settled : c.Settled drive) : other.Settled drive := by
  unfold Settled
  rw [rests.commandtr, rests.disks]
  exact settled

/-- Nothing is moved when no byte is left. -/
theorem exec_settled {c : FD1793} (settled : c.Settled c.dsksel) :
    ∃ after, c.exec = .ok after ∧ c.Rests after := by
  have done : c.commandtr ≠ 0 → c.dsk.read = .ok (c.dsk, true) ∧
      c.dsk.writeData c.data = .ok (c.dsk, true) := by
    intro command
    have none : ¬ c.dsk.readOffset < c.dsk.readLength :=
      Nat.not_lt.mpr (settled.resolve_left command)
    exact ⟨if_neg none, if_neg none⟩
  have idle : ({ c with status := c.status &&& ~~~stBusy } : FD1793).drq = c.drq :=
    drq_idle c.status
  have same : (c.setDsk c.dsk).disks = c.disks := Function.update_eq_self _ _
  unfold exec
  split
  · rename_i command
    split
    · exact ⟨c, rfl, .refl c⟩
    have moving : c.commandtr ≠ 0 := by
      rcases command with read | read
      · rw [read]
        decide
      · rw [read]
        decide
    rw [(done moving).1]
    exact ⟨_, rfl, same, rfl, rfl, rfl, rfl, rfl, rfl, idle⟩
  split
  · rename_i command
    split
    · exact ⟨c, rfl, .refl c⟩
    rw [(done (by rw [command]; decide)).2]
    exact ⟨_, rfl, same, rfl, rfl, rfl, rfl, rfl, rfl, idle⟩
  · exact ⟨_, rfl, rfl, rfl, rfl, rfl, rfl, rfl, rfl, idle⟩

/-- Polls leave a controller that has no byte left at rest. -/
theorem run_polls {accesses : List FdcAccess} (polls : ∀ access ∈ accesses, access.isPoll = true) :
    ∀ {c : FD1793}, c.Settled c.dsksel → ∃ final, c.run accesses = .ok ([], final) ∧
      c.Rests final := by
  induction accesses with
  | nil => exact fun {c} settled => ⟨c, rfl, .refl c⟩
  | cons access rest inductionHypothesis =>
    intro c settled
    have step : ∃ value after, c.perform access = .ok (value, after) ∧ c.Rests after := by
      rcases c.poll_cases (polls access List.mem_cons_self) with
        ⟨value, after, performed, alike⟩ | ⟨-, base, result, alike, performed, results⟩
      · exact ⟨value, after, performed, alike.rests⟩
      · have quiet : base.Settled base.dsksel := alike.dsksel ▸ alike.rests.settled settled
        obtain ⟨after, same, rests⟩ := exec_settled quiet
        rw [performed, same]
        exact ⟨_, _, rfl, (alike.rests.trans rests).trans (results after).rests⟩
    obtain ⟨value, after, performed, rests⟩ := step
    have quiet : after.Settled after.dsksel := rests.dsksel ▸ rests.settled settled
    obtain ⟨final, ran, last⟩ := inductionHypothesis
      (fun access member => polls access (List.mem_cons_of_mem _ member)) quiet
    have other : access ≠ .read 3 := by
      rintro rfl
      cases polls _ List.mem_cons_self
    exact ⟨final, run_cons.mpr ⟨value, after, [], performed, ran, (if_neg other).symm⟩,
      rests.trans last⟩

/-- The accesses name a place, give a command and move its data, with polls anywhere after the
first. -/
def IsSession (param track sector val : Byte) (moved accesses : List FdcAccess) : Prop :=
  ∃ rest, accesses = .write 4 param :: rest ∧
    rest.filter (fun access => !access.isPoll) =
      .write 1 track :: .write 2 sector :: .write 0 val :: moved

/-- Polls come before the first access that is none. -/
theorem split_polls {accesses moved : List FdcAccess} {access : FdcAccess}
    (shape : accesses.filter (fun access => !access.isPoll) = access :: moved) :
    ∃ polls rest, accesses = polls ++ access :: rest ∧
      (∀ poll ∈ polls, poll.isPoll = true) ∧
      rest.filter (fun access => !access.isPoll) = moved := by
  obtain ⟨polls, rest, rfl, none, -, others⟩ := List.filter_eq_cons_iff.mp shape
  refine ⟨polls, rest, rfl, fun poll member => ?_, others⟩
  have kept := none poll member
  simpa using kept

/-- A register that is written before a command. -/
theorem run_register {c : FD1793} (settled : c.Settled c.dsksel) {polls : List FdcAccess}
    (only : ∀ poll ∈ polls, poll.isPoll = true) (access : FdcAccess) (set : FD1793 → FD1793)
    (other : access ≠ .read 3)
    (performed : ∀ state : FD1793, state.perform access = .ok (0, set state)) :
    ∃ resting, c.Rests resting ∧ c.run (polls ++ [access]) = .ok ([], set resting) := by
  obtain ⟨resting, ran, rests⟩ := run_polls only settled
  have one : resting.run [access] = .ok ([], set resting) :=
    run_cons.mpr ⟨0, _, [], performed resting, rfl, (if_neg other).symm⟩
  exact ⟨resting, rests, run_append one ran⟩

/-- What the registers name before the command of a session. -/
theorem run_setup {c : FD1793} {place : SectorPlace} (settled : c.Settled place.drive)
    {param track sector val : Byte} (addressed : place.Addressed param track sector)
    {moved accesses : List FdcAccess} (session : IsSession param track sector val moved accesses) :
    ∃ front back ready, accesses = front ++ .write 0 val :: back ∧
      back.filter (fun access => !access.isPoll) = moved ∧ c.run front = .ok ([], ready) ∧
      ready.disks = c.disks ∧ ready.Names place ∧ ready.drq = false := by
  obtain ⟨rest, rfl, shape⟩ := session
  obtain ⟨polls₁, rest₁, rfl, only₁, shape⟩ := split_polls shape
  obtain ⟨polls₂, rest₂, rfl, only₂, shape⟩ := split_polls shape
  obtain ⟨polls₃, back, rfl, only₃, shape⟩ := split_polls shape
  obtain ⟨drive, side, trackSame, sectorSame⟩ := addressed
  have settled₁ : (c.select param).Settled (c.select param).dsksel := by
    show (c.select param).Settled (Fin.ofNat 4 param.toNat)
    rw [drive]
    exact settled
  obtain ⟨state₁, rests₁, ran₁⟩ := run_register settled₁ only₁ (.write 1 track)
    (fun state => { state with track := track.toNat, status := state.status &&& ~~~stDrq })
    nofun fun state => rfl
  have settled₂ : state₁.Settled state₁.dsksel := rests₁.dsksel ▸ rests₁.settled settled₁
  obtain ⟨state₂, rests₂, ran₂⟩ := run_register (c :=
      { state₁ with track := track.toNat, status := state₁.status &&& ~~~stDrq }) settled₂ only₂
    (.write 2 sector)
    (fun state => { state with sector := sector.toNat, status := state.status &&& ~~~stDrq })
    nofun fun state => rfl
  have settled₃ : state₂.Settled state₂.dsksel := rests₂.dsksel ▸ rests₂.settled settled₂
  obtain ⟨state₃, ran₃, rests₃⟩ := run_polls (c :=
      { state₂ with sector := sector.toNat, status := state₂.status &&& ~~~stDrq }) only₃ settled₃
  have first : c.run [.write 4 param] = .ok ([], c.select param) :=
    run_cons.mpr ⟨0, _, [], rfl, rfl, rfl⟩
  refine ⟨[.write 4 param] ++ ((polls₁ ++ [.write 1 track]) ++ ((polls₂ ++ [.write 2 sector]) ++
    polls₃)), back, state₃, by simp, shape, ?_, ?_, ?_, ?_⟩
  · exact run_append (run_append (run_append ran₃ ran₂) ran₁) first
  · exact rests₃.disks.trans (rests₂.disks.trans rests₁.disks)
  · refine ⟨?_, ?_, ?_, ?_⟩
    · rw [← drive]
      exact rests₃.dsksel.trans (rests₂.dsksel.trans rests₁.dsksel)
    · rw [← side]
      exact rests₃.side.trans (rests₂.side.trans rests₁.side)
    · rw [← trackSame]
      exact rests₃.track.trans rests₂.track
    · rw [← sectorSame]
      exact rests₃.sector
  · exact rests₃.drq.trans (drq_clear state₂.status)

/-- Every access of a transfer is a poll, or it moves data. -/
theorem session_kinds (kind : FdcAccess → Bool) {back moved : List FdcAccess}
    (shape : back.filter (fun access => !access.isPoll) = moved)
    (kinds : ∀ access ∈ moved, kind access = true) :
    ∀ access ∈ back, access.isPoll = true ∨ kind access = true := by
  intro access member
  cases poll : access.isPoll with
  | true => exact .inl rfl
  | false =>
    refine .inr (kinds access (shape ▸ List.mem_filter.mpr ⟨member, ?_⟩))
    rw [poll]
    rfl

/-- Polls write nothing to the data register. -/
theorem putValues_filter (accesses : List FdcAccess) :
    putValues (accesses.filter fun access => !access.isPoll) = putValues accesses := by
  induction accesses with
  | nil => rfl
  | cons access rest inductionHypothesis =>
    cases poll : access.isPoll with
    | true =>
      rw [List.filter_cons_of_neg (by rw [poll]; decide), inductionHypothesis]
      cases access with
      | read addr => rfl
      | write addr value => cases poll
    | false =>
      rw [List.filter_cons_of_pos (by rw [poll]; decide)]
      unfold putValues at inductionHypothesis ⊢
      rw [List.filterMap_cons, List.filterMap_cons, inductionHypothesis]

theorem putValues_map (bytes : List Byte) : putValues (bytes.map (FdcAccess.write 3)) = bytes := by
  unfold putValues
  rw [List.filterMap_map]
  exact List.filterMap_some

/-- A session that writes a sector changes its bytes, and no other disk. -/
theorem write_session {c : FD1793} {place : SectorPlace} {data : List Byte}
    (image : (c.disks place.drive).dsk = .attached data)
    (inside : (place.start : Int) + 1024 ≤ wrapInt data.length) (settled : c.Settled place.drive)
    {param track sector val : Byte} (addressed : place.Addressed param track sector)
    (writes : isWriteSector val = true) {bytes : List Byte} (size : bytes.length = 1024)
    {writing : List FdcAccess}
    (session : IsSession param track sector val (bytes.map (FdcAccess.write 3)) writing) :
    ∃ written nofdc, c.run writing = .ok ([], written) ∧
      Writing ⟨cmdWriteSec, nofdc, place.drive, c.disks, place.start⟩ data bytes written := by
  obtain ⟨front, back, ready, rfl, shape, ran, disks, names, -⟩ :=
    run_setup settled addressed session
  have position := names.position inside
  have shown : ready.dsk.dsk = .attached data := by
    unfold dsk
    rw [disks, names.drive]
    exact image
  have start := writing_command writes shown (by rw [position]; exact Int.natCast_nonneg _)
    (by rw [position]; exact inside)
  have same : ready.begunTransfer cmdWriteSec =
      ⟨cmdWriteSec, ready.nofdc, place.drive, c.disks, place.start⟩ := by
    unfold begunTransfer
    rw [position, names.drive, disks]
    rfl
  rw [same] at start
  have puts : putValues back = bytes := by
    rw [← putValues_filter, shape, putValues_map]
  have kinds := session_kinds isPut shape fun access member => by
    obtain ⟨value, -, rfl⟩ := List.mem_map.mp member
    rfl
  have bound := wrapInt_le (Int.natCast_nonneg data.length)
  obtain ⟨-, final, moved, last⟩ := start.run rfl (by show place.start + 1024 ≤ _; omega) back kinds
    (by rw [puts, size]; decide)
  rw [puts, List.nil_append] at last
  have command : ready.run (.write 0 val :: back) = .ok ([], final) :=
    run_cons.mpr ⟨0, _, [], rfl, moved, rfl⟩
  exact ⟨final, ready.nofdc, run_append command ran, last⟩

/-- A session that reads a sector gives its bytes. -/
theorem read_session {c : FD1793} {place : SectorPlace} {data : List Byte}
    (image : (c.disks place.drive).dsk = .attached data)
    (inside : (place.start : Int) + 1024 ≤ wrapInt data.length) (settled : c.Settled place.drive)
    {param track sector val : Byte} (addressed : place.Addressed param track sector)
    (reads : isReadSector val = true) {reading : List FdcAccess}
    (session : IsSession param track sector val (List.replicate 1024 (.read 3)) reading)
    (ready : c.DataReady isTake reading) :
    ∃ final, c.run reading = .ok (window data place.start 1024, final) := by
  obtain ⟨front, back, named, rfl, shape, ran, disks, names, idle⟩ :=
    run_setup settled addressed session
  have position := names.position inside
  have shown : named.dsk.dsk = .attached data := by
    unfold dsk
    rw [disks, names.drive]
    exact image
  obtain ⟨at_, busy, same⟩ := transferring_read reads shown
    (by rw [position]; exact Int.natCast_nonneg _) (by rw [position]; exact inside)
  have kinds := session_kinds isTake shape fun access member =>
    decide_eq_true (List.eq_of_mem_replicate member)
  have count : back.countP isTake = 1024 := by
    have polls : ∀ access ∈ back, isTake access = true ↔
        isTake access = true ∧ (!access.isPoll) = true := by
      intro access member
      refine ⟨fun take => ⟨take, ?_⟩, fun both => both.1⟩
      obtain rfl : access = .read 3 := of_decide_eq_true take
      rfl
    have all : (back.filter fun access => !access.isPoll).countP isTake = 1024 := by
      have taken : isTake (.read 3) = true := rfl
      rw [shape, List.countP_replicate, if_pos taken]
    rw [List.countP_filter] at all
    rw [← all]
    exact List.countP_congr fun access member => by simpa using polls access member
  have rest : (named.command val).DataReady isTake back := (ready.after ran).2 0 _ rfl
  cases off : named.nofdc with
  | true =>
    have none := (run_off (at_.nofdc.trans off) (same.trans idle) back kinds rest).2
    exact absurd (count.symm.trans none) (by decide)
  | false =>
    have begun : Reading (named.begunTransfer cmdReadSec) data 0 (named.command val) :=
      .waiting at_ (by decide) (same.trans idle) busy
    obtain ⟨final, moved, -⟩ := begun.run rfl off back kinds rest
    have start : (named.begunTransfer cmdReadSec).start + 0 = place.start := by
      show named.sectorPosition.toNat + 0 = place.start
      rw [position, Int.toNat_natCast, Nat.add_zero]
    rw [count, start] at moved
    have command : named.run (.write 0 val :: back) = .ok (_, final) :=
      run_cons.mpr ⟨0, _, _, rfl, moved, rfl⟩
    exact ⟨final, run_append command ran⟩

/-! ### Commands on other sectors -/

/-- The bytes that a transfer has left miss the sector that starts there. -/
def MissesSector (start : Nat) (disk : FDisk) : Prop :=
  ∀ i, disk.readOffset ≤ i → i < disk.readLength →
    wrapInt (disk.position + i) < start ∨ (start : Int) + 1024 ≤ wrapInt (disk.position + i)

/-- A sector holds these bytes, and nothing that is under way reaches it. -/
structure Holds (place : SectorPlace) (bytes : List Byte) (c : FD1793) : Prop where
  sound : c.Sound
  image : ∃ data, (c.disks place.drive).dsk = .attached data ∧
    (place.start : Int) + 1024 ≤ wrapInt data.length ∧ window data place.start 1024 = bytes
  misses : c.commandtr = cmdWriteSec → c.dsksel = place.drive → MissesSector place.start c.dsk

/-- A sector is inside the image of its drive. -/
def InImage (c : FD1793) (place : SectorPlace) : Prop :=
  match (c.disks place.drive).dsk with
  | .cardboard => True
  | .attached data => (place.start : Int) + 1024 ≤ wrapInt data.length

/-- A sector command names a sector inside its image, and another one when it writes. A drive on
which bytes are left is not selected while a command is in force. -/
def Spares (place : SectorPlace) (c : FD1793) : FdcAccess → Prop
  | .write 0 val => isSectorCommand val = true →
      ∃ other, c.Names other ∧ c.InImage other ∧ (isWriteSector val = true → other ≠ place)
  | .write 4 val => Fin.ofNat 4 val.toNat = c.dsksel ∨ c.Settled (Fin.ofNat 4 val.toNat)
  | _ => True

/-- A place inside its image is a sector that the registers name. -/
theorem Names.namesSector {place : SectorPlace} {c : FD1793} (names : c.Names place)
    (inside : c.InImage place) : c.NamesSector := by
  unfold InImage at inside
  unfold NamesSector dsk
  rw [names.drive]
  cases image : (c.disks place.drive).dsk with
  | cardboard => trivial
  | attached data =>
    rw [image] at inside
    show 0 ≤ c.sectorPosition ∧ c.sectorPosition + 1024 ≤ wrapInt data.length
    rw [names.position inside]
    exact ⟨Int.natCast_nonneg _, inside⟩

/-- What spares a sector heeds the images. -/
theorem Spares.heeds {place : SectorPlace} {c : FD1793} (sound : c.Sound) {access : FdcAccess}
    (spares : c.Spares place access) : c.Heeds access := by
  cases access with
  | read addr => exact trivial
  | write addr val =>
    obtain ⟨addr, small⟩ := addr
    match addr, small with
    | 0, _ =>
      intro sector
      obtain ⟨other, names, inside, -⟩ := spares sector
      exact names.namesSector inside
    | 1, _ => exact trivial
    | 2, _ => exact trivial
    | 3, _ => exact trivial
    | 4, _ =>
      show (c.select val).TransferInside
      rcases spares with same | idle | settled
      · have disk : (c.select val).dsk = c.dsk := congrArg c.disks same
        unfold TransferInside
        rw [disk]
        exact sound.inside
      · exact (sound_of_idle (c := c.select val) sound.buffered idle).inside
      · have none : (c.select val).dsk.LeftInside := by
          intro i low high
          have short : (c.select val).dsk.readLength ≤ (c.select val).dsk.readOffset := settled
          omega
        exact ⟨fun _ => .inr none, fun _ => none⟩

/-- A byte that is written where a sector is missed leaves it alone. -/
theorem writeData_misses {disk next : FDisk} {finished : Bool} {data : List Byte} {start : Nat}
    {value : Byte} (image : disk.dsk = .attached data) (left : disk.LeftInside)
    (misses : MissesSector start disk) (written : disk.writeData value = .ok (next, finished)) :
    ∃ data', next.dsk = .attached data' ∧ data'.length = data.length ∧
      window data' start 1024 = window data start 1024 ∧ MissesSector start next := by
  unfold FDisk.writeData at written
  by_cases short : disk.readOffset < disk.readLength
  · rw [if_pos short, image] at written
    have has := left disk.readOffset (Nat.le_refl _) short
    have outside := misses disk.readOffset (Nat.le_refl _) short
    rw [image] at has
    obtain ⟨low, high⟩ := has
    obtain ⟨index, same⟩ := Int.eq_ofNat_of_zero_le low
    rw [same] at outside high
    rw [same, DiskImage.set_attached high] at written
    cases written
    refine ⟨_, rfl, List.length_set .., window_set_apart (by omega) value, ?_⟩
    intro i least most
    exact misses i (Nat.le_of_succ_le least) most
  · rw [if_neg short] at written
    cases written
    exact ⟨data, image, rfl, rfl, misses⟩

/-- A step of a transfer leaves a sector alone that it misses. -/
theorem Holds.executed {place : SectorPlace} {bytes : List Byte} {c after : FD1793}
    (executed : c.Executed after) (holds : c.Holds place bytes) : after.Holds place bytes := by
  obtain ⟨data, image, inside, held⟩ := holds.image
  have sound := executed.sound holds.sound
  by_cases drive : c.dsksel = place.drive
  · have selected : after.disks place.drive = after.dsk := by
      unfold dsk
      rw [executed.dsksel, drive]
    have shown : c.dsk.dsk = .attached data := by
      unfold dsk
      rw [drive]
      exact image
    have moved : ∀ disk, c.Moves disk → ∃ data', disk.dsk = .attached data' ∧
        data'.length = data.length ∧
        window data' place.start 1024 = window data place.start 1024 ∧
        (c.commandtr = cmdWriteSec → MissesSector place.start disk) := by
      intro disk moves
      cases moves with
      | idle => exact ⟨data, shown, rfl, rfl, fun command => holds.misses command drive⟩
      | read command read =>
        have buffered : c.dsk.Buffered := holds.sound.buffered c.dsksel
        obtain ⟨byte, offset, finished, same, further⟩ :=
          FDisk.read_ok buffered (holds.sound.inside.1 command)
        rw [same] at read
        cases read
        exact ⟨data, shown, rfl, rfl, fun command i low high =>
          holds.misses command drive i (Nat.le_trans further low) high⟩
      | write command written =>
        obtain ⟨data', image', size, same, misses⟩ := writeData_misses shown
          (holds.sound.inside.2 command) (holds.misses command drive) written
        exact ⟨data', image', size, same, fun _ => misses⟩
    obtain ⟨data', image', size, same, misses⟩ := moved after.dsk executed.dsk
    refine ⟨sound, ⟨data', selected ▸ image', size ▸ inside, same.trans held⟩, ?_⟩
    intro command _
    exact misses (executed.commandtr ▸ command)
  · obtain ⟨disk, -, disks⟩ := executed.disks
    refine ⟨sound, ⟨data, ?_, inside, held⟩, ?_⟩
    · rw [disks]
      show (Function.update c.disks c.dsksel disk place.drive).dsk = _
      rw [Function.update_of_ne (Ne.symm drive)]
      exact image
    · intro command same
      exact absurd (executed.dsksel.symm.trans same) drive

/-- An image stays when a disk is set that has it. -/
theorem image_setDsk {c : FD1793} {disk : FDisk} (image : disk.dsk = c.dsk.dsk) (drive : Fin 4) :
    ((c.setDsk disk).disks drive).dsk = (c.disks drive).dsk := by
  show (Function.update c.disks c.dsksel disk drive).dsk = _
  by_cases same : drive = c.dsksel
  · rw [same, Function.update_self]
    exact image
  · rw [Function.update_of_ne same]

theorem image_beginTransfer (c : FD1793) (commandtr : Nat) (flags : Byte) (drive : Fin 4) :
    ((c.beginTransfer commandtr flags).disks drive).dsk = (c.disks drive).dsk := by
  have sought := image_setDsk (c := c) (dsk_seek c.dsk c.track c.sector c.side)
  exact (image_setDsk (c := c.setDsk (c.dsk.seek c.track c.sector c.side))
    (dsk_beginSector _ _) drive).trans (sought drive)

/-- The images stay under a command. -/
theorem image_command (c : FD1793) (val : Byte) (drive : Fin 4) :
    ((c.command val).disks drive).dsk = (c.disks drive).dsk := by
  have seeks : ∀ track sector : Int, (c.dsk.seek track sector c.side).dsk = c.dsk.dsk :=
    fun track sector => dsk_seek c.dsk track sector c.side
  unfold command
  split
  · dsimp only
    split
    · exact image_setDsk (c := c) (seeks 0 1) drive
    · rfl
  · exact image_setDsk (c := c) (seeks c.data.toNat c.sector) drive
  · rfl
  · rfl
  · rfl
  · rfl
  · rfl
  · rfl
  · exact image_beginTransfer { c with intrq := 0, commandtr := 0 } _ _ drive
  · exact image_beginTransfer { c with intrq := 0, commandtr := 0 } _ _ drive
  · exact image_beginTransfer { c with intrq := 0, commandtr := 0 } _ _ drive
  · exact image_beginTransfer { c with intrq := 0, commandtr := 0 } _ _ drive
  · exact image_setDsk (c := c) (show c.dsk.readAddress.dsk = c.dsk.dsk from rfl) drive
  · rfl

/-- Only WRITE SECTOR puts a transfer in force that writes. -/
theorem isWriteSector_of_command {c : FD1793} {val : Byte}
    (command : (c.command val).commandtr = cmdWriteSec) : isWriteSector val = true := by
  have nibble : (val >>> 4).toNat = 10 ∨ (val >>> 4).toNat = 11 → isWriteSector val = true := by
    intro same
    unfold isWriteSector
    simpa using same
  unfold FD1793.command at command
  split at command
  · dsimp only at command
    split at command
    · cases command
    · cases command
  · cases command
  · cases command
  · cases command
  · cases command
  · cases command
  · cases command
  · cases command
  · cases command
  · cases command
  · exact nibble (.inl ‹_›)
  · exact nibble (.inr ‹_›)
  · cases command
  · cases command

theorem isSectorCommand_of_write {val : Byte} (writes : isWriteSector val = true) :
    isSectorCommand val = true := by
  unfold isWriteSector at writes
  unfold isSectorCommand
  simp only [Bool.or_eq_true, Bool.and_eq_true, decide_eq_true_eq] at writes ⊢
  omega

/-- A command that spares a sector leaves it alone. -/
theorem Holds.command {place : SectorPlace} {bytes : List Byte} {c : FD1793}
    (holds : c.Holds place bytes) (val : Byte) (spares : c.Spares place (.write 0 val)) :
    (c.command val).Holds place bytes := by
  obtain ⟨data, image, inside, held⟩ := holds.image
  refine ⟨sound_command holds.sound val (spares.heeds holds.sound), ⟨data, ?_, inside, held⟩, ?_⟩
  · rw [image_command]
    exact image
  · intro command drive
    have writes := isWriteSector_of_command command
    obtain ⟨other, names, fits, different⟩ := spares (isSectorCommand_of_write writes)
    have selected : c.dsksel = place.drive := by
      rw [command_write writes] at drive
      exact drive
    have shared : other.drive = place.drive := names.drive.symm.trans selected
    have shown : c.dsk.dsk = .attached data := by
      unfold dsk
      rw [selected]
      exact image
    have room : (other.start : Int) + 1024 ≤ wrapInt data.length := by
      unfold InImage at fits
      rw [shared, image] at fits
      exact fits
    have position := names.position room
    have at_ := (writing_command writes shown (by rw [position]; exact Int.natCast_nonneg _)
      (by rw [position]; exact room)).at_
    have away := SectorPlace.apart shared (different writes)
    have most := wrapInt_lt data.length
    intro i low high
    have start : (c.command val).dsk.position = (other.start : Int) := by
      rw [at_.position]
      show ((c.sectorPosition.toNat : Nat) : Int) = _
      rw [position, Int.toNat_natCast]
    rw [at_.length] at high
    rw [start, wrapInt_of_small (by omega) (by omega)]
    omega

/-- A drive that is selected when it may be leaves a sector alone. -/
theorem Holds.select {place : SectorPlace} {bytes : List Byte} {c : FD1793}
    (holds : c.Holds place bytes) (val : Byte) (spares : c.Spares place (.write 4 val)) :
    (c.select val).Holds place bytes := by
  refine ⟨?_, holds.image, ?_⟩
  · exact ⟨holds.sound.buffered, spares.heeds holds.sound⟩
  · intro command drive
    rcases spares with same | idle | settled
    · have disk : (c.select val).dsk = c.dsk := congrArg c.disks same
      rw [disk]
      exact holds.misses command (same.symm.trans drive)
    · exact absurd (idle.symm.trans command) (by decide)
    · intro i low high
      have short : (c.select val).dsk.readLength ≤ (c.select val).dsk.readOffset := settled
      omega

/-- A run that spares a sector succeeds, and leaves it alone. -/
theorem Holds.run {place : SectorPlace} {bytes : List Byte} {c : FD1793}
    (holds : c.Holds place bytes) {accesses : List FdcAccess}
    (spares : c.Along (Spares place) accesses) :
    ∃ got final, c.run accesses = .ok (got, final) ∧ final.Holds place bytes := by
  refine run_invariant (fun state access holds spares => ?_) accesses holds spares
  refine perform_invariant (fun _ holds => holds.sound) ?_
    (fun _ _ executed holds => holds.executed executed) holds ?_ ?_
  · intro state other disks dsksel commandtr holds
    have same : other.dsk = state.dsk := by
      unfold dsk
      rw [disks, dsksel]
    refine ⟨holds.sound.congr disks dsksel commandtr, disks ▸ holds.image, ?_⟩
    rw [commandtr, dsksel, same]
    exact holds.misses
  · rintro val rfl
    exact holds.command val spares
  · rintro val rfl
    exact holds.select val spares

/-! ### What is written is read -/

/-- A run that heeds the images leads from a controller as constructed to this one. -/
def Reached (c : FD1793) : Prop :=
  ∃ (images : Fin 4 → DiskImage) (nofdc : Bool) (accesses : List FdcAccess) (bytes : List Byte),
    ({ init (fun drive => FDisk.init (images drive)) with nofdc } : FD1793).Along Heeds accesses ∧
      ({ init (fun drive => FDisk.init (images drive)) with nofdc } : FD1793).run accesses =
        .ok (bytes, c)

theorem Reached.sound {c : FD1793} (reached : c.Reached) : c.Sound := by
  obtain ⟨images, nofdc, accesses, bytes, heeds, ran⟩ := reached
  have first : ({ init (fun drive => FDisk.init (images drive)) with nofdc } : FD1793).Sound :=
    (sound_init images).congr rfl rfl rfl
  obtain ⟨bytes', final, same, sound⟩ :=
    run_invariant (fun c access sound heeds => perform_sound sound heeds) accesses first heeds
  rw [ran] at same
  cases same
  exact sound

section Written

variable {c written : FD1793} {place : SectorPlace} {data bytes : List Byte} {nofdc : Bool}

/-- A sector that was written has no byte left. -/
theorem Writing.left
    (writing : Writing ⟨cmdWriteSec, nofdc, place.drive, c.disks, place.start⟩ data bytes written)
    (size : bytes.length = 1024) :
    (written.disks place.drive).readLength ≤ (written.disks place.drive).readOffset := by
  have at_ := writing.at_
  have selected : written.disks place.drive = written.dsk := by
    unfold dsk
    rw [at_.dsksel]
  rw [selected, at_.length, at_.offset, size]

/-- A sector that was written holds its bytes. -/
theorem Writing.holds (sound : c.Sound)
    (writing : Writing ⟨cmdWriteSec, nofdc, place.drive, c.disks, place.start⟩ data bytes written)
    (inside : place.start + 1024 ≤ data.length) (size : bytes.length = 1024) :
    written.Holds place bytes := by
  have at_ := writing.at_
  have selected : written.disks place.drive = written.dsk := by
    unfold dsk
    rw [at_.dsksel]
  have none := selected ▸ writing.left size
  have fits : place.start + bytes.length ≤ data.length := by
    rw [size]
    exact inside
  refine ⟨⟨fun drive => ?_, ?_, ?_⟩, ?_, ?_⟩
  · by_cases same : drive = place.drive
    · rw [same, selected]
      intro source
      rw [at_.source] at source
      cases source
    · rw [at_.others drive same]
      exact sound.buffered drive
  · intro command
    rw [at_.commandtr] at command
    rcases command with same | same
    · cases same
    · cases same
  · intro _ i low high
    omega
  · refine ⟨overwrite data place.start bytes, selected ▸ at_.image, at_.inside, ?_⟩
    have same := window_overwrite fits
    rw [size] at same
    exact same
  · intro _ _ i low high
    omega

/-- The other sectors stay as they were. -/
theorem Writing.sectorBytes
    (writing : Writing ⟨cmdWriteSec, nofdc, place.drive, c.disks, place.start⟩ data bytes written)
    (image : (c.disks place.drive).dsk = .attached data)
    (inside : place.start + 1024 ≤ data.length) (size : bytes.length = 1024) {other : SectorPlace}
    (different : other ≠ place) : written.sectorBytes other = c.sectorBytes other := by
  have at_ := writing.at_
  unfold FD1793.sectorBytes
  by_cases drive : other.drive = place.drive
  · have selected : written.disks place.drive = written.dsk := by
      unfold dsk
      rw [at_.dsksel]
    have away := SectorPlace.apart drive different
    rw [drive, selected, at_.image, image]
    exact window_overwrite_apart (by rw [size]; exact inside) (by rw [size]; exact away)
  · rw [at_.others other.drive drive]

end Written

/-- The first sector of side 0. -/
def firstSector : SectorPlace where
  drive := 0
  side := 0
  track := 0
  sector := 1
  side_lt := Nat.two_pos
  sector_pos := Nat.one_pos
  sector_le := by decide

/-- The accesses that write the first sector. -/
def writeFirst (bytes : List Byte) : List FdcAccess :=
  .write 4 4 :: .write 1 0 :: .write 2 1 :: .write 0 0xa0 :: bytes.map (FdcAccess.write 3)

theorem isSession_writeFirst (bytes : List Byte) :
    IsSession 4 0 1 0xa0 (bytes.map (FdcAccess.write 3)) (writeFirst bytes) := by
  refine ⟨_, rfl, ?_⟩
  rw [List.filter_eq_self.mpr]
  intro access member
  simp only [List.mem_cons, List.mem_map] at member
  rcases member with rfl | rfl | rfl | ⟨value, -, rfl⟩
  · rfl
  · rfl
  · rfl
  · rfl

/-- A byte beyond what an image takes is not written. -/
theorem exec_outside {c : FD1793} {data : List Byte} (command : c.commandtr = cmdWriteSec)
    (drq : c.drq = false) (image : c.dsk.dsk = .attached data)
    (left : c.dsk.readOffset < c.dsk.readLength) (small : wrapInt data.length < 0) :
    c.exec = .error .boundary := by
  have outside : c.dsk.writeData c.data = .error .boundary := by
    unfold FDisk.writeData DiskImage.set
    rw [if_pos left, image]
    dsimp only
    rw [if_pos (by omega)]
    rfl
  unfold exec
  rw [command, if_neg (by decide), if_pos rfl, if_neg (by rw [drq]; decide), outside]
  rfl

/-- A sector of an image that takes no byte is not written. -/
theorem command_outside {c : FD1793} {val : Byte} {data : List Byte}
    (writes : isWriteSector val = true) (image : c.dsk.dsk = .attached data)
    (held : 0 < data.length) (small : wrapInt data.length < 0) (value : Byte) :
    (c.command val).perform (.write 3 value) = .error .boundary := by
  have ready : c.dsk.isReady = true := by
    unfold FDisk.isReady
    rw [image]
    exact decide_eq_true held
  let base : FD1793 :=
    { c.command val with data := value, status := (c.command val).status &&& ~~~stDrq }
  have begun : base.dsk = (c.dsk.seek c.track c.sector c.side).beginSector c.sector := by
    show (c.command val).dsk = _
    rw [command_write writes]
    exact dsk_beginTransfer { c with intrq := 0, commandtr := 0 } cmdWriteSec (stBusy ||| stDrq)
  rw [seek_beginSector ready] at begun
  have command : base.commandtr = cmdWriteSec := by
    show (c.command val).commandtr = cmdWriteSec
    rw [command_write writes]
    rfl
  have fault : base.exec = .error .boundary := by
    refine exec_outside command (drq_clear _) ?_ ?_ small
    · rw [begun]
      exact image
    · rw [begun]
      exact (by decide : 0 < 1024)
  show base.exec.map _ = _
  rw [fault]
  rfl

end FD1793

end VectorDebugger
