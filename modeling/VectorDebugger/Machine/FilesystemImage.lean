import Mathlib.Data.List.Nodup
import VectorDebugger.Library.Cells
import VectorDebugger.Machine.CpmNames

/-!
# A file system in an image

`FilesystemImage` keeps files as CP/M does: a directory of 128 entries lies in the first two blocks,
and an entry names up to eight blocks of 2 KB. A longer file has an entry for every 16 KB. The
allocator looks for free blocks in a bitmap, but decides with a counter whether there are enough.
-/

namespace VectorDebugger

/-- `MDHeaderData`. -/
structure MDHeader where
  /-- `User`. -/
  user : Byte
  /-- `Name`. -/
  name : Fin 8 → Byte
  /-- `Ext`. -/
  ext : Fin 3 → Byte
  /-- `Extent`. -/
  extent : Byte
  /-- `Unknown1`. -/
  unknown1 : Byte
  /-- `Unknown2`. -/
  unknown2 : Byte
  /-- `Records`. -/
  records : Byte
  /-- `FAT`. -/
  fat : Fin 8 → Word

namespace MDHeader

/-- The bytes of the packed structure. -/
def toBytes (h : MDHeader) : List Byte :=
  h.user :: List.ofFn h.name ++ List.ofFn h.ext ++
    [h.extent, h.unknown1, h.unknown2, h.records] ++
    (List.ofFn h.fat).flatMap fun slot => [slot.low, slot.high]

/-- The structure that lies on some bytes. -/
def ofBytes (bytes : Nat → Byte) : MDHeader where
  user := bytes 0
  name i := bytes (1 + i)
  ext i := bytes (9 + i)
  extent := bytes 12
  unknown1 := bytes 13
  unknown2 := bytes 14
  records := bytes 15
  fat i := wordOf (bytes (16 + 2 * i)) (bytes (17 + 2 * i))

/-- `std::isspace` of the C locale. -/
def isspace (c : Byte) : Bool := c = 0x20 || (0x09 ≤ c && c ≤ 0x0d)

/-- `util::rtrim_copy`. -/
def rtrim (s : List Byte) : List Byte := (s.reverse.dropWhile isspace).reverse

/-- `MDHeader::name` and `MDHeader::ext`, by which an entry is found. -/
def names (h : MDHeader) : List Byte × List Byte :=
  (rtrim (List.ofFn h.name), rtrim (List.ofFn h.ext))

/-- `MDHeader::init_with_filename`, on 32 bytes. -/
def initWithFilename (stem ext : FilesystemImage.Name) : MDHeader where
  user := 0
  name i := (stem[i.val]?).elim 0x20 FilesystemImage.toupper
  ext i := (ext[i.val]?).elim 0x20 FilesystemImage.toupper
  extent := 0
  unknown1 := 0
  unknown2 := 0
  records := 0
  fat _ := 0

/-- An entry that is in use. -/
def live (h : MDHeader) : Bool := decide (h.user < 0x10)

end MDHeader

/-- `FilesystemImage`. -/
structure FilesystemImage where
  /-- `bytes`, whatever lies behind `size`. -/
  bytes : Nat → Byte
  /-- `bytes.size()`. -/
  size : Nat
  /-- `taken_names`. -/
  takenNames : Finset FilesystemImage.Name

namespace FilesystemImage

/-- `FilesystemImage(int)`. -/
def blank (size : Nat) : FilesystemImage := { bytes := fun _ => 0xe5, size, takenNames := ∅ }

/-! ## Sectors -/

/-- `cluster_to_ths`. -/
def clusterToThs (cluster : Nat) : Nat × Nat × Nat :=
  let track := 8 + cluster / 5
  (track >>> 1, track % 2, 1 + cluster % 5)

/-- `map_sector`; `none` for `bytes.end()`. -/
def mapSector (fs : FilesystemImage) (ths : Nat × Nat × Nat) : Option Nat :=
  let offset := ths.1 * 1024 * 10 + ths.2.1 * 1024 * (10 / 2) + (ths.2.2 - 1) * 1024
  if offset + 1024 ≥ fs.size then none else some offset

/-! ## The directory -/

/-- The positions of `dir_iterator` from `begin` to `end`. -/
def dirPositions : List Nat := (List.range 128).map fun k => 0xa000 + 32 * k

/-- `*dir_iterator`. -/
def header (fs : FilesystemImage) (pos : Nat) : MDHeader :=
  MDHeader.ofBytes fun k => fs.bytes (pos + k)

/-- `MDHeader::overwrite`. -/
def overwrite (fs : FilesystemImage) (pos : Nat) (h : MDHeader) : FilesystemImage :=
  { fs with bytes := Cells.write fs.bytes pos h.toBytes }

/-- What `dir_iterator` goes through. -/
def directory (fs : FilesystemImage) : List MDHeader := dirPositions.map fs.header

/-- The `FAT` of an entry. -/
def slots (h : MDHeader) : List Nat := (List.finRange 8).map fun i => (h.fat i).toNat

/-- What the entries in use have in their `FAT`. -/
def fatEntries (headers : List MDHeader) : List Nat := (headers.filter MDHeader.live).flatMap slots

/-! ## Saving -/

/-- `maxclust` of an image that has room for the system tracks. -/
def maxclust (fs : FilesystemImage) : Nat := (fs.size - 10 * 1024 * 6) / 2048

/-- `build_available_chain`; `none` where it throws or writes behind `used`. The difference of the
counter is that of a `size_t`. -/
def buildAvailableChain (fs : FilesystemImage) (length : Nat) : Option (List Nat) :=
  if fs.size < 10 * 1024 * 6 then none
  else if fs.maxclust = 0 then some []
  else
    let used := fatEntries fs.directory
    if used.any fun c => decide (fs.maxclust ≤ c) then none
    else if (fs.maxclust + 2 ^ 64 - used.length % 2 ^ 32) % 2 ^ 64 < length then some []
    else
      let free := (List.range fs.maxclust).filter fun c => decide (2 ≤ c) && !used.contains c
      some (if length = 0 then free else free.take length)

/-- The loop that fills `FAT`, with so many slots to go: the slots, what is left of the chain, and
`remaining`. An index behind the chain is `none`. -/
def fillFat : Nat → List Nat → Nat → Option (List Nat × List Nat × Nat)
  | 0, chain, remaining => some ([], chain, remaining)
  | count + 1, chain, remaining =>
    if remaining > 0 then
      match chain with
      | [] => none
      | c :: chain => (fillFat count chain (remaining - 2048)).map fun filled =>
          (c :: filled.1, filled.2)
    else (fillFat count chain remaining).map fun filled => (0 :: filled.1, filled.2)

/-- `proto` for an extent. -/
def proto (stem ext : Name) (extent remaining : Nat) (fat : List Nat) : MDHeader :=
  { MDHeader.initWithFilename stem ext with
    records := BitVec.ofNat 8 (min 0x80 ((remaining + 127) / 128))
    extent := BitVec.ofNat 8 extent
    fat := fun i => BitVec.ofNat 16 (fat.getD i 0) }

/-- The loop of `allocate_file` over the directory. -/
def allocateLoop (stem ext : Name) :
    List Nat → FilesystemImage → Nat → List Nat → Nat → Option FilesystemImage
  | [], fs, _, _, _ => some fs
  | pos :: positions, fs, extent, chain, remaining =>
    if remaining = 0 then some fs
    else if (fs.header pos).live then
      allocateLoop stem ext positions fs extent chain remaining
    else do
      let filled ← fillFat 8 chain remaining
      allocateLoop stem ext positions (fs.overwrite pos (proto stem ext extent remaining filled.1))
        (extent + 1) filled.2.1 filled.2.2

/-- One sector of `save_file`: what is left of the content; `none` outside the image. -/
def writeSector (fs : FilesystemImage) (cluster : Nat) (content : List Byte) :
    Option (FilesystemImage × List Byte) :=
  (fs.mapSector (clusterToThs cluster)).map fun pos =>
    let data := content.take 1024
    ({ fs with bytes := Cells.write fs.bytes pos (data ++ List.replicate (1024 - data.length) 0xe5) },
      content.drop 1024)

/-- The two sectors of a block; a `break` ends them. -/
def writeBlock (fs : FilesystemImage) (c : Nat) (content : List Byte) :
    FilesystemImage × List Byte :=
  match fs.writeSector (c * 2) content with
  | none => (fs, content)
  | some (fs, content) => (fs.writeSector (c * 2 + 1) content).getD (fs, content)

/-- The loop of `save_file` over the chain. -/
def writeChain : List Nat → FilesystemImage → List Byte → FilesystemImage
  | [], fs, _ => fs
  | c :: chain, fs, content =>
    let written := fs.writeBlock c content
    if written.2 = [] then written.1 else writeChain chain written.1 written.2

/-- How `save_file` ends. -/
inductive Saving
  /-- An exception, or an access outside an array. -/
  | fault
  /-- The names have not been tried to an end. -/
  | trying
  /-- `{false, ""}`. -/
  | refused
  /-- `{true, stem + "." + ext}`, with the image after it. -/
  | saved (stem ext : Name) (fs : FilesystemImage)

/-- `save_file`. -/
def saveFile (fs : FilesystemImage) (filename : Name) (content : List Byte) (fuel : Nat) : Saving :=
  match fs.buildAvailableChain ((content.length + 2047) / 2048) with
  | none => .fault
  | some [] => .refused
  | some (c :: chain) =>
    match uniqueCpmFilename fs.takenNames filename fuel with
    | .thrown => .fault
    | .trying => .trying
    | .named stem ext =>
      let taken := { fs with takenNames := insert (joined stem ext) fs.takenNames }
      match allocateLoop stem ext dirPositions taken 0 (c :: chain) content.length with
      | none => .fault
      | some fs => .saved stem ext (fs.writeChain (c :: chain) content)

/-! ## Reading -/

/-- The loop of `load_dirent`: the chain and the size. -/
def loadLoop (names : List Byte × List Byte) : List MDHeader → List Nat → List Nat × Nat
  | [], chain => (chain, 0)
  | h :: headers, chain =>
    if h.live && h.names = names then
      let chain := chain ++ slots h
      if h.records ≠ 0x80 then (chain, h.extent.toNat * 2048 * 8 + h.records.toNat * 128)
      else loadLoop names headers chain
    else loadLoop names headers chain

/-- `load_dirent`. -/
def loadDirent (fs : FilesystemImage) (names : List Byte × List Byte) : List Nat × Nat :=
  loadLoop names fs.directory []

/-- `find_file`: the chain and the size of what it finds. -/
def findFile (fs : FilesystemImage) (filename : Name) : List Nat × Nat :=
  let path := splitPath filename
  let proto := MDHeader.initWithFilename path.1 (path.2.drop 1)
  if fs.directory.any fun h => decide (h.user = proto.user) && decide (h.names = proto.names) then
    fs.loadDirent proto.names
  else ([], 0)

/-- The sectors of a block in `read_bytes`, as far as `remainder` goes; a `break` ends them. -/
def readBlock (fs : FilesystemImage) (c remainder : Nat) : List Byte × Nat :=
  match fs.mapSector (clusterToThs (c * 2)) with
  | none => ([], remainder)
  | some first =>
    let front := Cells.window fs.bytes first (min 1024 remainder)
    let remainder := remainder - min 1024 remainder
    match fs.mapSector (clusterToThs (c * 2 + 1)) with
    | none => (front, remainder)
    | some second =>
      (front ++ Cells.window fs.bytes second (min 1024 remainder), remainder - min 1024 remainder)

/-- The loop of `read_bytes` over the chain. -/
def readChain (fs : FilesystemImage) : List Nat → Nat → List Byte
  | [], _ => []
  | c :: chain, remainder =>
    if c * 2 < 2 then []
    else
      let read := fs.readBlock c remainder
      read.1 ++ fs.readChain chain read.2

/-- `read_bytes`: what is not read stays zero. -/
def readBytes (fs : FilesystemImage) (dirent : List Nat × Nat) : List Byte :=
  let read := fs.readChain dirent.1 dirent.2
  read ++ List.replicate (dirent.2 - read.length) 0

/-- `read_file`. -/
def readFile (fs : FilesystemImage) (filename : Name) : List Byte :=
  let dirent := fs.findFile filename
  if dirent.2 ≠ 0 then fs.readBytes dirent else []

/-! ## Entries on bytes -/

theorem wordOf_halves (slot : Word) : wordOf slot.low slot.high = slot := by
  unfold wordOf Word.low Word.high
  apply BitVec.eq_of_getLsbD_eq
  intro i inside
  rw [BitVec.getLsbD_append, BitVec.getLsbD_setWidth, BitVec.getLsbD_setWidth,
    BitVec.getLsbD_ushiftRight]
  by_cases low : i < 8
  · simp [low]
  · simp [low, show i - 8 < 8 by omega, show 8 + (i - 8) = i by omega]

/-- An entry that was written is read. -/
theorem header_overwrite (fs : FilesystemImage) (pos : Nat) (h : MDHeader) :
    (fs.overwrite pos h).header pos = h := by
  have read : ∀ k (inside : k < 32), (fs.overwrite pos h).bytes (pos + k) = h.toBytes[k] :=
    fun k inside => Cells.write_inside fs.bytes pos inside
  have name : ∀ i : Fin 8, (fs.overwrite pos h).bytes (pos + (1 + i)) = h.name i := by
    intro i
    rw [read (1 + i) (by omega)]
    fin_cases i <;> rfl
  have ext : ∀ i : Fin 3, (fs.overwrite pos h).bytes (pos + (9 + i)) = h.ext i := by
    intro i
    rw [read (9 + i) (by omega)]
    fin_cases i <;> rfl
  have low : ∀ i : Fin 8, (fs.overwrite pos h).bytes (pos + (16 + 2 * i)) = (h.fat i).low := by
    intro i
    rw [read (16 + 2 * i) (by omega)]
    fin_cases i <;> rfl
  have high : ∀ i : Fin 8, (fs.overwrite pos h).bytes (pos + (17 + 2 * i)) = (h.fat i).high := by
    intro i
    rw [read (17 + 2 * i) (by omega)]
    fin_cases i <;> rfl
  have fat : ((fs.overwrite pos h).header pos).fat = h.fat := by
    funext i
    show wordOf ((fs.overwrite pos h).bytes _) ((fs.overwrite pos h).bytes _) = h.fat i
    rw [low, high, wordOf_halves]
  have names := And.intro (funext name) (funext ext)
  obtain ⟨user, nameOf, extOf, extent, unknown1, unknown2, records, fatOf⟩ := h
  unfold header MDHeader.ofBytes at fat ⊢
  rw [MDHeader.mk.injEq]
  exact ⟨read 0 (by decide), names.1, names.2, read 12 (by decide), read 13 (by decide),
    read 14 (by decide), read 15 (by decide), fat⟩

/-- An entry depends on its own bytes. -/
theorem header_congr {fs other : FilesystemImage} {pos : Nat}
    (same : ∀ i, pos ≤ i → i < pos + 32 → fs.bytes i = other.bytes i) :
    fs.header pos = other.header pos := by
  have byte : ∀ k < 32, fs.bytes (pos + k) = other.bytes (pos + k) :=
    fun k inside => same _ (Nat.le_add_right pos k) (Nat.add_lt_add_left inside pos)
  unfold header MDHeader.ofBytes
  rw [MDHeader.mk.injEq]
  refine ⟨byte 0 (by decide), funext fun i => byte _ (by omega), funext fun i => byte _ (by omega),
    byte 12 (by decide), byte 13 (by decide), byte 14 (by decide), byte 15 (by decide),
    funext fun i => ?_⟩
  exact congrArg₂ wordOf (byte (16 + 2 * i) (by omega)) (byte (17 + 2 * i) (by omega))

theorem overwrite_outside (fs : FilesystemImage) {pos i : Nat} (h : MDHeader)
    (outside : i < pos ∨ pos + 32 ≤ i) : (fs.overwrite pos h).bytes i = fs.bytes i :=
  Cells.write_outside fs.bytes outside

end FilesystemImage

end VectorDebugger
