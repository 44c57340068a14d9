import VectorDebugger.Library.Transition
import VectorDebugger.Machine.FileExtents

/-!
# Saved files

What `save_file` writes `read_file` reads, after any files that are saved later: a new file takes
blocks that no entry names, and entries that are free. A file whose last entry is full is lost,
because `load_dirent` takes the size from the first entry that is not full.
-/

namespace VectorDebugger.FilesystemImage

/-! ## Blocks -/

/-- Where a block lies. -/
def blockAt (c : Nat) : Nat := 0xa000 + 2048 * c

/-- A byte of a block. -/
abbrev InBlock (c i : Nat) : Prop := blockAt c ≤ i ∧ i < blockAt c + 2048

/-- The sectors lie one behind another. -/
theorem mapSector_eq (fs : FilesystemImage) (cluster : Nat) :
    fs.mapSector (clusterToThs cluster) =
      if 0xa000 + 1024 * cluster + 1024 ≥ fs.size then none
      else some (0xa000 + 1024 * cluster) := by
  have offset : (8 + cluster / 5) >>> 1 * 1024 * 10 + (8 + cluster / 5) % 2 * 1024 * (10 / 2) +
      (1 + cluster % 5 - 1) * 1024 = 0xa000 + 1024 * cluster := by
    rw [Nat.shiftRight_eq_div_pow]
    omega
  unfold mapSector clusterToThs
  simp only [offset]

section Block

variable {fs : FilesystemImage} {c : Nat}

theorem mapSector_first (inside : c < fs.maxclust) :
    fs.mapSector (clusterToThs (c * 2)) = some (blockAt c) := by
  unfold maxclust at inside
  rw [mapSector_eq, if_neg (by omega)]
  unfold blockAt
  exact congrArg some (by omega)

theorem mapSector_second (inside : c < fs.maxclust) :
    fs.mapSector (clusterToThs (c * 2 + 1)) = some (blockAt c + 1024) := by
  unfold maxclust at inside
  rw [mapSector_eq, if_neg (by omega)]
  unfold blockAt
  exact congrArg some (by omega)

/-- What a sector gets. -/
def sector (content : List Byte) : List Byte :=
  content.take 1024 ++ List.replicate (1024 - (content.take 1024).length) 0xe5

theorem length_sector (content : List Byte) : (sector content).length = 1024 := by
  unfold sector
  rw [List.length_append, List.length_replicate, List.length_take]
  omega

theorem sector_append (content : List Byte) :
    sector content ++ sector (content.drop 1024) =
      content.take 2048 ++ List.replicate (2048 - content.length) 0xe5 := by
  unfold sector
  rw [List.length_take, List.length_take, List.length_drop]
  rcases Nat.le_total content.length 1024 with short | long
  · have count : 1024 - min 1024 content.length + (1024 - min 1024 (content.length - 1024)) =
        2048 - content.length := by omega
    rw [List.drop_eq_nil_of_le short, List.take_nil, List.nil_append,
      List.take_of_length_le short, List.take_of_length_le (by omega), List.append_assoc,
      List.replicate_append_replicate, count]
  · have count : 1024 - min 1024 (content.length - 1024) = 2048 - content.length := by omega
    rw [Nat.min_eq_left long, Nat.sub_self, List.replicate_zero, List.append_nil,
      ← List.append_assoc, ← List.take_add, count]

/-- A block gets the next 2 KB of the content, and nothing else changes. -/
theorem writeBlock_spec (content : List Byte) (inside : c < fs.maxclust) :
    (fs.writeBlock c content).2 = content.drop 2048 ∧
      Cells.window (fs.writeBlock c content).1.bytes (blockAt c) 2048 =
        content.take 2048 ++ List.replicate (2048 - content.length) 0xe5 ∧
      SameBut (InBlock c) fs (fs.writeBlock c content).1 := by
  obtain ⟨front, frontEq⟩ : ∃ front : FilesystemImage,
      front = { fs with bytes := Cells.write fs.bytes (blockAt c) (sector content) } := ⟨_, rfl⟩
  obtain ⟨whole, wholeEq⟩ : ∃ whole : FilesystemImage, whole =
      { front with
        bytes := Cells.write front.bytes (blockAt c + 1024) (sector (content.drop 1024)) } :=
    ⟨_, rfl⟩
  have first : fs.writeSector (c * 2) content = some (front, content.drop 1024) := by
    unfold writeSector
    rw [mapSector_first inside, frontEq]
    rfl
  have second : front.writeSector (c * 2 + 1) (content.drop 1024) =
      some (whole, content.drop 2048) := by
    have inside' : c < front.maxclust := by
      rw [frontEq]
      exact inside
    unfold writeSector
    rw [mapSector_second inside', wholeEq, Option.map_some, List.drop_drop]
    rfl
  have written : fs.writeBlock c content = (whole, content.drop 2048) := by
    unfold writeBlock
    simp only [first, second, Option.getD_some]
  rw [written]
  have frontWindow : Cells.window whole.bytes (blockAt c) 1024 = sector content := by
    have kept : Cells.window whole.bytes (blockAt c) 1024 =
        Cells.window front.bytes (blockAt c) 1024 := Cells.window_congr fun i _ before => by
      rw [wholeEq]
      exact Cells.write_before _ _ before
    have here := Cells.window_write fs.bytes (blockAt c) (sector content)
    rw [length_sector] at here
    rw [kept, frontEq]
    exact here
  have backWindow : Cells.window whole.bytes (blockAt c + 1024) 1024 =
      sector (content.drop 1024) := by
    have here := Cells.window_write front.bytes (blockAt c + 1024) (sector (content.drop 1024))
    rw [length_sector] at here
    rw [wholeEq]
    exact here
  refine ⟨rfl, ?_, fun i outside => ?_, by rw [wholeEq, frontEq], by rw [wholeEq, frontEq]⟩
  · rw [show 2048 = 1024 + 1024 from rfl, Cells.window_add, frontWindow, backWindow]
    exact sector_append content
  · have apart : i < blockAt c ∨ blockAt c + 2048 ≤ i := by
      unfold InBlock at outside
      omega
    have back : whole.bytes i = front.bytes i := by
      rw [wholeEq]
      exact Cells.write_outside _ (by rw [length_sector]; omega)
    have first : front.bytes i = fs.bytes i := by
      rw [frontEq]
      exact Cells.write_outside _ (by rw [length_sector]; omega)
    exact back.trans first

/-- A block is read as far as the remainder goes. -/
theorem readBlock_spec (remainder : Nat) (inside : c < fs.maxclust) :
    fs.readBlock c remainder =
      ((Cells.window fs.bytes (blockAt c) 2048).take remainder, remainder - 2048) := by
  unfold readBlock
  simp only [mapSector_first inside, mapSector_second inside, Cells.take_window]
  rcases Nat.le_total 1024 remainder with long | short
  · rw [Nat.min_eq_left long, ← Cells.window_add, Prod.mk.injEq]
    exact ⟨congrArg (Cells.window fs.bytes (blockAt c)) (by omega), by omega⟩
  · rw [Nat.min_eq_right short, Nat.sub_self, Nat.min_zero, Prod.mk.injEq]
    refine ⟨?_, by omega⟩
    rw [Nat.min_eq_left (by omega)]
    exact List.append_nil _

end Block

/-! ## Chains -/

/-- The bytes of some blocks. -/
def chainBytes (fs : FilesystemImage) (chain : List Nat) : List Byte :=
  chain.flatMap fun c => Cells.window fs.bytes (blockAt c) 2048

/-- A byte of one of some blocks. -/
abbrev InChain (chain : List Nat) (i : Nat) : Prop := ∃ c ∈ chain, InBlock c i

theorem maxclust_congr {fs fs' : FilesystemImage} (same : fs'.size = fs.size) :
    fs'.maxclust = fs.maxclust := by
  unfold maxclust
  rw [same]

theorem eq_of_inBlock {c d i : Nat} (here : InBlock c i) (there : InBlock d i) : c = d := by
  unfold InBlock blockAt at here there
  omega

/-- Only the blocks of the chain are written. -/
theorem writeChain_same (chain : List Nat) : ∀ {fs : FilesystemImage} {content : List Byte},
    (∀ c ∈ chain, c < fs.maxclust) → SameBut (InChain chain) fs (writeChain chain fs content) := by
  induction chain with
  | nil => exact fun _ => ⟨fun _ _ => rfl, rfl, rfl⟩
  | cons c chain inductionHypothesis =>
    intro fs content inside
    obtain ⟨-, -, same⟩ := writeBlock_spec content (inside c List.mem_cons_self)
    have here := same.weaken fun i in' => (⟨c, List.mem_cons_self, in'⟩ : InChain (c :: chain) i)
    unfold writeChain
    simp only
    by_cases spent : (fs.writeBlock c content).2 = []
    · rw [if_pos spent]
      exact here
    · rw [if_neg spent]
      have rest := @inductionHypothesis (fs.writeBlock c content).1 (fs.writeBlock c content).2
        fun d mem => (maxclust_congr same.size).symm ▸ inside d (List.mem_cons_of_mem _ mem)
      exact here.trans (rest.weaken fun i ⟨d, mem, in'⟩ => ⟨d, List.mem_cons_of_mem _ mem, in'⟩)

/-- A chain of the right length holds the content, filled up. -/
theorem writeChain_bytes (chain : List Nat) : ∀ {fs : FilesystemImage} {content : List Byte},
    chain.Nodup → (∀ c ∈ chain, c < fs.maxclust) → blocksOf content.length = chain.length →
      content ≠ [] → (writeChain chain fs content).chainBytes chain =
        content ++ List.replicate (2048 * chain.length - content.length) 0xe5 := by
  induction chain with
  | nil =>
    intro fs content _ _ length more
    have some' := List.length_pos_iff.mpr more
    rw [List.length_nil] at length
    unfold blocksOf at length
    omega
  | cons c chain inductionHypothesis =>
    intro fs content distinct inside length more
    obtain ⟨notMem, distinctRest⟩ := List.nodup_cons.mp distinct
    obtain ⟨rest, window, same⟩ := writeBlock_spec content (inside c List.mem_cons_self)
    rw [List.length_cons] at length
    unfold blocksOf at length
    unfold writeChain chainBytes
    simp only
    rw [List.flatMap_cons, List.length_cons]
    by_cases spent : (fs.writeBlock c content).2 = []
    · rw [if_pos spent, window]
      have short : content.length ≤ 2048 := by
        rw [rest] at spent
        exact List.drop_eq_nil_iff.mp spent
      obtain rfl : chain = [] := List.length_eq_zero_iff.mp (by omega)
      rw [List.take_of_length_le short]
      exact List.append_nil _
    · rw [if_neg spent]
      have inside' : ∀ d ∈ chain, d < (fs.writeBlock c content).1.maxclust := fun d mem =>
        (maxclust_congr same.size).symm ▸ inside d (List.mem_cons_of_mem _ mem)
      have later := @writeChain_same chain (fs.writeBlock c content).1
        (fs.writeBlock c content).2 inside'
      have kept : Cells.window (writeChain chain (fs.writeBlock c content).1
          (fs.writeBlock c content).2).bytes (blockAt c) 2048 =
          Cells.window (fs.writeBlock c content).1.bytes (blockAt c) 2048 :=
        Cells.window_congr fun i from_ below => later.bytes i fun ⟨d, mem, in'⟩ =>
          notMem (eq_of_inBlock ⟨from_, below⟩ in' ▸ mem)
      have long : 2048 < content.length := by
        rw [rest] at spent
        exact Nat.lt_of_not_le fun short => spent (List.drop_eq_nil_of_le short)
      have restLength : (fs.writeBlock c content).2.length = content.length - 2048 := by
        rw [rest, List.length_drop]
      have filled := @inductionHypothesis (fs.writeBlock c content).1 (fs.writeBlock c content).2
        distinctRest inside' (by rw [restLength]; unfold blocksOf; omega) spent
      unfold chainBytes at filled
      have count : 2048 * chain.length - (content.length - 2048) =
          2048 * (chain.length + 1) - content.length := by omega
      rw [kept, window, filled, restLength, rest, Nat.sub_eq_zero_of_le (by omega),
        List.replicate_zero, List.append_nil, ← List.append_assoc, List.take_append_drop, count]

/-- The chain of an entry is read as far as the remainder goes; its zeros end it. -/
theorem readChain_spec {fs : FilesystemImage} (zeros : Nat) (chain : List Nat) :
    (∀ c ∈ chain, c ≠ 0 ∧ c < fs.maxclust) → ∀ remainder,
      fs.readChain (chain ++ List.replicate zeros 0) remainder =
        (fs.chainBytes chain).take remainder := by
  induction chain with
  | nil =>
    intro _ remainder
    have ended : fs.readChain (List.replicate zeros 0) remainder = [] := by
      cases zeros with
      | zero => rfl
      | succ zeros =>
        rw [List.replicate_succ]
        unfold readChain
        exact if_pos (by decide)
    rw [List.nil_append, ended]
    exact List.take_nil.symm
  | cons c chain inductionHypothesis =>
    intro inside remainder
    obtain ⟨nonzero, below⟩ := inside c List.mem_cons_self
    have rest := inductionHypothesis fun d mem => inside d (List.mem_cons_of_mem _ mem)
    rw [List.cons_append]
    unfold readChain chainBytes
    rw [if_neg (by omega), readBlock_spec remainder below, List.flatMap_cons, List.take_append,
      Cells.length_window]
    simp only
    rw [rest]
    rfl

/-- What is read depends on the blocks of the chain. -/
theorem readChain_congr {fs fs' : FilesystemImage} (size : fs'.size = fs.size)
    (chain : List Nat) : (∀ c ∈ chain, c ≠ 0 → c < fs.maxclust ∧
      ∀ i, InBlock c i → fs'.bytes i = fs.bytes i) → ∀ remainder,
      fs'.readChain chain remainder = fs.readChain chain remainder := by
  induction chain with
  | nil => exact fun _ _ => rfl
  | cons c chain inductionHypothesis =>
    intro same remainder
    unfold readChain
    by_cases zero : c * 2 < 2
    · rw [if_pos zero, if_pos zero]
    · obtain ⟨inside, bytes⟩ := same c List.mem_cons_self (by omega)
      have window : Cells.window fs'.bytes (blockAt c) 2048 =
          Cells.window fs.bytes (blockAt c) 2048 :=
        Cells.window_congr fun i from_ below => bytes i ⟨from_, below⟩
      rw [if_neg zero, if_neg zero, readBlock_spec remainder inside,
        readBlock_spec remainder ((maxclust_congr size).symm ▸ inside), window]
      simp only
      rw [inductionHypothesis fun d mem => same d (List.mem_cons_of_mem _ mem)]

/-! ## Names -/

/-- No separator of a path. -/
abbrev Separated (name : Name) : Prop := ∀ c ∈ name, c ≠ 0x2f ∧ c ≠ 0x5c

theorem separated_fileName (path : Name) : Separated (fileName path) := by
  intro c mem
  unfold fileName at mem
  have kind := List.mem_takeWhile_imp (List.mem_reverse.mp mem)
  simp only [Bool.and_eq_true, bne_iff_ne] at kind
  exact kind

theorem fileName_of_separated {path : Name} (none : Separated path) : fileName path = path := by
  unfold fileName
  rw [List.takeWhile_eq_self_iff.mpr fun c mem => ?_, List.reverse_reverse]
  have kind := none c (List.mem_reverse.mp mem)
  simp only [Bool.and_eq_true, bne_iff_ne]
  exact kind

/-- What is no letter does not come from one. -/
theorem toupper_eq {c d : Byte} (same : toupper c = d) (noLetter : d < 0x41 ∨ 0x5a < d) :
    c = d := by
  unfold toupper at same
  split at same
  case isTrue letter =>
    rw [← same] at noLetter
    bv_omega
  case isFalse => exact same

theorem separated_map_toupper {name : Name} (none : Separated name) :
    Separated (name.map toupper) := by
  intro c mem
  obtain ⟨d, listed, rfl⟩ := List.mem_map.mp mem
  have kind := none d listed
  refine ⟨fun slash => ?_, fun slash => ?_⟩
  · exact kind.1 (toupper_eq slash (Or.inl (by decide)))
  · exact kind.2 (toupper_eq slash (Or.inr (by decide)))

theorem Separated.take {name : Name} (none : Separated name) (count : Nat) :
    Separated (name.take count) :=
  fun c mem => none c (List.mem_of_mem_take mem)

theorem separated_decimal (n : Nat) : Separated (decimal n) := by
  intro c mem
  unfold decimal at mem
  obtain ⟨digit, listed, rfl⟩ := List.mem_map.mp mem
  have small := Nat.digits_lt_base (show 1 < 10 by decide) (List.mem_reverse.mp listed)
  refine ⟨fun slash => ?_, fun slash => ?_⟩
  · have value := congrArg BitVec.toNat slash
    rw [BitVec.toNat_ofNat, show (0x2f : Byte).toNat = 47 from rfl] at value
    omega
  · have value := congrArg BitVec.toNat slash
    rw [BitVec.toNat_ofNat, show (0x5c : Byte).toNat = 92 from rfl] at value
    omega

theorem separated_candidate {stem : Name} (none : Separated stem) (n : Nat) :
    Separated (candidate stem n) := by
  induction n with
  | zero => exact none
  | succ n inductionHypothesis =>
    intro c mem
    rcases List.mem_append.mp mem with front | number
    · exact inductionHypothesis.take _ c front
    · rcases List.mem_cons.mp number with rfl | digit
      · decide
      · exact separated_decimal _ c digit

/-- A name that was given has no separator, and no dot in its extension. -/
theorem separated_of_named {taken : Finset Name} {filename stem ext : Name} {fuel : Nat}
    (named : uniqueCpmFilename taken filename fuel = .named stem ext) :
    Separated stem ∧ Separated ext ∧ 0x2e ∉ ext := by
  obtain ⟨cut, n, -, -, rfl⟩ := uniqueCpmFilename_eq_named_iff.mp named
  have whole := separated_fileName filename
  have dotted : 0x2e ∈ fileName filename := by
    by_contra none
    rw [cpmExt_of_notMem none] at cut
    cases cut
  have stemParts : (splitPath filename).1 =
      (fileName filename).take ((fileName filename).length -
        (afterDot (fileName filename)).length - 1) := by
    unfold splitPath
    simp only [List.contains_iff_mem.mpr dotted, if_true]
  have extParts : Separated (afterDot (fileName filename)) := fun c mem =>
    whole c (List.mem_reverse.mp ((List.takeWhile_subset _) (List.mem_reverse.mp mem)))
  refine ⟨separated_candidate ?_ n, ?_, dot_notMem_ext cut⟩
  · unfold cpmStem
    rw [stemParts]
    exact (separated_map_toupper (whole.take _)).take 8
  · rw [cpmExt_of_mem dotted] at cut
    obtain rfl := Option.some.inj cut
    exact (separated_map_toupper extParts).take 3

/-- A name that was put together is taken apart again. -/
theorem splitPath_joined {stem ext : Name} (noStem : Separated stem) (noExt : Separated ext)
    (dotless : 0x2e ∉ ext) : splitPath (joined stem ext) = (stem, 0x2e :: ext) := by
  have separated : Separated (joined stem ext) := by
    intro c mem
    rcases List.mem_append.mp mem with front | back
    · exact noStem c front
    · rcases List.mem_cons.mp back with rfl | inExt
      · decide
      · exact noExt c inExt
  have after : afterDot (joined stem ext) = ext := by
    unfold afterDot joined
    rw [List.reverse_append, List.reverse_cons, List.append_assoc,
      List.takeWhile_append_of_pos fun c mem => by
        have differs : c ≠ 0x2e := fun dot => dotless (dot ▸ List.mem_reverse.mp mem)
        exact bne_iff_ne.mpr differs]
    show (ext.reverse ++ []).reverse = ext
    rw [List.append_nil, List.reverse_reverse]
  have there : (joined stem ext).contains 0x2e = true :=
    List.contains_iff_mem.mpr (List.mem_append_right _ List.mem_cons_self)
  have length : (joined stem ext).length = stem.length + (ext.length + 1) :=
    List.length_append
  unfold splitPath
  simp only [fileName_of_separated separated, there, if_true, after, length]
  rw [show stem.length + (ext.length + 1) - ext.length - 1 = stem.length by omega]
  unfold joined
  rw [List.take_left]

/-! ## One save -/

/-- An image that files can be saved in: it has the system tracks and no more blocks than a slot can
name, and its entries name blocks of files. -/
structure Usable (fs : FilesystemImage) : Prop where
  /-- There are the system tracks. -/
  system : 10 * 1024 * 6 ≤ fs.size
  /-- A slot can name every block. -/
  small : fs.maxclust ≤ 2 ^ 16
  /-- The blocks of the entries in use lie behind the directory, in the image. -/
  inside : ∀ c ∈ blocks fs.directory, 2 ≤ c ∧ c < fs.maxclust

/-- What is known of the chain for a new file. -/
structure FreeChain (fs : FilesystemImage) (chain : List Nat) : Prop where
  /-- No block comes twice. -/
  nodup : chain.Nodup
  /-- The blocks lie behind the directory, in the image. -/
  inside : ∀ c ∈ chain, 2 ≤ c ∧ c < fs.maxclust
  /-- No entry names one. -/
  unused : ∀ c ∈ chain, c ∉ fatEntries fs.directory

theorem freeChain_of_build {fs : FilesystemImage} {length : Nat} {chain : List Nat}
    (built : fs.buildAvailableChain length = some chain) :
    FreeChain fs chain ∧ (length ≠ 0 → chain.length ≤ length) := by
  have empty : FreeChain fs [] :=
    ⟨List.nodup_nil, fun _ mem => absurd mem List.not_mem_nil,
      fun _ mem => absurd mem List.not_mem_nil⟩
  unfold buildAvailableChain at built
  simp only at built
  split at built
  · cases built
  · split at built
    · obtain rfl := Option.some.inj built
      exact ⟨empty, fun _ => Nat.zero_le _⟩
    · split at built
      · cases built
      · split at built
        · obtain rfl := Option.some.inj built
          exact ⟨empty, fun _ => Nat.zero_le _⟩
        · obtain ⟨free, freeEq⟩ : ∃ free, free = (List.range fs.maxclust).filter fun c =>
              decide (2 ≤ c) && !(fatEntries fs.directory).contains c := ⟨_, rfl⟩
          rw [← freeEq] at built
          have whole : FreeChain fs free := by
            have kind : ∀ c ∈ free, c < fs.maxclust ∧ 2 ≤ c ∧ c ∉ fatEntries fs.directory := by
              intro c mem
              rw [freeEq, List.mem_filter, List.mem_range, Bool.and_eq_true, decide_eq_true_eq,
                Bool.not_eq_true', ← Bool.not_eq_true, List.contains_iff_mem] at mem
              exact mem
            refine ⟨?_, fun c mem => ⟨(kind c mem).2.1, (kind c mem).1⟩,
              fun c mem => (kind c mem).2.2⟩
            rw [freeEq]
            exact List.nodup_range.filter _
          obtain rfl := Option.some.inj built
          split
          case isTrue zero => exact ⟨whole, fun more => absurd zero more⟩
          case isFalse =>
            exact ⟨⟨whole.nodup.sublist (List.take_sublist _ _),
              fun c mem => whole.inside c (List.mem_of_mem_take mem),
              fun c mem => whole.unused c (List.mem_of_mem_take mem)⟩,
              fun _ => List.length_take_le _ _⟩

/-- A byte of the directory. -/
abbrev InDirectory (i : Nat) : Prop := 0xa000 ≤ i ∧ i < 0xb000

theorem inDirectory_of_position {pos : Nat} (mem : pos ∈ dirPositions) :
    0xa000 ≤ pos ∧ pos + 32 ≤ 0xb000 := by
  obtain ⟨k, inRange, rfl⟩ := List.mem_map.mp mem
  have below := List.mem_range.mp inRange
  omega

/-- The directory depends on its own bytes. -/
theorem directory_congr {fs fs' : FilesystemImage}
    (same : ∀ i, InDirectory i → fs'.bytes i = fs.bytes i) : fs'.directory = fs.directory :=
  List.map_congr_left fun pos mem => header_congr fun i from_ before =>
    same i (by have := inDirectory_of_position mem; exact ⟨by omega, by omega⟩)

/-- What a save does: its chain, what it does to the directory, and which bytes it touches. -/
structure Saved (fs : FilesystemImage) (content : List Byte) (stem ext : Name)
    (fs' : FilesystemImage) (chain : List Nat) : Prop where
  /-- The chain is free. -/
  free : FreeChain fs chain
  /-- It is no longer than the content needs. -/
  short : content ≠ [] → chain.length ≤ blocksOf content.length
  /-- The directory. -/
  directory : allocateHeaders stem ext fs.directory 0 chain content.length = some fs'.directory
  /-- What lies outside the directory and the chain. -/
  bytes : ∀ i, ¬ InDirectory i → ¬ InChain chain i → fs'.bytes i = fs.bytes i
  /-- The size. -/
  size : fs'.size = fs.size
  /-- A chain of the right length holds the content. -/
  content : content ≠ [] → blocksOf content.length = chain.length → fs'.chainBytes chain =
    content ++ List.replicate (2048 * chain.length - content.length) 0xe5
  /-- The name can be taken apart again. -/
  name : Separated stem ∧ Separated ext ∧ 0x2e ∉ ext

theorem saved_of_saveFile {fs fs' : FilesystemImage} {filename stem ext : Name}
    {content : List Byte} {fuel : Nat}
    (done : fs.saveFile filename content fuel = .saved stem ext fs') :
    ∃ chain, Saved fs content stem ext fs' chain := by
  unfold saveFile at done
  cases built : fs.buildAvailableChain ((content.length + 2047) / 2048) with
  | none =>
    rw [built] at done
    cases done
  | some chain =>
    rw [built] at done
    cases chain with
    | nil => cases done
    | cons c chain =>
      simp only at done
      cases named : uniqueCpmFilename fs.takenNames filename fuel with
      | thrown =>
        rw [named] at done
        cases done
      | trying =>
        rw [named] at done
        cases done
      | named stem' ext' =>
        rw [named] at done
        simp only at done
        cases allocated : allocateLoop stem' ext' dirPositions
            { fs with takenNames := insert (joined stem' ext') fs.takenNames } 0 (c :: chain)
            content.length with
        | none =>
          rw [allocated] at done
          cases done
        | some middle =>
          rw [allocated] at done
          simp only [Saving.saved.injEq] at done
          obtain ⟨rfl, rfl, rfl⟩ := done
          obtain ⟨free, short⟩ := freeChain_of_build built
          obtain ⟨headers, same⟩ := allocateLoop_headers dirPositions apart_dirPositions allocated
          have sizes : middle.size = fs.size := same.size
          have clusters := maxclust_congr sizes
          have written := @writeChain_same (c :: chain) middle content fun d mem =>
            clusters.symm ▸ (free.inside d mem).2
          -- blocks from the second on lie behind the directory
          have behind : ∀ i, InDirectory i → ¬ InChain (c :: chain) i := by
            rintro i inside ⟨d, mem, from_, -⟩
            have two := (free.inside d mem).1
            unfold blockAt at from_
            omega
          have directory : (writeChain (c :: chain) middle content).directory = middle.directory :=
            directory_congr fun i inside => written.bytes i (behind i inside)
          refine ⟨c :: chain, free, fun more => short ?_, ?_, fun i outside apart => ?_,
            written.size.trans sizes, fun more length => ?_, separated_of_named named⟩
          · have some' := List.length_pos_iff.mpr more
            omega
          · rw [directory]
            exact headers
          · refine (written.bytes i apart).trans (same.bytes i fun touched => touched ?_)
            intro pos mem
            have := inDirectory_of_position mem
            unfold InDirectory at outside
            omega
          · exact writeChain_bytes _ free.nodup
              (fun d mem => clusters.symm ▸ (free.inside d mem).2) length more

/-! ## Images after a save -/

theorem mem_blocks_iff {headers : List MDHeader} {c : Nat} :
    c ∈ blocks headers ↔ c ∈ fatEntries headers ∧ c ≠ 0 := by
  unfold blocks
  rw [List.mem_filter, decide_eq_true_eq]

section Saved

variable {fs fs' : FilesystemImage} {content : List Byte} {stem ext : Name} {chain : List Nat}

theorem Saved.fit (saved : Saved fs content stem ext fs' chain) (usable : Usable fs) :
    Fit chain where
  small c mem := (saved.free.inside c mem).2.trans_le usable.small
  nonzero c mem := by
    have := (saved.free.inside c mem).1
    omega

/-- The blocks in use after a save. -/
theorem Saved.perm (saved : Saved fs content stem ext fs' chain) (usable : Usable fs) :
    ∃ count, (blocks fs'.directory).Perm (blocks fs.directory ++ chain.take count) :=
  perm_blocks fs.directory saved.directory (saved.fit usable)

/-- Files can still be saved. -/
theorem Saved.usable (saved : Saved fs content stem ext fs' chain) (usable : Usable fs) :
    Usable fs' := by
  have clusters := maxclust_congr saved.size
  obtain ⟨count, perm⟩ := saved.perm usable
  refine ⟨saved.size.symm ▸ usable.system, clusters.symm ▸ usable.small, fun c mem => ?_⟩
  rw [clusters]
  rcases List.mem_append.mp (perm.mem_iff.mp mem) with old | new
  · exact usable.inside c old
  · exact saved.free.inside c (List.mem_of_mem_take new)

/-- No block belongs to two entries. -/
theorem Saved.nodup (saved : Saved fs content stem ext fs' chain) (usable : Usable fs)
    (distinct : (blocks fs.directory).Nodup) : (blocks fs'.directory).Nodup := by
  obtain ⟨count, perm⟩ := saved.perm usable
  refine perm.nodup_iff.mpr (distinct.append (saved.free.nodup.sublist (List.take_sublist _ _)) ?_)
  intro c old new
  exact saved.free.unused c (List.mem_of_mem_take new) (mem_blocks_iff.mp old).1

/-- A chain that is found is one of entries in use. -/
theorem mem_loadLoop {names : List Byte × List Byte} (headers : List MDHeader) :
    ∀ {front : List Nat} {c : Nat}, c ∈ (loadLoop names headers front).1 →
      c ∈ front ∨ c ∈ fatEntries headers := by
  induction headers with
  | nil => exact fun mem => Or.inl mem
  | cons h headers inductionHypothesis =>
    intro front c mem
    by_cases live : h.live = true
    · have entries : fatEntries (h :: headers) = slots h ++ fatEntries headers := by
        unfold fatEntries
        rw [List.filter_cons_of_pos live, List.flatMap_cons]
      have later : ∀ {front'}, c ∈ (loadLoop names headers front').1 →
          c ∈ front' ∨ c ∈ fatEntries (h :: headers) := fun found =>
        (inductionHypothesis found).imp_right fun rest => entries ▸ List.mem_append_right _ rest
      have here : c ∈ front ++ slots h → c ∈ front ∨ c ∈ fatEntries (h :: headers) :=
        fun found => (List.mem_append.mp found).imp_right fun slot =>
          entries ▸ List.mem_append_left _ slot
      by_cases mine : belongs names h = true
      · rw [loadLoop_mine mine] at mem
        split at mem
        · exact here mem
        · exact (later mem).elim here Or.inr
      · rw [loadLoop_other mine] at mem
        exact later mem
    · have entries : fatEntries (h :: headers) = fatEntries headers := by
        unfold fatEntries
        rw [List.filter_cons_of_neg live]
      have other : ¬ belongs names h = true := by
        rw [belongs_of_free live]
        exact Bool.false_ne_true
      rw [loadLoop_other other] at mem
      rw [entries]
      exact inductionHypothesis mem

/-- Blocks that entries name keep their bytes. -/
theorem Saved.block_kept (saved : Saved fs content stem ext fs' chain) (usable : Usable fs)
    {c : Nat} (used : c ∈ fatEntries fs.directory) (nonzero : c ≠ 0) {i : Nat}
    (inside : InBlock c i) : fs'.bytes i = fs.bytes i := by
  have two := (usable.inside c (mem_blocks_iff.mpr ⟨used, nonzero⟩)).1
  refine saved.bytes i ?_ ?_
  · unfold InBlock blockAt at inside
    omega
  · rintro ⟨d, mem, there⟩
    exact saved.free.unused d mem (eq_of_inBlock inside there ▸ used)

/-- Another file is found where it was, with the same bytes. -/
theorem Saved.readFile_other (saved : Saved fs content stem ext fs' chain) (usable : Usable fs)
    {filename : Name}
    (other : entryNames stem ext ≠
      entryNames (splitPath filename).1 ((splitPath filename).2.drop 1)) :
    fs'.readFile filename = fs.readFile filename := by
  obtain ⟨names, namesEq⟩ :
      ∃ names, names = entryNames (splitPath filename).1 ((splitPath filename).2.drop 1) := ⟨_, rfl⟩
  rw [← namesEq] at other
  have entries := filter_other other fs.directory saved.directory
  have loaded : fs'.loadDirent names = fs.loadDirent names := by
    unfold loadDirent
    rw [loadLoop_filter, entries, ← loadLoop_filter]
  -- an entry of user 0 is in use, so the filter keeps what the search looks for
  have search : ∀ headers : List MDHeader,
      headers.any (fun h => decide (h.user = 0) && decide (h.names = names)) =
        (headers.filter (belongs names)).any fun h => decide (h.user = 0) := by
    intro headers
    rw [List.any_filter]
    congr 1
    funext h
    unfold belongs MDHeader.live
    by_cases zero : h.user = 0
    · rw [zero]
      by_cases same : h.names = names
      · rw [decide_eq_true same]
        rfl
      · rw [decide_eq_false same, Bool.and_false, Bool.and_false, Bool.false_and]
    · rw [decide_eq_false zero, Bool.false_and, Bool.and_false]
  have found : fs'.findFile filename = fs.findFile filename := by
    unfold findFile
    simp only
    rw [show (MDHeader.initWithFilename (splitPath filename).1
      ((splitPath filename).2.drop 1)).names = names from namesEq.symm]
    show (if fs'.directory.any (fun h => decide (h.user = 0) && decide (h.names = names)) then _
      else _) = if fs.directory.any (fun h => decide (h.user = 0) && decide (h.names = names))
        then _ else _
    rw [search, search, entries, loaded]
  have chainKept : ∀ c ∈ (fs.findFile filename).1, c ∈ fatEntries fs.directory := by
    intro c mem
    unfold findFile at mem
    simp only at mem
    split at mem
    · exact (mem_loadLoop _ mem).resolve_left List.not_mem_nil
    · exact absurd mem List.not_mem_nil
  have read : fs'.readBytes (fs.findFile filename) = fs.readBytes (fs.findFile filename) := by
    unfold readBytes
    rw [readChain_congr saved.size _ fun c mem nonzero =>
      ⟨(usable.inside c (mem_blocks_iff.mpr ⟨chainKept c mem, nonzero⟩)).2, fun i inside =>
        saved.block_kept usable (chainKept c mem) nonzero inside⟩]
  unfold readFile
  simp only
  rw [found, read]

/-- The file itself is read with its content, filled up to whole records, unless its last entry is
full. -/
theorem Saved.readFile_own (saved : Saved fs content stem ext fs' chain) (usable : Usable fs)
    (more : content ≠ [])
    (fresh : fs.directory.filter (belongs (entryNames stem ext)) = [])
    (room : content.length ≤ 16384 * freeEntries fs.directory) :
    fs'.readFile (joined stem ext) =
      if recordsOf content.length % 128 = 0 then []
      else content ++ List.replicate (recordsOf content.length * 128 - content.length) 0xe5 := by
  obtain ⟨noStem, noExt, dotless⟩ := saved.name
  have positive := List.length_pos_iff.mpr more
  have fit := saved.fit usable
  have length : blocksOf content.length = chain.length :=
    Nat.le_antisymm (blocksOf_le_of_room fs.directory saved.directory room) (saved.short more)
  have own := filter_own fs.directory saved.directory fresh
  have few : 0 + freeEntries fs.directory ≤ 256 := by
    have count := List.countP_le_length (p := fun h : MDHeader => !h.live) (l := fs.directory)
    have size : fs.directory.length = 128 := rfl
    unfold freeEntries
    omega
  obtain ⟨zeros, loaded⟩ := loadLoop_extents (freeEntries fs.directory) room positive length fit
    few []
  have dirent : fs'.loadDirent (entryNames stem ext) =
      (chain ++ List.replicate zeros 0,
        if recordsOf content.length % 128 = 0 then 0 else recordsOf content.length * 128) := by
    unfold loadDirent
    rw [loadLoop_filter, own, loaded]
    simp only [List.nil_append, Nat.zero_mul, Nat.zero_add]
  have there : fs'.directory.any (fun h => decide (h.user = 0) &&
      decide (h.names = entryNames stem ext)) = true := by
    have some' : freeEntries fs.directory ≠ 0 := by
      intro none
      rw [none] at room
      omega
    obtain ⟨count, countEq⟩ := Nat.exists_eq_succ_of_ne_zero some'
    rw [countEq, extents_succ _ _ _ _ _ (Nat.pos_iff_ne_zero.mp positive)] at own
    have mem := List.mem_filter.mp (own ▸ List.mem_cons_self)
    exact List.any_eq_true.mpr ⟨_, mem.1, by
      show (decide ((0 : Byte) = 0) && decide (entryNames stem ext = entryNames stem ext)) = true
      rw [decide_eq_true rfl, decide_eq_true rfl]
      rfl⟩
  have found : fs'.findFile (joined stem ext) = fs'.loadDirent (entryNames stem ext) := by
    unfold findFile
    rw [splitPath_joined noStem noExt dotless]
    exact if_pos there
  unfold readFile
  simp only
  rw [found, dirent]
  by_cases full : recordsOf content.length % 128 = 0
  · rw [if_pos full, if_pos full]
    exact if_neg (not_not.mpr rfl)
  · have size : recordsOf content.length * 128 ≠ 0 := by
      unfold recordsOf
      omega
    have clusters := maxclust_congr saved.size
    have read := @readChain_spec fs' zeros chain (fun c mem =>
      ⟨fit.nonzero c mem, clusters.symm ▸ (saved.free.inside c mem).2⟩)
      (recordsOf content.length * 128)
    have fits : recordsOf content.length * 128 ≤ 2048 * chain.length := by
      rw [← length]
      unfold recordsOf blocksOf
      omega
    have long : content.length ≤ recordsOf content.length * 128 := by
      unfold recordsOf
      omega
    have bytes : (fs'.chainBytes chain).take (recordsOf content.length * 128) =
        content ++ List.replicate (recordsOf content.length * 128 - content.length) 0xe5 := by
      rw [saved.content more length, List.take_append, List.take_of_length_le long,
        List.take_replicate, Nat.min_eq_left (by omega)]
    rw [if_neg full, if_neg full, if_pos size]
    unfold readBytes
    simp only
    rw [read, bytes, List.length_append, List.length_replicate, Nat.add_sub_cancel' long,
      Nat.sub_self]
    exact List.append_nil _

end Saved

/-! ## Runs -/

/-- A call of `save_file` that returns `true`, with the name it gave. -/
def Saves (fs : FilesystemImage) (name : Name × Name) (fs' : FilesystemImage) : Prop :=
  ∃ filename content fuel, fs.saveFile filename content fuel = .saved name.1 name.2 fs'

/-- Other files stay as they are through any saves. -/
theorem readFile_run {start final : FilesystemImage} {names : List (Name × Name)}
    (run : Transition.Run Saves start names final) {filename : Name} :
    (∀ name ∈ names, entryNames name.1 name.2 ≠
      entryNames (splitPath filename).1 ((splitPath filename).2.drop 1)) →
      Usable start → final.readFile filename = start.readFile filename := by
  induction run with
  | nil => exact fun _ _ => rfl
  | cons step rest inductionHypothesis =>
    intro others usable
    obtain ⟨saved, content, fuel, done⟩ := step
    obtain ⟨chain, facts⟩ := saved_of_saveFile done
    have later := inductionHypothesis (fun name mem => others name (List.mem_cons_of_mem _ mem))
      (facts.usable usable)
    exact later.trans (facts.readFile_other usable (others _ List.mem_cons_self))

/-- A file that was saved in free entries is read after any later saves: its content, filled up to
whole records, but nothing if its last entry is full. -/
theorem saveFile_readFile {fs saved final : FilesystemImage} {filename stem ext : Name}
    {content : List Byte} {fuel : Nat} {later : List (Name × Name)} (usable : Usable fs)
    (more : content ≠ []) (done : fs.saveFile filename content fuel = .saved stem ext saved)
    (fresh : ∀ h ∈ fs.directory, h.live = true → h.names ≠ entryNames stem ext)
    (room : content.length ≤ 16384 * freeEntries fs.directory)
    (run : Transition.Run Saves saved later final)
    (others : ∀ name ∈ later, entryNames name.1 name.2 ≠ entryNames stem ext) :
    final.readFile (joined stem ext) =
      if recordsOf content.length % 128 = 0 then []
      else content ++ List.replicate (recordsOf content.length * 128 - content.length) 0xe5 := by
  obtain ⟨chain, facts⟩ := saved_of_saveFile done
  obtain ⟨noStem, noExt, dotless⟩ := facts.name
  have none : fs.directory.filter (belongs (entryNames stem ext)) = [] := by
    refine List.filter_eq_nil_iff.mpr fun h mem mine => ?_
    unfold belongs at mine
    rw [Bool.and_eq_true, decide_eq_true_eq] at mine
    exact fresh h mem mine.1 mine.2
  have parts : entryNames (splitPath (joined stem ext)).1
      ((splitPath (joined stem ext)).2.drop 1) = entryNames stem ext := by
    rw [splitPath_joined noStem noExt dotless]
    rfl
  have kept := @readFile_run saved final later run (joined stem ext)
    (fun name mem => parts ▸ others name mem) (facts.usable usable)
  exact kept.trans (facts.readFile_own usable more none room)

/-- One byte on a blank image of one block. -/
theorem saveFile_readFile_byte :
    ∃ saved, (blank 67584).saveFile [0x41, 0x2e, 0x42] [7] 1 = .saved [0x41] [0x42] saved ∧
      saved.readFile (joined [0x41] [0x42]) = 7 :: List.replicate 127 0xe5 := by
  have usable : Usable (blank 67584) :=
    ⟨by decide, by decide, fun c mem => absurd mem List.not_mem_nil⟩
  have vacant : ∀ h ∈ (blank 67584).directory, h.live = false := by decide +kernel
  obtain ⟨saved, done⟩ : ∃ saved,
      (blank 67584).saveFile [0x41, 0x2e, 0x42] [7] 1 = .saved [0x41] [0x42] saved := ⟨_, rfl⟩
  refine ⟨saved, done, ?_⟩
  exact saveFile_readFile usable (List.cons_ne_nil _ _) done
    (fun h mem live => absurd (live.symm.trans (vacant h mem)) (by decide)) (by decide +kernel)
    (.nil saved) fun name mem => absurd mem List.not_mem_nil

/-- On an image that was blank, no block ever belongs to two entries, and every block of an entry
lies behind the directory and in the image. -/
theorem blocks_run {size : Nat} {final : FilesystemImage} {names : List (Name × Name)}
    (system : 10 * 1024 * 6 ≤ size) (small : (blank size).maxclust ≤ 2 ^ 16)
    (run : Transition.Run Saves (blank size) names final) :
    (blocks final.directory).Nodup ∧
      ∀ c ∈ blocks final.directory, 2 ≤ c ∧ c < (blank size).maxclust := by
  have none : blocks (blank size).directory = [] := rfl
  have start : Usable (blank size) :=
    ⟨system, small, fun c mem => absurd (none ▸ mem) List.not_mem_nil⟩
  have step : ∀ (fs : FilesystemImage) (name : Name × Name) (fs' : FilesystemImage),
      Usable fs ∧ (blocks fs.directory).Nodup ∧ fs.maxclust = (blank size).maxclust →
        Saves fs name fs' →
          Usable fs' ∧ (blocks fs'.directory).Nodup ∧ fs'.maxclust = (blank size).maxclust := by
    intro fs name fs' held step
    obtain ⟨saved, content, fuel, done⟩ := step
    obtain ⟨chain, facts⟩ := saved_of_saveFile done
    exact ⟨facts.usable held.1, facts.nodup held.1 held.2.1,
      (maxclust_congr facts.size).trans held.2.2⟩
  have kept := run.invariant step ⟨start, none ▸ List.nodup_nil, rfl⟩
  exact ⟨kept.2.1, fun c mem => kept.2.2 ▸ kept.1.inside c mem⟩

/-- One file on a blank image. -/
theorem blocks_run_byte : ∃ saved, (blocks (directory saved)).Nodup ∧
    (blank 67584).saveFile [0x41, 0x2e, 0x42] [7] 1 = .saved [0x41] [0x42] saved := by
  obtain ⟨saved, done⟩ : ∃ saved,
      (blank 67584).saveFile [0x41, 0x2e, 0x42] [7] 1 = .saved [0x41] [0x42] saved := ⟨_, rfl⟩
  have step : Saves (blank 67584) ([0x41], [0x42]) saved := ⟨_, _, _, done⟩
  exact ⟨saved, (blocks_run (by decide) (by decide) (.cons step (.nil saved))).1, done⟩

end VectorDebugger.FilesystemImage
