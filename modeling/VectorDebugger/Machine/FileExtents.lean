import VectorDebugger.Machine.FilesystemImage

/-!
# The entries of a file

`allocate_file` writes on bytes, but what it does to the directory it does to a list of entries. A
new file gets the free ones in their order, the entries of another keep their place, and
`load_dirent` finds the chain of blocks again in them. The size it finds is that of the file unless
the last entry is full: then it is 0.
-/

namespace VectorDebugger.FilesystemImage

/-! ## The directory as a list -/

/-- The loop of `allocate_file` on a list of entries. -/
def allocateHeaders (stem ext : Name) :
    List MDHeader → Nat → List Nat → Nat → Option (List MDHeader)
  | [], _, _, _ => some []
  | h :: headers, extent, chain, remaining =>
    if remaining = 0 then some (h :: headers)
    else if h.live then
      (allocateHeaders stem ext headers extent chain remaining).map (h :: ·)
    else do
      let filled ← fillFat 8 chain remaining
      (allocateHeaders stem ext headers (extent + 1) filled.2.1 filled.2.2).map
        (proto stem ext extent remaining filled.1 :: ·)

/-- Entries keep their distance. -/
abbrev Apart (positions : List Nat) : Prop := positions.Pairwise fun pos next => pos + 32 ≤ next

theorem apart_dirPositions : Apart dirPositions := by
  unfold Apart dirPositions
  rw [List.pairwise_map]
  exact List.pairwise_lt_range.imp fun less => by omega

/-- A byte that lies in none of the entries. -/
abbrev Outside (positions : List Nat) (i : Nat) : Prop :=
  ∀ pos ∈ positions, i < pos ∨ pos + 32 ≤ i

/-- Everything but some bytes is the same. -/
structure SameBut (touched : Nat → Prop) (fs fs' : FilesystemImage) : Prop where
  /-- Bytes that are not touched. -/
  bytes : ∀ i, ¬ touched i → fs'.bytes i = fs.bytes i
  /-- The size. -/
  size : fs'.size = fs.size
  /-- The names that are taken. -/
  takenNames : fs'.takenNames = fs.takenNames

theorem SameBut.trans {touched : Nat → Prop} {fs fs' fs'' : FilesystemImage}
    (first : SameBut touched fs fs') (second : SameBut touched fs' fs'') :
    SameBut touched fs fs'' where
  bytes i kept := (second.bytes i kept).trans (first.bytes i kept)
  size := second.size.trans first.size
  takenNames := second.takenNames.trans first.takenNames

theorem SameBut.weaken {touched more : Nat → Prop} {fs fs' : FilesystemImage}
    (same : SameBut touched fs fs') (wider : ∀ i, touched i → more i) : SameBut more fs fs' where
  bytes i kept := same.bytes i fun inside => kept (wider i inside)
  size := same.size
  takenNames := same.takenNames

/-- What is written on the bytes is what the list says, and nothing else is touched. -/
theorem allocateLoop_headers {stem ext : Name} (positions : List Nat) :
    Apart positions → ∀ {fs fs' : FilesystemImage} {extent : Nat} {chain : List Nat}
      {remaining : Nat}, allocateLoop stem ext positions fs extent chain remaining = some fs' →
      allocateHeaders stem ext (positions.map fs.header) extent chain remaining =
          some (positions.map fs'.header) ∧
        SameBut (fun i => ¬ Outside positions i) fs fs' := by
  induction positions with
  | nil =>
    intro _ fs fs' extent chain remaining done
    obtain rfl := Option.some.inj done
    exact ⟨rfl, fun _ _ => rfl, rfl, rfl⟩
  | cons pos positions inductionHypothesis =>
    intro apart fs fs' extent chain remaining done
    obtain ⟨behind, apartRest⟩ := List.pairwise_cons.mp apart
    have wider : ∀ i, ¬ Outside positions i → ¬ Outside (pos :: positions) i :=
      fun i inside outside => inside fun next mem => outside next (List.mem_cons_of_mem _ mem)
    -- the rest of the loop lies behind this entry
    have kept : ∀ {middle final : FilesystemImage},
        SameBut (fun i => ¬ Outside positions i) middle final →
          final.header pos = middle.header pos := fun same =>
      header_congr fun i _ before => same.bytes i fun inside =>
        inside fun next mem => Or.inl (by have := behind next mem; omega)
    unfold allocateLoop at done
    rw [List.map_cons, List.map_cons]
    unfold allocateHeaders
    by_cases spent : remaining = 0
    · rw [if_pos spent] at done ⊢
      obtain rfl := Option.some.inj done
      exact ⟨rfl, fun _ _ => rfl, rfl, rfl⟩
    · rw [if_neg spent] at done ⊢
      by_cases live : (fs.header pos).live
      · rw [if_pos live] at done ⊢
        obtain ⟨headers, same⟩ := inductionHypothesis apartRest done
        rw [headers, Option.map_some, kept same]
        exact ⟨rfl, same.weaken wider⟩
      · rw [if_neg live] at done ⊢
        cases filledEq : fillFat 8 chain remaining with
        | none =>
          rw [filledEq] at done
          cases done
        | some filled =>
          rw [filledEq] at done
          obtain ⟨headers, same⟩ := inductionHypothesis apartRest done
          have later : ∀ next ∈ positions, (fs.overwrite pos _).header next = fs.header next :=
            fun next mem => header_congr fun i from_ _ => overwrite_outside fs
              (proto stem ext extent remaining filled.1) (Or.inr ((behind next mem).trans from_))
          rw [List.map_congr_left later] at headers
          have here := (kept same).trans (header_overwrite fs pos _)
          have first : SameBut (fun i => ¬ Outside (pos :: positions) i) fs
              (fs.overwrite pos (proto stem ext extent remaining filled.1)) :=
            ⟨fun i kept => overwrite_outside fs _ (not_not.mp kept pos List.mem_cons_self), rfl,
              rfl⟩
          refine ⟨?_, first.trans (same.weaken wider)⟩
          show (allocateHeaders stem ext (positions.map fs.header) (extent + 1) filled.2.1
            filled.2.2).map _ = _
          rw [headers, Option.map_some, here]

/-! ## Slots -/

/-- The blocks that so many bytes need. -/
abbrev blocksOf (n : Nat) : Nat := (n + 2047) / 2048

/-- The first entry takes up to eight blocks. -/
abbrev inEntry (remaining : Nat) : Nat := min 8 (blocksOf remaining)

/-- The slots take from the chain what they need, and are zero behind it. -/
theorem fillFat_eq (count : Nat) : ∀ (chain : List Nat) (remaining : Nat),
    fillFat count chain remaining =
      if min count (blocksOf remaining) ≤ chain.length then
        some (chain.take (min count (blocksOf remaining)) ++
            List.replicate (count - min count (blocksOf remaining)) 0,
          chain.drop (min count (blocksOf remaining)), remaining - 2048 * count)
      else none := by
  induction count with
  | zero =>
    intro chain remaining
    rw [Nat.zero_min, if_pos (Nat.zero_le _)]
    rfl
  | succ count inductionHypothesis =>
    intro chain remaining
    unfold fillFat
    by_cases more : remaining > 0
    · have first : min (count + 1) (blocksOf remaining) =
          min count (blocksOf (remaining - 2048)) + 1 := by
        unfold blocksOf
        omega
      rw [if_pos more, first]
      cases chain with
      | nil =>
        exact (if_neg (Nat.not_succ_le_zero _)).symm
      | cons c chain =>
        simp only [inductionHypothesis chain (remaining - 2048), List.length_cons,
          Nat.add_le_add_iff_right]
        split
        · simp only [Option.map_some, List.take_succ_cons, List.drop_succ_cons, List.cons_append,
            Nat.add_sub_add_right, Nat.sub_sub]
          rw [show 2048 + 2048 * count = 2048 * (count + 1) by omega]
        · rfl
    · have none : blocksOf remaining = 0 := by
        unfold blocksOf
        omega
      have rest : remaining - 2048 * count = remaining - 2048 * (count + 1) := by omega
      rw [if_neg more, inductionHypothesis chain remaining, none, Nat.min_zero, Nat.min_zero,
        if_pos (Nat.zero_le _), if_pos (Nat.zero_le _), rest]
      rfl

theorem fillFat_of_enough {chain : List Nat} {remaining : Nat}
    (enough : inEntry remaining ≤ chain.length) :
    fillFat 8 chain remaining =
      some (chain.take (inEntry remaining) ++ List.replicate (8 - inEntry remaining) 0,
        chain.drop (inEntry remaining), remaining - 16384) := by
  rw [fillFat_eq, if_pos enough]

theorem enough_of_fillFat {chain : List Nat} {remaining : Nat}
    {filled : List Nat × List Nat × Nat} (done : fillFat 8 chain remaining = some filled) :
    inEntry remaining ≤ chain.length := by
  by_contra short
  rw [fillFat_eq, if_neg short] at done
  cases done

/-- The slots of an entry that was made from eight numbers of 16 bits. -/
theorem slots_proto {stem ext : Name} {extent remaining : Nat} {fat : List Nat}
    (eight : fat.length = 8) (small : ∀ c ∈ fat, c < 2 ^ 16) :
    slots (proto stem ext extent remaining fat) = fat := by
  refine List.ext_getElem (by rw [eight]; rfl) fun i first second => ?_
  unfold slots proto
  simp only [List.getElem_map, List.getElem_finRange, Fin.val_cast, BitVec.toNat_ofNat]
  rw [List.getD_eq_getElem?_getD, List.getElem?_eq_getElem second]
  exact Nat.mod_eq_of_lt (small _ (List.getElem_mem second))

/-! ## The entries of one file -/

/-- The names of a new file in the directory. -/
abbrev entryNames (stem ext : Name) : List Byte × List Byte :=
  (MDHeader.initWithFilename stem ext).names

/-- An entry that belongs to a file. -/
def belongs (names : List Byte × List Byte) (h : MDHeader) : Bool := h.live && h.names = names

/-- The entries that are free. -/
abbrev freeEntries (headers : List MDHeader) : Nat := headers.countP fun h => !h.live

/-- The slots of the first entry. -/
def firstSlots (chain : List Nat) (remaining : Nat) : List Nat :=
  chain.take (inEntry remaining) ++ List.replicate (8 - inEntry remaining) 0

/-- The entries of a new file, as far as so many free ones go. -/
def extents (stem ext : Name) : Nat → Nat → List Nat → Nat → List MDHeader
  | 0, _, _, _ => []
  | room + 1, extent, chain, remaining =>
    if remaining = 0 then []
    else proto stem ext extent remaining (firstSlots chain remaining) ::
      extents stem ext room (extent + 1) (chain.drop (inEntry remaining)) (remaining - 16384)

theorem extents_succ (stem ext : Name) (room extent : Nat) (chain : List Nat) {remaining : Nat}
    (more : remaining ≠ 0) : extents stem ext (room + 1) extent chain remaining =
      proto stem ext extent remaining (firstSlots chain remaining) ::
        extents stem ext room (extent + 1) (chain.drop (inEntry remaining)) (remaining - 16384) :=
  if_neg more

theorem extents_zero (stem ext : Name) (room extent : Nat) (chain : List Nat) :
    extents stem ext room extent chain 0 = [] := by
  cases room with
  | zero => rfl
  | succ room => exact if_pos rfl

theorem belongs_proto {stem ext : Name} {extent remaining : Nat} {fat : List Nat}
    (names : List Byte × List Byte) :
    belongs names (proto stem ext extent remaining fat) = decide (entryNames stem ext = names) :=
  rfl

theorem belongs_of_free {h : MDHeader} (free : ¬ h.live = true) (names : List Byte × List Byte) :
    belongs names h = false := by
  unfold belongs
  rw [Bool.not_eq_true] at free
  rw [free]
  rfl

section Loop

variable {stem ext : Name}

/-- What the loop does with the first entry. -/
theorem allocateHeaders_cons {h : MDHeader} {headers headers' : List MDHeader} {extent : Nat}
    {chain : List Nat} {remaining : Nat}
    (done : allocateHeaders stem ext (h :: headers) extent chain remaining = some headers') :
    (remaining = 0 ∧ headers' = h :: headers) ∨
    (remaining ≠ 0 ∧ h.live = true ∧ ∃ rest,
      allocateHeaders stem ext headers extent chain remaining = some rest ∧
        headers' = h :: rest) ∨
    (remaining ≠ 0 ∧ ¬ h.live = true ∧ inEntry remaining ≤ chain.length ∧ ∃ rest,
      allocateHeaders stem ext headers (extent + 1) (chain.drop (inEntry remaining))
          (remaining - 16384) = some rest ∧
        headers' = proto stem ext extent remaining (firstSlots chain remaining) :: rest) := by
  unfold allocateHeaders at done
  by_cases spent : remaining = 0
  · rw [if_pos spent] at done
    exact Or.inl ⟨spent, (Option.some.inj done).symm⟩
  · rw [if_neg spent] at done
    by_cases live : h.live = true
    · rw [if_pos live] at done
      obtain ⟨rest, restEq, same⟩ := Option.map_eq_some_iff.mp done
      exact Or.inr (Or.inl ⟨spent, live, rest, restEq, same.symm⟩)
    · rw [if_neg live] at done
      obtain ⟨filled, filledEq, rest⟩ := Option.bind_eq_some_iff.mp done
      have enough := enough_of_fillFat filledEq
      rw [fillFat_of_enough enough] at filledEq
      obtain rfl := Option.some.inj filledEq
      obtain ⟨rest, restEq, same⟩ := Option.map_eq_some_iff.mp rest
      exact Or.inr (Or.inr ⟨spent, live, enough, rest, restEq, same.symm⟩)

/-- The entries of other files stay as they are. -/
theorem filter_other {names : List Byte × List Byte} (other : entryNames stem ext ≠ names)
    (headers : List MDHeader) : ∀ {headers' : List MDHeader} {extent : Nat} {chain : List Nat}
      {remaining : Nat}, allocateHeaders stem ext headers extent chain remaining = some headers' →
      headers'.filter (belongs names) = headers.filter (belongs names) := by
  induction headers with
  | nil =>
    intro headers' extent chain remaining done
    obtain rfl := Option.some.inj done
    rfl
  | cons h headers inductionHypothesis =>
    intro headers' extent chain remaining done
    rcases allocateHeaders_cons done with ⟨-, rfl⟩ | ⟨-, -, rest, restEq, rfl⟩ |
      ⟨-, free, -, rest, restEq, rfl⟩
    · rfl
    · rw [List.filter_cons, List.filter_cons, inductionHypothesis restEq]
    · have mine : ¬ belongs names (proto stem ext extent remaining
          (firstSlots chain remaining)) = true := by
        rw [belongs_proto, decide_eq_true_eq]
        exact other
      have free' : ¬ belongs names h = true := by
        rw [belongs_of_free free]
        exact Bool.false_ne_true
      rw [List.filter_cons_of_neg mine, List.filter_cons_of_neg free', inductionHypothesis restEq]

/-- A new file gets the free entries in their order. -/
theorem filter_own (headers : List MDHeader) :
    ∀ {headers' : List MDHeader} {extent : Nat} {chain : List Nat} {remaining : Nat},
      allocateHeaders stem ext headers extent chain remaining = some headers' →
      headers.filter (belongs (entryNames stem ext)) = [] →
      headers'.filter (belongs (entryNames stem ext)) =
        extents stem ext (freeEntries headers) extent chain remaining := by
  induction headers with
  | nil =>
    intro headers' extent chain remaining done _
    obtain rfl := Option.some.inj done
    rfl
  | cons h headers inductionHypothesis =>
    intro headers' extent chain remaining done fresh
    have freshHere : ¬ belongs (entryNames stem ext) h = true := fun mine =>
      List.filter_eq_nil_iff.mp fresh h List.mem_cons_self mine
    have freshRest : headers.filter (belongs (entryNames stem ext)) = [] := by
      rw [List.filter_cons_of_neg freshHere] at fresh
      exact fresh
    rcases allocateHeaders_cons done with ⟨spent, rfl⟩ | ⟨-, live, rest, restEq, rfl⟩ |
      ⟨more, free, -, rest, restEq, rfl⟩
    · rw [fresh, spent, extents_zero]
    · have count : freeEntries (h :: headers) = freeEntries headers :=
        List.countP_cons_of_neg (by rw [live]; decide)
      rw [List.filter_cons_of_neg freshHere, inductionHypothesis restEq freshRest, count]
    · have count : freeEntries (h :: headers) = freeEntries headers + 1 :=
        List.countP_cons_of_pos (by rw [Bool.not_eq_true] at free; rw [free]; rfl)
      have mine : belongs (entryNames stem ext) (proto stem ext extent remaining
          (firstSlots chain remaining)) = true := by
        rw [belongs_proto]
        exact decide_eq_true rfl
      rw [List.filter_cons_of_pos mine, inductionHypothesis restEq freshRest, count,
        extents_succ _ _ _ _ _ more]

/-- With enough free entries the whole chain is used. -/
theorem blocksOf_le_of_room (headers : List MDHeader) :
    ∀ {headers' : List MDHeader} {extent : Nat} {chain : List Nat} {remaining : Nat},
      allocateHeaders stem ext headers extent chain remaining = some headers' →
      remaining ≤ 16384 * freeEntries headers → blocksOf remaining ≤ chain.length := by
  induction headers with
  | nil =>
    intro headers' extent chain remaining _ room
    have none : freeEntries [] = 0 := rfl
    rw [none] at room
    unfold blocksOf
    omega
  | cons h headers inductionHypothesis =>
    intro headers' extent chain remaining done room
    rcases allocateHeaders_cons done with ⟨spent, -⟩ | ⟨-, live, rest, restEq, -⟩ |
      ⟨-, free, enough, rest, restEq, -⟩
    · unfold blocksOf
      omega
    · have count : freeEntries (h :: headers) = freeEntries headers :=
        List.countP_cons_of_neg (by rw [live]; decide)
      exact inductionHypothesis restEq (count ▸ room)
    · have count : freeEntries (h :: headers) = freeEntries headers + 1 :=
        List.countP_cons_of_pos (by rw [Bool.not_eq_true] at free; rw [free]; rfl)
      have later := inductionHypothesis restEq (by omega)
      rw [List.length_drop] at later
      unfold inEntry blocksOf at enough later
      unfold blocksOf
      omega

/-- The numbers of a chain fit a slot and are not zero. -/
structure Fit (chain : List Nat) : Prop where
  /-- They fit a slot. -/
  small : ∀ c ∈ chain, c < 2 ^ 16
  /-- None is zero. -/
  nonzero : ∀ c ∈ chain, c ≠ 0

theorem Fit.drop {chain : List Nat} (fit : Fit chain) (count : Nat) : Fit (chain.drop count) :=
  ⟨fun c mem => fit.small c (List.mem_of_mem_drop mem),
    fun c mem => fit.nonzero c (List.mem_of_mem_drop mem)⟩

theorem slots_firstSlots {chain : List Nat} {extent remaining : Nat} (fit : Fit chain)
    (enough : inEntry remaining ≤ chain.length) :
    slots (proto stem ext extent remaining (firstSlots chain remaining)) =
      firstSlots chain remaining := by
  have eight : inEntry remaining ≤ 8 := Nat.min_le_left _ _
  refine slots_proto ?_ fun c mem => ?_
  · unfold firstSlots
    rw [List.length_append, List.length_take, List.length_replicate]
    omega
  · rcases List.mem_append.mp mem with inChain | zero
    · exact fit.small c (List.mem_of_mem_take inChain)
    · rw [List.eq_of_mem_replicate zero]
      decide

/-- The blocks that entries name. -/
def blocks (headers : List MDHeader) : List Nat := (fatEntries headers).filter (· ≠ 0)

theorem blocks_cons_live {h : MDHeader} (live : h.live = true) (headers : List MDHeader) :
    blocks (h :: headers) = (slots h).filter (· ≠ 0) ++ blocks headers := by
  unfold blocks fatEntries
  rw [List.filter_cons_of_pos live, List.flatMap_cons, List.filter_append]

theorem blocks_cons_free {h : MDHeader} (free : ¬ h.live = true) (headers : List MDHeader) :
    blocks (h :: headers) = blocks headers := by
  unfold blocks fatEntries
  rw [List.filter_cons_of_neg free]

theorem filter_firstSlots {chain : List Nat} {remaining : Nat} (fit : Fit chain) :
    (firstSlots chain remaining).filter (· ≠ 0) = chain.take (inEntry remaining) := by
  unfold firstSlots
  rw [List.filter_append, List.filter_eq_self.mpr fun c mem =>
      decide_eq_true (fit.nonzero c (List.mem_of_mem_take mem)),
    List.filter_eq_nil_iff.mpr fun c mem => by
      rw [List.eq_of_mem_replicate mem]
      decide, List.append_nil]

/-- The blocks in use are those from before and some of the chain. -/
theorem perm_blocks (headers : List MDHeader) :
    ∀ {headers' : List MDHeader} {extent : Nat} {chain : List Nat} {remaining : Nat},
      allocateHeaders stem ext headers extent chain remaining = some headers' → Fit chain →
      ∃ count, (blocks headers').Perm (blocks headers ++ chain.take count) := by
  induction headers with
  | nil =>
    intro headers' extent chain remaining done _
    obtain rfl := Option.some.inj done
    exact ⟨0, .refl _⟩
  | cons h headers inductionHypothesis =>
    intro headers' extent chain remaining done fit
    rcases allocateHeaders_cons done with ⟨-, rfl⟩ | ⟨-, live, rest, restEq, rfl⟩ |
      ⟨-, free, enough, rest, restEq, rfl⟩
    · exact ⟨0, by rw [List.take_zero, List.append_nil]⟩
    · obtain ⟨count, perm⟩ := inductionHypothesis restEq fit
      refine ⟨count, ?_⟩
      rw [blocks_cons_live live, blocks_cons_live live, List.append_assoc]
      exact perm.append_left _
    · obtain ⟨count, perm⟩ := inductionHypothesis restEq (fit.drop _)
      refine ⟨inEntry remaining + count, ?_⟩
      rw [blocks_cons_free free, blocks_cons_live rfl, slots_firstSlots fit enough,
        filter_firstSlots fit, List.take_add]
      refine (perm.append_left _).trans ?_
      rw [← List.append_assoc, ← List.append_assoc]
      exact List.perm_append_comm.append_right _

end Loop

/-! ## Finding a file -/

theorem loadLoop_mine {names : List Byte × List Byte} {h : MDHeader}
    (mine : belongs names h = true) (headers : List MDHeader) (chain : List Nat) :
    loadLoop names (h :: headers) chain =
      if h.records ≠ 0x80 then
        (chain ++ slots h, h.extent.toNat * 2048 * 8 + h.records.toNat * 128)
      else loadLoop names headers (chain ++ slots h) :=
  if_pos mine

theorem loadLoop_other {names : List Byte × List Byte} {h : MDHeader}
    (other : ¬ belongs names h = true) (headers : List MDHeader) (chain : List Nat) :
    loadLoop names (h :: headers) chain = loadLoop names headers chain :=
  if_neg other

/-- Entries of other files do not matter. -/
theorem loadLoop_filter (names : List Byte × List Byte) (headers : List MDHeader) :
    ∀ chain, loadLoop names headers chain =
      loadLoop names (headers.filter (belongs names)) chain := by
  induction headers with
  | nil => exact fun _ => rfl
  | cons h headers inductionHypothesis =>
    intro chain
    by_cases mine : belongs names h = true
    · rw [List.filter_cons_of_pos mine, loadLoop_mine mine, loadLoop_mine mine,
        inductionHypothesis]
    · rw [List.filter_cons_of_neg mine, ← inductionHypothesis, loadLoop_other mine]

/-- The records of so many bytes. -/
abbrev recordsOf (n : Nat) : Nat := (n + 127) / 128

/-- The chain is found again, and the size, unless the last entry is full. -/
theorem loadLoop_extents {stem ext : Name} (room : Nat) :
    ∀ {extent remaining : Nat} {chain : List Nat}, remaining ≤ 16384 * room → 0 < remaining →
      blocksOf remaining = chain.length → Fit chain → extent + room ≤ 256 → ∀ front,
      ∃ zeros, loadLoop (entryNames stem ext) (extents stem ext room extent chain remaining) front =
        (front ++ chain ++ List.replicate zeros 0,
          if recordsOf remaining % 128 = 0 then 0 else extent * 16384 + recordsOf remaining * 128) := by
  induction room with
  | zero =>
    intro extent remaining chain room more
    omega
  | succ room inductionHypothesis =>
    intro extent remaining chain roomy more length fit few front
    have mine : belongs (entryNames stem ext) (proto stem ext extent remaining
        (firstSlots chain remaining)) = true := decide_eq_true rfl
    have enough : inEntry remaining ≤ chain.length := by
      rw [← length]
      exact Nat.min_le_right _ _
    have records : (proto stem ext extent remaining (firstSlots chain remaining)).records =
        BitVec.ofNat 8 (min 0x80 (recordsOf remaining)) := rfl
    have number : (proto stem ext extent remaining (firstSlots chain remaining)).extent.toNat =
        extent := by
      show (BitVec.ofNat 8 extent).toNat = extent
      rw [BitVec.toNat_ofNat]
      exact Nat.mod_eq_of_lt (by omega)
    have count : (BitVec.ofNat 8 (min 0x80 (recordsOf remaining))).toNat =
        min 0x80 (recordsOf remaining) := by
      rw [BitVec.toNat_ofNat]
      exact Nat.mod_eq_of_lt (by omega)
    rw [extents_succ _ _ _ _ _ (Nat.pos_iff_ne_zero.mp more), loadLoop_mine mine,
      slots_firstSlots fit enough, records]
    by_cases full : 0x80 ≤ recordsOf remaining
    · have marked : BitVec.ofNat 8 (min 0x80 (recordsOf remaining)) = (0x80 : Byte) := by
        rw [Nat.min_eq_left full]
        rfl
      rw [marked, if_neg (not_not.mpr rfl)]
      have eight : inEntry remaining = 8 := by
        unfold inEntry blocksOf
        unfold recordsOf at full
        omega
      have slotsEq : firstSlots chain remaining = chain.take 8 := by
        unfold firstSlots
        rw [eight]
        exact List.append_nil _
      rw [slotsEq, eight]
      by_cases last : remaining ≤ 16384
      · have spent : remaining - 16384 = 0 := by omega
        have whole : chain.take 8 = chain := List.take_of_length_le (by
          rw [← length]
          unfold blocksOf
          omega)
        have aligned : recordsOf remaining % 128 = 0 := by
          unfold recordsOf at full ⊢
          omega
        rw [spent, extents_zero, whole, if_pos aligned]
        exact ⟨0, by rw [List.replicate_zero, List.append_nil]; rfl⟩
      · have rest : blocksOf (remaining - 16384) = (chain.drop 8).length := by
          rw [List.length_drop, ← length]
          unfold blocksOf
          omega
        obtain ⟨zeros, found⟩ := inductionHypothesis (by omega) (by omega) rest (fit.drop 8)
          (show extent + 1 + room ≤ 256 by omega) (front ++ chain.take 8)
        have shifted : recordsOf remaining = recordsOf (remaining - 16384) + 128 := by
          unfold recordsOf
          omega
        refine ⟨zeros, found.trans ?_⟩
        rw [List.append_assoc front, List.take_append_drop, shifted, Nat.add_mod_right]
        split
        · rfl
        · exact congrArg (Prod.mk _) (by omega)
    · have below : min 0x80 (recordsOf remaining) = recordsOf remaining :=
        Nat.min_eq_right (Nat.le_of_not_le full)
      have unmarked : BitVec.ofNat 8 (min 0x80 (recordsOf remaining)) ≠ (0x80 : Byte) := by
        intro same
        have value := congrArg BitVec.toNat same
        rw [count, below] at value
        exact full (le_of_eq value.symm)
      have open' : ¬ recordsOf remaining % 128 = 0 := by
        unfold recordsOf at full ⊢
        omega
      have all : inEntry remaining = chain.length := by
        rw [← length]
        unfold inEntry blocksOf
        unfold recordsOf at full
        omega
      rw [if_pos unmarked, count, below, number, if_neg open']
      refine ⟨8 - inEntry remaining, ?_⟩
      unfold firstSlots
      rw [all, List.take_length, List.append_assoc, Nat.mul_assoc extent]

end VectorDebugger.FilesystemImage
