import VectorDebugger.Debugger.ProjectRoundTrip

/-!
# Regions partition memory

The regions that `setRegion` and `removeRegion` leave are in order, so an address lies in one of
them at most, and `classify`, which looks for the first, finds the only one. A new region takes its
addresses from the others and leaves every other address as it was.
-/

namespace VectorDebugger

/-- The region holds the address. -/
def MemoryRegion.Holds (reg : MemoryRegion) (addr : Word) : Prop :=
  reg.start ≤ addr ∧ addr ≤ reg.last

instance (reg : MemoryRegion) (addr : Word) : Decidable (reg.Holds addr) :=
  inferInstanceAs (Decidable (_ ∧ _))

/-- `SymbolDatabase::classify`. -/
def XrefTable.classify (table : XrefTable) (addr : Word) : MemoryRegionType :=
  match table.regions.find? fun r => r.start ≤ addr && addr ≤ r.last with
  | some r => r.type
  | none => .unknown

/-- A call that changes the regions. -/
inductive RegionEdit
  /-- `setRegion`. -/
  | set (start last : Word) (type : MemoryRegionType)
  /-- `removeRegion`. -/
  | remove (start : Word)

/-- Make a call. -/
def XrefTable.edit (table : XrefTable) : RegionEdit → XrefTable
  | .set start last type => (table.setRegion start last type).1
  | .remove start => (table.removeRegion start).1

/-! ### What holds an address -/

/-- What is left of a region holds what the region holds outside the new one. -/
theorem MemoryRegion.outside_holds {reg : MemoryRegion} {start last addr : Word}
    (holds : reg.Holds addr) (away : ¬ (start ≤ addr ∧ addr ≤ last)) :
    ∃ piece ∈ reg.outside start last, piece.Holds addr ∧ piece.type = reg.type := by
  obtain ⟨above, below⟩ := holds
  unfold MemoryRegion.outside
  by_cases clear : reg.last < start ∨ last < reg.start
  · rw [if_pos clear]
    exact ⟨reg, List.mem_singleton_self _, ⟨above, below⟩, rfl⟩
  · rw [if_neg clear]
    by_cases before : addr < start
    · have front : reg.start < start := by bv_omega
      rw [if_pos front]
      have inside : addr ≤ start - 1 := by bv_omega
      exact ⟨_, List.mem_append_left _ (List.mem_singleton_self _), ⟨above, inside⟩, rfl⟩
    · have back : last < reg.last := by bv_omega
      rw [if_pos back]
      have inside : last + 1 ≤ addr := by bv_omega
      exact ⟨_, List.mem_append_right _ (List.mem_singleton_self _), ⟨inside, below⟩, rfl⟩

/-- Two regions in order hold no common address. -/
theorem RegionsOrdered.unique {regions : List MemoryRegion} (ordered : RegionsOrdered regions)
    {one other : MemoryRegion} (first : one ∈ regions) (second : other ∈ regions) {addr : Word}
    (holds : one.Holds addr) (holds' : other.Holds addr) : one = other := by
  have apart : ∀ a b : MemoryRegion, a.Holds addr → b.Holds addr → ¬ a.last < b.start := by
    intro a b inA inB before
    have around : b.start ≤ a.last := BitVec.le_trans inB.1 inA.2
    exact absurd before (BitVec.not_lt.mpr around)
  obtain ⟨i, low, atI⟩ := List.mem_iff_getElem.mp first
  obtain ⟨j, low', atJ⟩ := List.mem_iff_getElem.mp second
  have order := List.pairwise_iff_getElem.mp ordered.order
  rcases Nat.lt_trichotomy i j with before | same | after
  · have gap := order i j low low' before
    rw [atI, atJ] at gap
    exact absurd gap (apart one other holds holds')
  · subst same
    exact atI.symm.trans atJ
  · have gap := order j i low' low after
    rw [atI, atJ] at gap
    exact absurd gap (apart other one holds' holds)

namespace XrefTable

variable {table : XrefTable} {addr : Word}

/-- The type of the region that holds an address is what `classify` returns. -/
theorem classify_of_holds (ordered : RegionsOrdered table.regions) {reg : MemoryRegion}
    (listed : reg ∈ table.regions) (holds : reg.Holds addr) : table.classify addr = reg.type := by
  have here : (reg.start ≤ addr && addr ≤ reg.last) = true := by
    rw [Bool.and_eq_true, decide_eq_true_eq, decide_eq_true_eq]
    exact holds
  unfold classify
  cases found : table.regions.find? fun r => r.start ≤ addr && addr ≤ r.last with
  | none => exact absurd here (List.find?_eq_none.mp found reg listed)
  | some first =>
    have inside := List.find?_some found
    rw [Bool.and_eq_true, decide_eq_true_eq, decide_eq_true_eq] at inside
    rw [ordered.unique (List.mem_of_find?_eq_some found) listed inside holds]

theorem classify_of_not_holds (none' : ∀ reg ∈ table.regions, ¬ reg.Holds addr) :
    table.classify addr = .unknown := by
  unfold classify
  cases found : table.regions.find? fun r => r.start ≤ addr && addr ≤ r.last with
  | none => rfl
  | some first =>
    have inside := List.find?_some found
    rw [Bool.and_eq_true, decide_eq_true_eq, decide_eq_true_eq] at inside
    exact absurd inside (none' first (List.mem_of_find?_eq_some found))

/-- The regions after `setRegion`: what is left of the others, and the new one. -/
theorem mem_setRegion {start last : Word} (bound : start ≤ last) (type : MemoryRegionType)
    (reg : MemoryRegion) : reg ∈ (table.setRegion start last type).1.regions ↔
      (∃ known ∈ table.regions, reg ∈ known.outside start last) ∨
        reg = { start, last, type } := by
  have regions : (table.setRegion start last type).1.regions =
      (table.regions.flatMap (·.outside start last) ++
        [({ start, last, type } : MemoryRegion)]).mergeSort fun a b => a.start ≤ b.start := by
    unfold setRegion
    rw [if_neg (BitVec.not_lt.mpr bound)]
    rfl
  rw [regions, List.mem_mergeSort, List.mem_append, List.mem_flatMap, List.mem_singleton]

/-- A new region has its type, and changes no other address. -/
theorem classify_setRegion (ordered : RegionsOrdered table.regions) {start last : Word}
    (bound : start ≤ last) (type : MemoryRegionType) (addr : Word) :
    (table.setRegion start last type).1.classify addr =
      if start ≤ addr ∧ addr ≤ last then type else table.classify addr := by
  have ordered' := ordered.setRegion start last type
  by_cases inside : start ≤ addr ∧ addr ≤ last
  · rw [if_pos inside]
    exact classify_of_holds ordered' ((mem_setRegion bound type _).mpr (Or.inr rfl)) inside
  · rw [if_neg inside]
    by_cases held : ∃ reg ∈ table.regions, reg.Holds addr
    · obtain ⟨reg, listed, holds⟩ := held
      obtain ⟨piece, left, holds', same⟩ := reg.outside_holds holds inside
      rw [classify_of_holds ordered listed holds, ← same]
      exact classify_of_holds ordered' ((mem_setRegion bound type _).mpr
        (Or.inl ⟨reg, listed, left⟩)) holds'
    · have none' : ∀ reg ∈ table.regions, ¬ reg.Holds addr :=
        fun reg listed holds => held ⟨reg, listed, holds⟩
      rw [classify_of_not_holds none']
      apply classify_of_not_holds
      intro piece listed holds
      rcases (mem_setRegion bound type piece).mp listed with ⟨reg, known, left⟩ | new
      · have spec := MemoryRegion.outside_spec (ordered.bounds reg known) left
        exact none' reg known ⟨BitVec.le_trans spec.1 holds.1,
          BitVec.le_trans holds.2 spec.2.2.1⟩
      · rw [new] at holds
        exact inside holds

/-- One call keeps the regions in order. -/
theorem edit_ordered (ordered : RegionsOrdered table.regions) (edit : RegionEdit) :
    RegionsOrdered (table.edit edit).regions := by
  cases edit with
  | set start last type => exact ordered.setRegion start last type
  | remove start => exact ordered.removeRegion start

theorem edits_ordered (edits : List RegionEdit) :
    ∀ {table : XrefTable}, RegionsOrdered table.regions →
      RegionsOrdered (edits.foldl XrefTable.edit table).regions := by
  induction edits with
  | nil => exact fun ordered => ordered
  | cons edit edits inductionHypothesis =>
    exact fun ordered => inductionHypothesis (edit_ordered ordered edit)

/-- After any calls the regions are in order and apart, and the next region takes its addresses and
no others. -/
theorem regions_partition (edits : List RegionEdit) :
    RegionsOrdered (edits.foldl XrefTable.edit init).regions ∧
      ∀ (start last : Word) (type : MemoryRegionType), start ≤ last → ∀ addr : Word,
        ((edits.foldl XrefTable.edit init).setRegion start last type).1.classify addr =
          if start ≤ addr ∧ addr ≤ last then type
          else (edits.foldl XrefTable.edit init).classify addr := by
  have none' : RegionsOrdered init.regions :=
    ⟨fun _ listed => absurd listed List.not_mem_nil, List.Pairwise.nil⟩
  have ordered := edits_ordered edits none'
  exact ⟨ordered, fun start last type bound addr => classify_setRegion ordered bound type addr⟩

end XrefTable

end VectorDebugger
