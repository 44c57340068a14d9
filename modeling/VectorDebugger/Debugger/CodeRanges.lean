import VectorDebugger.Debugger.CodeSearch
import VectorDebugger.Library.Intervals

/-!
# The ranges of the analysis

`analyzeCodeMulti` and `AsmExporter::rebuildRanges` merge the instructions in address order. The
first keeps the end of a range in 16 bits, so an instruction that runs past the last address gets
an end before its start; the second computes in 32 bits, and cuts the ends when it is done.
-/

namespace VectorDebugger

/-- The ranges are the bytes of the instructions, in order and as long as possible. -/
structure RangesExact (ranges : List CodeRange) (instructions : List AnalyzedInstruction) :
    Prop where
  /-- No range ends before it starts. -/
  ordered : ∀ range ∈ ranges, range.start ≤ range.last
  /-- The ranges are in order, with a gap after each. -/
  separate : ranges.Pairwise fun one other => one.last.toNat + 1 < other.start.toNat
  /-- The ranges contain the bytes of the instructions and no others. -/
  exact : ∀ addr, (∃ range ∈ ranges, range.start ≤ addr ∧ addr ≤ range.last) ↔
    ∃ instr ∈ instructions, instr.Covers addr

namespace AnalyzedInstruction

/-- The instruction ends before the end of memory. -/
def Fits (instr : AnalyzedInstruction) : Prop := instr.address.toNat + instr.size ≤ 0x10000

instance (instr : AnalyzedInstruction) : Decidable instr.Fits :=
  inferInstanceAs (Decidable (_ ≤ _))

/-- The addresses of an instruction, without wrapping. -/
def span (instr : AnalyzedInstruction) : Nat × Nat :=
  (instr.address.toNat, instr.address.toNat + instr.size - 1)

/-- `curEnd`, a 16-bit sum. -/
def curEnd (instr : AnalyzedInstruction) : Word := instr.address + BitVec.ofNat 16 instr.size - 1

/-- An instruction of the disassembler has one to three bytes. -/
def Sized (instr : AnalyzedInstruction) : Prop := 0 < instr.size ∧ instr.size ≤ 3

variable {instr : AnalyzedInstruction}

theorem curEnd_of_fits (sized : instr.Sized) (fits : instr.Fits) :
    instr.curEnd.toNat = instr.span.2 := by
  unfold curEnd span
  unfold Fits at fits
  unfold Sized at sized
  bv_omega

/-- The end of an instruction that wraps is the first or the second byte of memory. -/
theorem curEnd_of_wraps (sized : instr.Sized) (wraps : ¬instr.Fits) :
    instr.curEnd.toNat + 1 < instr.address.toNat := by
  unfold curEnd
  unfold Fits at wraps
  unfold Sized at sized
  bv_omega

theorem covers_iff_of_fits (sized : instr.Sized) (fits : instr.Fits) (addr : Word) :
    instr.Covers addr ↔ instr.span.1 ≤ addr.toNat ∧ addr.toNat ≤ instr.span.2 := by
  unfold Covers span
  unfold Fits at fits
  unfold Sized at sized
  dsimp only
  bv_omega

end AnalyzedInstruction

/-- The range that is kept of 32-bit numbers. -/
def CodeRange.cut (range : Nat × Nat) : CodeRange where
  start := BitVec.ofNat 16 range.1
  last := BitVec.ofNat 16 range.2

/-- The loop of `rebuildRanges`, over instructions in address order. -/
def rangesOf : List AnalyzedInstruction → List CodeRange
  | [] => []
  | first :: rest =>
    (Intervals.merge first.span (rest.map AnalyzedInstruction.span)).map CodeRange.cut

/-- `AsmExporter::rebuildRanges`. -/
def AsmExporter.rebuildRanges (exporter : AsmExporter) : List CodeRange :=
  rangesOf (exporter.runAnalysis.insertionSort fun a b => a.address ≤ b.address)

/-! ### The merge of the analysis -/

/-- A range with its numbers. -/
def CodeRange.span (range : CodeRange) : Nat × Nat := (range.start.toNat, range.last.toNat)

section Merge

variable {rest : List AnalyzedInstruction} {open' : CodeRange}

theorem codeRangesFrom_cons (inst : AnalyzedInstruction) :
    codeRangesFrom open' (inst :: rest) =
      if inst.address.toNat ≤ open'.last.toNat + 1 then
        codeRangesFrom (if inst.curEnd > open'.last then { open' with last := inst.curEnd }
          else open') rest
      else open' :: codeRangesFrom { start := inst.address, last := inst.curEnd } rest := rfl

/-- Among instructions that fit, the 16-bit merge is the merge of intervals. -/
theorem codeRangesFrom_eq_merge (rest : List AnalyzedInstruction) : ∀ open' : CodeRange,
    (∀ instr ∈ rest, instr.Sized) → (∀ instr ∈ rest, instr.Fits) →
      (codeRangesFrom open' rest).map CodeRange.span =
        Intervals.merge open'.span (rest.map AnalyzedInstruction.span) := by
  induction rest with
  | nil => exact fun _ _ _ => rfl
  | cons inst rest inductionHypothesis =>
    intro open' sized fits
    obtain ⟨sizedHere, sizedRest⟩ := List.forall_mem_cons.mp sized
    obtain ⟨fitsHere, fitsRest⟩ := List.forall_mem_cons.mp fits
    have last := AnalyzedInstruction.curEnd_of_fits sizedHere fitsHere
    rw [codeRangesFrom_cons, List.map_cons]
    unfold Intervals.merge
    by_cases touches : inst.address.toNat ≤ open'.last.toNat + 1
    · have touching : inst.span.1 ≤ open'.span.2 + 1 := touches
      rw [if_pos touches, if_pos touching, inductionHypothesis _ sizedRest fitsRest]
      by_cases longer : open'.span.2 < inst.span.2
      · have wider : inst.curEnd > open'.last := by
          rw [gt_iff_lt, BitVec.lt_def, last]
          exact longer
        rw [if_pos longer, if_pos wider]
        unfold CodeRange.span
        rw [last]
      · have inside : ¬inst.curEnd > open'.last := by
          rw [gt_iff_lt, BitVec.lt_def, last]
          exact longer
        rw [if_neg longer, if_neg inside]
    · have beyond : ¬inst.span.1 ≤ open'.span.2 + 1 := touches
      rw [if_neg touches, if_neg beyond, List.map_cons, inductionHypothesis _ sizedRest fitsRest]
      unfold CodeRange.span
      rw [last]
      rfl

/-- An instruction that wraps does not extend a range that it touches. -/
theorem codeRangesFrom_wraps {inst : AnalyzedInstruction} (sized : inst.Sized)
    (wraps : ¬inst.Fits) (touches : inst.address.toNat ≤ open'.last.toNat + 1) :
    codeRangesFrom open' (inst :: rest) = codeRangesFrom open' rest := by
  have last := AnalyzedInstruction.curEnd_of_wraps sized wraps
  have inside : ¬inst.curEnd > open'.last := by
    rw [gt_iff_lt, BitVec.lt_def]
    omega
  rw [codeRangesFrom_cons, if_pos touches, if_neg inside]

/-- An instruction that wraps and opens a range gives it an end before its start. -/
theorem codeRangesFrom_reversed {inst : AnalyzedInstruction} (sized : inst.Sized)
    (wraps : ¬inst.Fits)
    (after : ∀ other ∈ rest, inst.address.toNat < other.address.toNat) :
    ¬∀ range ∈ codeRangesFrom { start := inst.address, last := inst.curEnd } rest,
      range.start ≤ range.last := by
  have last := AnalyzedInstruction.curEnd_of_wraps sized wraps
  have first : { start := inst.address, last := inst.curEnd : CodeRange } ∈
      codeRangesFrom { start := inst.address, last := inst.curEnd } rest := by
    cases rest with
    | nil => exact List.mem_singleton_self _
    | cons other rest =>
      have beyond := after other List.mem_cons_self
      rw [codeRangesFrom_cons, if_neg (by dsimp only; omega)]
      exact List.mem_cons_self
  intro ordered
  have wrong := ordered _ first
  rw [BitVec.le_def] at wrong
  dsimp only at wrong
  omega

/-- The instructions that fit. -/
def fitting (instructions : List AnalyzedInstruction) : List AnalyzedInstruction :=
  instructions.filter (decide ·.Fits)

theorem fitting_cons_of_fits {inst : AnalyzedInstruction} (fits : inst.Fits) :
    fitting (inst :: rest) = inst :: fitting rest :=
  List.filter_cons_of_pos (decide_eq_true fits)

theorem fitting_cons_of_wraps {inst : AnalyzedInstruction} (wraps : ¬inst.Fits) :
    fitting (inst :: rest) = fitting rest :=
  List.filter_cons_of_neg (by rw [decide_eq_true_eq]; exact wraps)

theorem mem_fitting {instr : AnalyzedInstruction} :
    instr ∈ fitting rest ↔ instr ∈ rest ∧ instr.Fits := by
  unfold fitting
  rw [List.mem_filter, decide_eq_true_eq]

/-- In order of address, and no address twice. -/
def InOrder (instructions : List AnalyzedInstruction) : Prop :=
  instructions.Pairwise fun one other => one.address.toNat < other.address.toNat

/-- As long as no range is reversed, instructions that wrap leave no trace. -/
theorem codeRangesFrom_fitting (rest : List AnalyzedInstruction) : ∀ open' : CodeRange,
    (∀ instr ∈ rest, instr.Sized) → InOrder rest →
      (∀ range ∈ codeRangesFrom open' rest, range.start ≤ range.last) →
        codeRangesFrom open' rest = codeRangesFrom open' (fitting rest) := by
  induction rest with
  | nil => exact fun _ _ _ _ => rfl
  | cons inst rest inductionHypothesis =>
    intro open' sized sorted ordered
    obtain ⟨sizedHere, sizedRest⟩ := List.forall_mem_cons.mp sized
    obtain ⟨after, sortedRest⟩ := List.pairwise_cons.mp sorted
    by_cases fits : inst.Fits
    · rw [fitting_cons_of_fits fits, codeRangesFrom_cons, codeRangesFrom_cons]
      rw [codeRangesFrom_cons] at ordered
      by_cases touches : inst.address.toNat ≤ open'.last.toNat + 1
      · rw [if_pos touches] at ordered
        rw [if_pos touches, if_pos touches,
          inductionHypothesis _ sizedRest sortedRest ordered]
      · rw [if_neg touches] at ordered
        rw [if_neg touches, if_neg touches, inductionHypothesis _ sizedRest sortedRest
          (List.forall_mem_cons.mp ordered).2]
    · rw [fitting_cons_of_wraps fits]
      by_cases touches : inst.address.toNat ≤ open'.last.toNat + 1
      · rw [codeRangesFrom_wraps sizedHere fits touches] at ordered ⊢
        exact inductionHypothesis _ sizedRest sortedRest ordered
      · rw [codeRangesFrom_cons, if_neg touches] at ordered
        exact absurd (List.forall_mem_cons.mp ordered).2
          (codeRangesFrom_reversed sizedHere fits after)

/-- Where the bytes of an instruction that wraps belong to others too, it leaves no trace. -/
theorem codeRangesFrom_covered (rest : List AnalyzedInstruction) : ∀ open' : CodeRange,
    (∀ instr ∈ rest, instr.Sized) → InOrder rest →
      (∀ instr ∈ rest, ¬instr.Fits → instr.address.toNat ≤ open'.last.toNat ∨
        ∃ other ∈ rest, other.Fits ∧ other.address.toNat < instr.address.toNat ∧
          instr.address.toNat ≤ other.span.2) →
        codeRangesFrom open' rest = codeRangesFrom open' (fitting rest) := by
  induction rest with
  | nil => exact fun _ _ _ _ => rfl
  | cons inst rest inductionHypothesis =>
    intro open' sized sorted covered
    obtain ⟨sizedHere, sizedRest⟩ := List.forall_mem_cons.mp sized
    obtain ⟨after, sortedRest⟩ := List.pairwise_cons.mp sorted
    by_cases fits : inst.Fits
    · have last := AnalyzedInstruction.curEnd_of_fits sizedHere fits
      -- The range that is open next reaches as far as the old one and as this instruction.
      have next : ∀ wider : CodeRange, inst.span.2 ≤ wider.last.toNat →
          (open'.last.toNat ≤ wider.last.toNat ∨
            open'.last.toNat < inst.address.toNat) →
          codeRangesFrom wider rest = codeRangesFrom wider (fitting rest) := by
        intro wider reach grown
        refine inductionHypothesis wider sizedRest sortedRest fun instr listed wraps => ?_
        have order := after instr listed
        rcases covered instr (List.mem_cons_of_mem _ listed) wraps with
          inside | ⟨other, known, whole, before, reaches⟩
        · exact Or.inl (by omega)
        · rcases List.mem_cons.mp known with here | there
          · rw [here] at reaches
            exact Or.inl (by omega)
          · exact Or.inr ⟨other, there, whole, before, reaches⟩
      rw [fitting_cons_of_fits fits, codeRangesFrom_cons, codeRangesFrom_cons]
      by_cases touches : inst.address.toNat ≤ open'.last.toNat + 1
      · rw [if_pos touches, if_pos touches]
        by_cases longer : inst.curEnd > open'.last
        · rw [if_pos longer]
          rw [gt_iff_lt, BitVec.lt_def] at longer
          exact next _ (by dsimp only; omega) (Or.inl (by dsimp only; omega))
        · rw [if_neg longer]
          rw [gt_iff_lt, BitVec.lt_def] at longer
          exact next _ (by omega) (Or.inl (Nat.le_refl _))
      · rw [if_neg touches, if_neg touches, next _ (by dsimp only; omega) (Or.inr (by omega))]
    · rw [fitting_cons_of_wraps fits]
      have inside : inst.address.toNat ≤ open'.last.toNat := by
        rcases covered inst List.mem_cons_self fits with inside | ⟨other, known, -, before, -⟩
        · exact inside
        · rcases List.mem_cons.mp known with here | there
          · rw [here] at before
            omega
          · have order := after other there
            omega
      rw [codeRangesFrom_wraps sizedHere fits (by omega)]
      refine inductionHypothesis _ sizedRest sortedRest fun instr listed wraps => ?_
      rcases covered instr (List.mem_cons_of_mem _ listed) wraps with
        inside | ⟨other, known, whole, before, reaches⟩
      · exact Or.inl inside
      · rcases List.mem_cons.mp known with here | there
        · rw [here] at whole
          exact absurd whole fits
        · exact Or.inr ⟨other, there, whole, before, reaches⟩

end Merge

/-! ### When the ranges are exact -/

/-- Every byte of an instruction that wraps is a byte of one that fits. -/
def WrapsCovered (instructions : List AnalyzedInstruction) : Prop :=
  ∀ instr ∈ instructions, ¬instr.Fits → ∀ addr, instr.Covers addr →
    ∃ other ∈ instructions, other.Fits ∧ other.Covers addr

section Exact

variable {instructions : List AnalyzedInstruction} {ranges : List CodeRange}

/-- Merged spans of instructions that fit are exact ranges. -/
theorem RangesExact.of_merged (sized : ∀ instr ∈ instructions, instr.Sized)
    (fits : ∀ instr ∈ instructions, instr.Fits)
    (merged : Intervals.Merged (instructions.map AnalyzedInstruction.span)
      (ranges.map CodeRange.span)) : RangesExact ranges instructions := by
  constructor
  · intro range listed
    exact merged.ordered range.span (List.mem_map_of_mem listed)
  · exact List.pairwise_map.mp merged.separate
  · intro addr
    have covered := merged.covered addr.toNat
    have inRanges : Intervals.Covered (ranges.map CodeRange.span) addr.toNat ↔
        ∃ range ∈ ranges, range.start ≤ addr ∧ addr ≤ range.last := by
      constructor
      · rintro ⟨span, listed, within⟩
        obtain ⟨range, known, rfl⟩ := List.mem_map.mp listed
        exact ⟨range, known, within⟩
      · rintro ⟨range, known, within⟩
        exact ⟨range.span, List.mem_map_of_mem known, within⟩
    have inCode : Intervals.Covered (instructions.map AnalyzedInstruction.span) addr.toNat ↔
        ∃ instr ∈ instructions, instr.Covers addr := by
      have covers := fun instr listed => AnalyzedInstruction.covers_iff_of_fits
        (sized instr listed) (fits instr listed) addr
      constructor
      · rintro ⟨span, listed, within⟩
        obtain ⟨instr, known, rfl⟩ := List.mem_map.mp listed
        exact ⟨instr, known, (covers instr known).mpr within⟩
      · rintro ⟨instr, known, within⟩
        exact ⟨instr.span, List.mem_map_of_mem known, (covers instr known).mp within⟩
    rw [← inRanges, ← inCode]
    exact covered

theorem RangesExact.empty : RangesExact [] [] where
  ordered := List.forall_mem_nil _
  separate := List.Pairwise.nil
  exact := by
    intro addr
    constructor
    · rintro ⟨range, listed, -⟩
      cases listed
    · rintro ⟨instr, listed, -⟩
      cases listed

theorem spans_ordered (sized : ∀ instr ∈ instructions, instr.Sized) :
    ∀ span ∈ instructions.map AnalyzedInstruction.span, span.1 ≤ span.2 := by
  intro span listed
  obtain ⟨instr, known, rfl⟩ := List.mem_map.mp listed
  have size := (sized instr known).1
  unfold AnalyzedInstruction.span
  dsimp only
  omega

theorem InOrder.spans (sorted : InOrder instructions) :
    (instructions.map AnalyzedInstruction.span).Pairwise fun one other => one.1 ≤ other.1 :=
  List.pairwise_map.mpr (List.Pairwise.imp Nat.le_of_lt sorted)

/-- The spans of a nonempty list of instructions, merged. -/
theorem merged_spans {first : AnalyzedInstruction} {rest : List AnalyzedInstruction}
    (sized : ∀ instr ∈ first :: rest, instr.Sized) (sorted : InOrder (first :: rest)) :
    Intervals.Merged ((first :: rest).map AnalyzedInstruction.span)
      (Intervals.merge first.span (rest.map AnalyzedInstruction.span)) := by
  have ordered := List.forall_mem_cons.mp (spans_ordered sized)
  exact (Intervals.merge_spec _ first.span ordered.1 sorted.spans ordered.2).1

/-- Among instructions that fit, the ranges are exact. -/
theorem codeRanges_exact_of_fits (sized : ∀ instr ∈ instructions, instr.Sized)
    (sorted : InOrder instructions) (fits : ∀ instr ∈ instructions, instr.Fits) :
    RangesExact (codeRanges instructions) instructions := by
  cases instructions with
  | nil => exact RangesExact.empty
  | cons first rest =>
    refine RangesExact.of_merged sized fits ?_
    have last := AnalyzedInstruction.curEnd_of_fits (sized first List.mem_cons_self)
      (fits first List.mem_cons_self)
    have merge := codeRangesFrom_eq_merge rest { start := first.address, last := first.curEnd }
      (List.forall_mem_cons.mp sized).2 (List.forall_mem_cons.mp fits).2
    have opened : CodeRange.span { start := first.address, last := first.curEnd } =
        first.span := by
      unfold CodeRange.span
      rw [last]
      rfl
    rw [opened] at merge
    have whole := merged_spans sized sorted
    rw [← merge] at whole
    exact whole

theorem InOrder.address_ne (sorted : InOrder instructions) {one other : AnalyzedInstruction}
    (first : one ∈ instructions) (second : other ∈ instructions) (unlike : one ≠ other) :
    one.address.toNat ≠ other.address.toNat := by
  have symmetric : Std.Symm fun one other : AnalyzedInstruction =>
      one.address.toNat ≠ other.address.toNat := ⟨fun _ _ => Ne.symm⟩
  exact (List.Pairwise.imp Nat.ne_of_lt sorted).forall first second unlike

theorem InOrder.fitting (sorted : InOrder instructions) : InOrder (fitting instructions) :=
  List.Pairwise.filter _ sorted

/-- The ranges of the instructions that fit are exact for them. -/
theorem codeRanges_fitting_exact (sized : ∀ instr ∈ instructions, instr.Sized)
    (sorted : InOrder instructions) :
    RangesExact (codeRanges (fitting instructions)) (fitting instructions) :=
  codeRanges_exact_of_fits (fun instr listed => sized instr (mem_fitting.mp listed).1)
    sorted.fitting (fun _ listed => (mem_fitting.mp listed).2)

/-- Exact ranges see only the instructions that fit. -/
theorem codeRanges_eq_of_exact (sized : ∀ instr ∈ instructions, instr.Sized)
    (sorted : InOrder instructions) (exact' : RangesExact (codeRanges instructions) instructions) :
    codeRanges instructions = codeRanges (fitting instructions) := by
  cases instructions with
  | nil => rfl
  | cons first rest =>
    obtain ⟨sizedFirst, sizedRest⟩ := List.forall_mem_cons.mp sized
    obtain ⟨after, sortedRest⟩ := List.pairwise_cons.mp sorted
    by_cases fits : first.Fits
    · rw [fitting_cons_of_fits fits]
      exact codeRangesFrom_fitting rest _ sizedRest sortedRest exact'.ordered
    · exact absurd exact'.ordered (codeRangesFrom_reversed sizedFirst fits after)

/-- Covered wrapping instructions leave no trace in the ranges. -/
theorem codeRanges_eq_of_covered (sized : ∀ instr ∈ instructions, instr.Sized)
    (sorted : InOrder instructions) (covered : WrapsCovered instructions) :
    codeRanges instructions = codeRanges (fitting instructions) := by
  -- The address of an instruction that wraps is inside one that starts before it and fits.
  have inside : ∀ instr ∈ instructions, ¬instr.Fits → ∃ other ∈ instructions, other.Fits ∧
      other.address.toNat < instr.address.toNat ∧ instr.address.toNat ≤ other.span.2 := by
    intro instr listed wraps
    obtain ⟨other, known, fits, covers⟩ := covered instr listed wraps instr.address
      (AnalyzedInstruction.covers_self (sized instr listed).1)
    have within := (AnalyzedInstruction.covers_iff_of_fits (sized other known) fits _).mp covers
    have unlike : other ≠ instr := by
      rintro rfl
      exact wraps fits
    have apart := sorted.address_ne known listed unlike
    exact ⟨other, known, fits, Nat.lt_of_le_of_ne within.1 apart, within.2⟩
  cases instructions with
  | nil => rfl
  | cons first rest =>
    obtain ⟨sizedFirst, sizedRest⟩ := List.forall_mem_cons.mp sized
    obtain ⟨after, sortedRest⟩ := List.pairwise_cons.mp sorted
    have fits : first.Fits := by
      by_contra wraps
      obtain ⟨other, known, -, before, -⟩ := inside first List.mem_cons_self wraps
      rcases List.mem_cons.mp known with here | there
      · rw [here] at before
        omega
      · have order := after other there
        omega
    have last := AnalyzedInstruction.curEnd_of_fits sizedFirst fits
    rw [fitting_cons_of_fits fits]
    refine codeRangesFrom_covered rest _ sizedRest sortedRest fun instr listed wraps => ?_
    obtain ⟨other, known, whole, before, reaches⟩ :=
      inside instr (List.mem_cons_of_mem _ listed) wraps
    rcases List.mem_cons.mp known with here | there
    · rw [here, ← last] at reaches
      exact Or.inl reaches
    · exact Or.inr ⟨other, there, whole, before, reaches⟩

/-- The ranges are exact when every byte of an instruction that wraps is a byte of one that
fits, and only then. -/
theorem codeRanges_exact_iff (sized : ∀ instr ∈ instructions, instr.Sized)
    (sorted : InOrder instructions) :
    RangesExact (codeRanges instructions) instructions ↔ WrapsCovered instructions := by
  have whole := codeRanges_fitting_exact sized sorted
  constructor
  · intro exact' instr listed _ addr covers
    have seen := (exact'.exact addr).mpr ⟨instr, listed, covers⟩
    rw [codeRanges_eq_of_exact sized sorted exact'] at seen
    obtain ⟨other, known, covered⟩ := (whole.exact addr).mp seen
    exact ⟨other, (mem_fitting.mp known).1, (mem_fitting.mp known).2, covered⟩
  · intro covered
    rw [codeRanges_eq_of_covered sized sorted covered]
    refine ⟨whole.ordered, whole.separate, fun addr => (whole.exact addr).trans ⟨?_, ?_⟩⟩
    · rintro ⟨instr, listed, covers⟩
      exact ⟨instr, (mem_fitting.mp listed).1, covers⟩
    · rintro ⟨instr, listed, covers⟩
      by_cases fits : instr.Fits
      · exact ⟨instr, mem_fitting.mpr ⟨listed, fits⟩, covers⟩
      · obtain ⟨other, known, whole, covered⟩ := covered instr listed fits addr covers
        exact ⟨other, mem_fitting.mpr ⟨known, whole⟩, covered⟩

end Exact

/-! ### The instructions that are decoded -/

/-- Some pass of the loop decodes the instruction at an address. -/
def DecodedAt (entryPoints : List Word) (readByte : DisasmReadFn) (maxInstructions : Nat)
    (addr : Word) : Prop :=
  ∃ count, (CodeAnalysis.afterPasses entryPoints readByte maxInstructions count).Decodes
    maxInstructions addr

section Decoded

variable (entryPoints : List Word) (readByte : DisasmReadFn) (maxInstructions : Nat)

theorem decodedAt_of_afterPasses (count : Nat) : ∀ instr ∈
    (CodeAnalysis.afterPasses entryPoints readByte maxInstructions count).instructions,
      ∃ addr, DecodedAt entryPoints readByte maxInstructions addr ∧
        instr = (disassemble addr readByte).analyzed := by
  induction count with
  | zero => exact fun _ listed => nomatch listed
  | succ count inductionHypothesis =>
    intro instr listed
    have next : CodeAnalysis.afterPasses entryPoints readByte maxInstructions (count + 1) =
        (CodeAnalysis.afterPasses entryPoints readByte maxInstructions count).pass readByte
          maxInstructions := Function.iterate_succ_apply' _ _ _
    rw [next] at listed
    obtain ⟨-, same⟩ | ⟨addr, rest, -, -, ⟨-, same⟩ | ⟨start, -, same⟩ | ⟨decodes, same⟩⟩ :=
      @CodeAnalysis.pass_cases readByte maxInstructions
        (CodeAnalysis.afterPasses entryPoints readByte maxInstructions count)
    · rw [same] at listed
      exact inductionHypothesis instr listed
    · rw [same] at listed
      exact inductionHypothesis instr listed
    · rw [same] at listed
      exact inductionHypothesis instr listed
    · rw [same] at listed
      rcases List.mem_append.mp listed with known | new
      · exact inductionHypothesis instr known
      · exact ⟨addr, ⟨count, decodes⟩, List.mem_singleton.mp new⟩

/-- The reported instructions are those that some pass decodes. -/
theorem mem_reported_iff (instr : AnalyzedInstruction) :
    instr ∈ (analyzeCodeMulti entryPoints readByte maxInstructions).instructions ↔
      ∃ addr, DecodedAt entryPoints readByte maxInstructions addr ∧
        instr = (disassemble addr readByte).analyzed := by
  rw [mem_reported]
  constructor
  · intro listed
    rw [finalAnalysis_iterate] at listed
    exact decodedAt_of_afterPasses entryPoints readByte maxInstructions _ instr listed
  · rintro ⟨addr, ⟨count, decodes⟩, rfl⟩
    refine CodeAnalysis.afterPasses_subset entryPoints readByte maxInstructions (count + 1) ?_
    have next : CodeAnalysis.afterPasses entryPoints readByte maxInstructions (count + 1) =
        (CodeAnalysis.afterPasses entryPoints readByte maxInstructions count).pass readByte
          maxInstructions := Function.iterate_succ_apply' _ _ _
    rw [next]
    exact CodeAnalysis.mem_of_decodes decodes

theorem reported_sized : ∀ instr ∈
    (analyzeCodeMulti entryPoints readByte maxInstructions).instructions, instr.Sized := by
  intro instr listed
  exact (finalAnalysis_searched entryPoints readByte maxInstructions).size
    ((mem_reported entryPoints readByte maxInstructions instr).mp listed)

theorem reported_inOrder :
    InOrder (analyzeCodeMulti entryPoints readByte maxInstructions).instructions := by
  have total : Std.Total fun a b : AnalyzedInstruction => a.address ≤ b.address :=
    ⟨fun a b => Nat.le_total a.address.toNat b.address.toNat⟩
  have transitive : IsTrans AnalyzedInstruction fun a b => a.address ≤ b.address :=
    ⟨fun _ _ _ first second => Nat.le_trans first second⟩
  have ordered := List.pairwise_insertionSort
    (fun a b : AnalyzedInstruction => a.address ≤ b.address)
    (finalAnalysis entryPoints readByte maxInstructions).instructions
  have once := (CodeAnalysis.analyzeCodeMulti_instructions entryPoints readByte
    maxInstructions).1
  refine (ordered.and once).imp fun both => ?_
  exact Nat.lt_of_le_of_ne both.1 fun same => both.2 (BitVec.eq_of_toNat_eq same)

/-- The bytes of decoded instructions that wrap belong to decoded instructions that fit. -/
def WrappedBytesShared : Prop :=
  ∀ addr, DecodedAt entryPoints readByte maxInstructions addr →
    ¬(disassemble addr readByte).analyzed.Fits →
      ∀ byte, (disassemble addr readByte).analyzed.Covers byte →
        ∃ other, DecodedAt entryPoints readByte maxInstructions other ∧
          (disassemble other readByte).analyzed.Fits ∧
            (disassemble other readByte).analyzed.Covers byte

theorem wrapsCovered_iff :
    WrapsCovered (analyzeCodeMulti entryPoints readByte maxInstructions).instructions ↔
      WrappedBytesShared entryPoints readByte maxInstructions := by
  have reported := mem_reported_iff entryPoints readByte maxInstructions
  constructor
  · intro covered addr decoded wraps byte covers
    obtain ⟨other, listed, fits, shares⟩ :=
      covered _ ((reported _).mpr ⟨addr, decoded, rfl⟩) wraps byte covers
    obtain ⟨next, known, rfl⟩ := (reported other).mp listed
    exact ⟨next, known, fits, shares⟩
  · intro shared instr listed wraps byte covers
    obtain ⟨addr, decoded, rfl⟩ := (reported instr).mp listed
    obtain ⟨other, known, fits, shares⟩ := shared addr decoded wraps byte covers
    exact ⟨_, (reported _).mpr ⟨other, known, rfl⟩, fits, shares⟩

end Decoded

/-! ### The ranges of the export -/

namespace AsmExporter

variable (exporter : AsmExporter)

theorem runAnalysis_inOrder : InOrder exporter.runAnalysis :=
  List.Pairwise.filter _ (reported_inOrder _ _ _)

/-- The clipped instructions are in order already. -/
theorem sorted_eq : (exporter.runAnalysis.insertionSort fun a b => a.address ≤ b.address) =
    exporter.runAnalysis :=
  List.Pairwise.insertionSort_eq (List.Pairwise.imp Nat.le_of_lt exporter.runAnalysis_inOrder)

theorem runAnalysis_sized : ∀ instr ∈ exporter.runAnalysis, instr.Sized :=
  fun instr kept => reported_sized _ _ _ instr (List.mem_filter.mp kept).1

end AsmExporter

section Cut

variable {first : AnalyzedInstruction} {rest : List AnalyzedInstruction}

/-- A range that fits in 16 bits is not cut. -/
theorem CodeRange.span_cut {range : Nat × Nat} (start : range.1 < 0x10000)
    (last : range.2 < 0x10000) : (CodeRange.cut range).span = range := by
  unfold CodeRange.cut CodeRange.span
  rw [BitVec.toNat_ofNat, BitVec.toNat_ofNat, Nat.mod_eq_of_lt start, Nat.mod_eq_of_lt last]

/-- A merged range starts at an instruction and ends at the last byte of one. -/
theorem merged_bounds (sized : ∀ instr ∈ first :: rest, instr.Sized)
    (sorted : InOrder (first :: rest)) {range : Nat × Nat}
    (listed : range ∈ Intervals.merge first.span (rest.map AnalyzedInstruction.span)) :
    range.1 < 0x10000 ∧ ∃ instr ∈ first :: rest, range.2 ≤ instr.span.2 := by
  have merged := merged_spans sized sorted
  obtain ⟨span, known, start⟩ := merged.starts range listed
  obtain ⟨instr, -, rfl⟩ := List.mem_map.mp known
  obtain ⟨reach, known, -, last⟩ := (merged.covered range.2).mp
    ⟨range, listed, merged.ordered range listed, Nat.le_refl _⟩
  obtain ⟨ending, kept, rfl⟩ := List.mem_map.mp known
  refine ⟨?_, ending, kept, last⟩
  rw [← start]
  exact instr.address.isLt

/-- With instructions that all fit, no end is cut. -/
theorem rangesOf_exact (sized : ∀ instr ∈ first :: rest, instr.Sized)
    (sorted : InOrder (first :: rest)) (fits : ∀ instr ∈ first :: rest, instr.Fits) :
    RangesExact (rangesOf (first :: rest)) (first :: rest) := by
  refine RangesExact.of_merged sized fits ?_
  have merged := merged_spans sized sorted
  have uncut : (rangesOf (first :: rest)).map CodeRange.span =
      Intervals.merge first.span (rest.map AnalyzedInstruction.span) := by
    unfold rangesOf
    rw [List.map_map]
    refine (List.map_congr_left fun range listed => ?_).trans (List.map_id _)
    obtain ⟨start, instr, known, last⟩ := merged_bounds sized sorted listed
    have whole := fits instr known
    have size := sized instr known
    unfold AnalyzedInstruction.Fits at whole
    unfold AnalyzedInstruction.Sized at size
    unfold AnalyzedInstruction.span at last
    dsimp only at last
    exact CodeRange.span_cut start (by omega)
  rw [uncut]
  exact merged

/-- The end of a range that runs past the last address is cut to the first bytes of memory. -/
theorem not_rangesOf_exact (sized : ∀ instr ∈ first :: rest, instr.Sized)
    (sorted : InOrder (first :: rest)) {instr : AnalyzedInstruction}
    (known : instr ∈ first :: rest) (wraps : ¬instr.Fits) :
    ¬RangesExact (rangesOf (first :: rest)) (first :: rest) := by
  intro exact'
  have merged := merged_spans sized sorted
  have size := sized instr known
  obtain ⟨range, listed, low, high⟩ := (merged.covered instr.span.2).mpr
    ⟨instr.span, List.mem_map_of_mem known, by
      unfold AnalyzedInstruction.Sized at size
      unfold AnalyzedInstruction.span
      dsimp only
      omega, Nat.le_refl _⟩
  obtain ⟨start, ending, kept, last⟩ := merged_bounds sized sorted listed
  have sizeEnd := sized ending kept
  have bound := ending.address.isLt
  have inside : (CodeRange.cut range) ∈ rangesOf (first :: rest) :=
    List.mem_map_of_mem listed
  have ordered := exact'.ordered _ inside
  unfold AnalyzedInstruction.Fits at wraps
  unfold AnalyzedInstruction.Sized at size sizeEnd
  unfold AnalyzedInstruction.span at high last
  dsimp only at high last
  rw [BitVec.le_def] at ordered
  unfold CodeRange.cut at ordered
  rw [BitVec.toNat_ofNat, BitVec.toNat_ofNat, Nat.mod_eq_of_lt start] at ordered
  -- The range is all of memory, but what is left of it is no more than two bytes.
  have middle : Intervals.Covered ((first :: rest).map AnalyzedInstruction.span) 0x8000 :=
    (merged.covered 0x8000).mp ⟨range, listed, by omega, by omega⟩
  obtain ⟨span, listing, from', upto⟩ := middle
  obtain ⟨code, here, rfl⟩ := List.mem_map.mp listing
  have codeSize := sized code here
  have covers : code.Covers 0x8000 := by
    unfold AnalyzedInstruction.Covers
    unfold AnalyzedInstruction.Sized at codeSize
    unfold AnalyzedInstruction.span at from' upto
    bv_omega
  obtain ⟨found, showing, before, after⟩ := (exact'.exact 0x8000).mpr ⟨code, here, covers⟩
  obtain ⟨other, member, rfl⟩ := List.mem_map.mp showing
  have otherStart := (merged_bounds sized sorted member).1
  rw [BitVec.le_def] at before after
  unfold CodeRange.cut at before after
  rw [BitVec.toNat_ofNat] at before after
  by_cases same : other = range
  · rw [same] at after
    change 0x8000 ≤ _ at after
    omega
  · have symmetric : Std.Symm fun one other : Nat × Nat =>
        one.2 + 1 < other.1 ∨ other.2 + 1 < one.1 := ⟨fun _ _ => Or.symm⟩
    have apart := (List.Pairwise.imp Or.inl merged.separate : List.Pairwise
      (fun one other : Nat × Nat => one.2 + 1 < other.1 ∨ other.2 + 1 < one.1) _).forall
        member listed same
    omega

end Cut

/-- The rebuilt ranges are exact when no clipped instruction runs past the last address, and only
then. -/
theorem AsmExporter.rebuildRanges_exact_iff (exporter : AsmExporter) :
    RangesExact exporter.rebuildRanges exporter.runAnalysis ↔
      ∀ instr ∈ exporter.runAnalysis, instr.Fits := by
  have sized := exporter.runAnalysis_sized
  have sorted := exporter.runAnalysis_inOrder
  unfold rebuildRanges
  rw [exporter.sorted_eq]
  generalize exporter.runAnalysis = instructions at *
  cases instructions with
  | nil =>
    exact ⟨fun _ => List.forall_mem_nil _, fun _ => RangesExact.empty⟩
  | cons first rest =>
    refine ⟨fun exact' instr known => ?_, rangesOf_exact sized sorted⟩
    by_contra wraps
    exact not_rangesOf_exact sized sorted known wraps exact'

/-- Both ranges are exact but for instructions that run past the last address: those of the
analysis when the bytes of such instructions belong to others too, those of the export when
there is no such instruction among the clipped ones. -/
theorem codeRanges_union_iff (entryPoints : List Word) (readByte : DisasmReadFn)
    (maxInstructions : Nat) (exporter : AsmExporter) :
    (RangesExact (analyzeCodeMulti entryPoints readByte maxInstructions).ranges
        (analyzeCodeMulti entryPoints readByte maxInstructions).instructions ↔
      WrappedBytesShared entryPoints readByte maxInstructions) ∧
    (RangesExact exporter.rebuildRanges exporter.runAnalysis ↔
      ∀ instr ∈ exporter.runAnalysis, instr.Fits) := by
  have ranges : (analyzeCodeMulti entryPoints readByte maxInstructions).ranges =
      codeRanges (analyzeCodeMulti entryPoints readByte maxInstructions).instructions := rfl
  rw [ranges, codeRanges_exact_iff (reported_sized entryPoints readByte maxInstructions)
    (reported_inOrder entryPoints readByte maxInstructions), wrapsCovered_iff]
  exact ⟨Iff.rfl, exporter.rebuildRanges_exact_iff⟩

/-- A `JMP` in the last byte of memory, with its target in the first two. -/
def lastJump : DisasmReadFn := fun addr => if addr = 0xffff then 0xc3 else 0x76

/-- The range of the `JMP` ends before it starts. -/
theorem analyzeCodeMulti_lastJump :
    ¬RangesExact (analyzeCodeMulti [0xffff] lastJump 10000).ranges
      (analyzeCodeMulti [0xffff] lastJump 10000).instructions := by
  intro exact'
  have reversed : { start := 0xffff, last := 0x0001 : CodeRange } ∈
      (analyzeCodeMulti [0xffff] lastJump 10000).ranges := by decide
  exact absurd (exact'.ordered _ reversed) (by decide)
end VectorDebugger
