import VectorDebugger.Debugger.Queries
import VectorDebugger.Library.Runs

/-!
# The coverage report partitions the image

`coverageReport` marks the bytes of the analyzed instructions in a bitmap of the image. Its code
ranges are the maximal runs of marked offsets and its uncovered ranges those of the others, so
they alternate and hold each address of the image once.
-/

namespace VectorDebugger

namespace Coverage

open Runs

variable {marked : Nat → Bool} {length : Nat} {imageStart : Word}

/-! ### The loops find maximal runs -/

/-- The range of a run of offsets, with inclusive bounds. -/
def rangeOf (imageStart : Word) (run : Nat × Nat) : Word × Word :=
  (imageStart + BitVec.ofNat 16 run.1, imageStart + BitVec.ofNat 16 (run.2 - 1))

theorem runEnd_eq (marked : Nat → Bool) (length fuel : Nat) : ∀ i,
    runEnd marked length fuel i = endFrom marked length fuel i := by
  induction fuel with
  | zero => exact fun _ => rfl
  | succ fuel inductionHypothesis =>
    intro i
    unfold runEnd endFrom
    rw [inductionHypothesis]

/-- The loop lists the ranges of the runs. -/
theorem runs_eq (marked : Nat → Bool) (length fuel : Nat) (imageStart : Word) : ∀ i,
    runs marked length imageStart fuel i =
      (scan marked length fuel i).map (rangeOf imageStart) := by
  induction fuel with
  | zero => exact fun _ => rfl
  | succ fuel inductionHypothesis =>
    intro i
    unfold runs scan
    dsimp only
    rw [runEnd_eq, inductionHypothesis, inductionHypothesis]
    split
    · split
      · rfl
      · rfl
    · rfl

/-- All runs, from the start. -/
theorem runs_maximal (marked : Nat → Bool) (length : Nat) (imageStart : Word) :
    ∃ offsets, Maximal marked length offsets ∧
      runs marked length imageStart length 0 = offsets.map (rangeOf imageStart) :=
  ⟨scan marked length length 0, scan_maximal (Nat.le_of_eq (Nat.sub_zero _)) (Or.inl rfl),
    runs_eq marked length length imageStart 0⟩

/-! ### Ranges of addresses -/

/-- The range holds the address. -/
def Holds (range : Word × Word) (addr : Word) : Prop := range.1 ≤ addr ∧ addr ≤ range.2

instance (range : Word × Word) (addr : Word) : Decidable (Holds range addr) :=
  inferInstanceAs (Decidable (_ ∧ _))

/-- The number of addresses in a range. -/
def rangeLength (range : Word × Word) : Nat := range.2.toNat - range.1.toNat + 1

/-- The image holds the address. -/
def InImage (imageStart : Word) (imageLength : Nat) (addr : Word) : Prop :=
  imageStart.toNat ≤ addr.toNat ∧ addr.toNat < imageStart.toNat + imageLength

instance (imageStart : Word) (imageLength : Nat) (addr : Word) :
    Decidable (InImage imageStart imageLength addr) := inferInstanceAs (Decidable (_ ∧ _))

/-- The ranges are of one kind: where one ends inside the image a range of the other kind starts,
and where one starts inside the image a range of the other kind ends. -/
structure Alternates (imageStart : Word) (imageLength : Nat) (ranges others : List (Word × Word)) :
    Prop where
  /-- No range ends before it starts. -/
  ordered : ∀ range ∈ ranges, range.1 ≤ range.2
  /-- They are in order, with a gap after each. -/
  ascending : ranges.Pairwise fun one other => one.2.toNat + 1 < other.1.toNat
  /-- What follows a range is of the other kind. -/
  next : ∀ range ∈ ranges, range.2.toNat + 1 = imageStart.toNat + imageLength ∨
    ∃ other ∈ others, other.1.toNat = range.2.toNat + 1
  /-- What precedes a range is of the other kind. -/
  previous : ∀ range ∈ ranges, range.1 = imageStart ∨
    ∃ other ∈ others, other.2.toNat + 1 = range.1.toNat

/-- The two kinds of ranges partition the image. -/
structure Partition (imageStart : Word) (imageLength : Nat)
    (codeRanges uncoveredRanges : List (Word × Word)) : Prop where
  /-- The code ranges alternate with the others. -/
  code : Alternates imageStart imageLength codeRanges uncoveredRanges
  /-- The others alternate with the code ranges. -/
  uncovered : Alternates imageStart imageLength uncoveredRanges codeRanges
  /-- An address of the image is in one range, any other is in none. -/
  once : ∀ addr, (codeRanges ++ uncoveredRanges).countP (fun range => decide (Holds range addr)) =
    if InImage imageStart imageLength addr then 1 else 0

section Ranges

variable {offsets gaps : List (Nat × Nat)} (fits : imageStart.toNat + length ≤ 0x10000)

include fits

theorem rangeOf_bounds {lo hi : Nat} (some' : lo < hi) (bound : hi ≤ length) :
    (rangeOf imageStart (lo, hi)).1.toNat = imageStart.toNat + lo ∧
      (rangeOf imageStart (lo, hi)).2.toNat = imageStart.toNat + (hi - 1) := by
  unfold rangeOf
  dsimp only
  rw [BitVec.toNat_add, BitVec.toNat_add, BitVec.toNat_ofNat, BitVec.toNat_ofNat]
  omega

theorem holds_rangeOf {lo hi : Nat} (some' : lo < hi) (bound : hi ≤ length) (addr : Word) :
    Holds (rangeOf imageStart (lo, hi)) addr ↔
      imageStart.toNat + lo ≤ addr.toNat ∧ addr.toNat < imageStart.toNat + hi := by
  obtain ⟨first, last⟩ := rangeOf_bounds fits some' bound
  unfold Holds
  rw [BitVec.le_def, BitVec.le_def, first, last]
  omega

/-- The ranges of the maximal runs of both kinds alternate. -/
theorem alternates_of_maximal {marked' : Nat → Bool} (negated : marked' = fun k => !marked k)
    (runs : Maximal marked length offsets) (others : Maximal marked' length gaps) :
    Alternates imageStart length (offsets.map (rangeOf imageStart))
      (gaps.map (rangeOf imageStart)) where
  ordered := by
    intro range listed
    obtain ⟨⟨lo, hi⟩, known, rfl⟩ := List.mem_map.mp listed
    have run := (runs.each (lo, hi) known).2
    have some' := run.nonempty
    obtain ⟨first, last⟩ := rangeOf_bounds fits some' run.bounded
    rw [BitVec.le_def, first, last]
    dsimp only at some'
    omega
  ascending := by
    refine List.pairwise_map.mpr (runs.ascending.imp_of_mem fun {a b} one other gap => ?_)
    have run := (runs.each a one).2
    have run' := (runs.each b other).2
    have some' := run.nonempty
    have last := (rangeOf_bounds fits some' run.bounded).2
    have first := (rangeOf_bounds fits run'.nonempty run'.bounded).1
    rw [last, first]
    omega
  next := by
    subst negated
    intro range listed
    obtain ⟨⟨lo, hi⟩, known, rfl⟩ := List.mem_map.mp listed
    have run := (runs.each (lo, hi) known).2
    have some' := run.nonempty
    have bound := run.bounded
    have last := (rangeOf_bounds fits some' bound).2
    dsimp only at some' bound
    by_cases below : hi < length
    · obtain ⟨stop, gap⟩ := Maximal.next_gap others run below
      have spec := (others.each (hi, stop) gap).2
      refine Or.inr ⟨_, List.mem_map_of_mem gap, ?_⟩
      rw [(rangeOf_bounds fits spec.nonempty spec.bounded).1, last]
      omega
    · refine Or.inl ?_
      rw [last]
      omega
  previous := by
    subst negated
    intro range listed
    obtain ⟨⟨lo, hi⟩, known, rfl⟩ := List.mem_map.mp listed
    have run := (runs.each (lo, hi) known).2
    have some' := run.nonempty
    have first := (rangeOf_bounds fits some' run.bounded).1
    by_cases above : 0 < lo
    · obtain ⟨start, gap⟩ := Maximal.previous_gap others run above
      have spec := (others.each (start, lo) gap).2
      refine Or.inr ⟨_, List.mem_map_of_mem gap, ?_⟩
      rw [(rangeOf_bounds fits spec.nonempty spec.bounded).2, first]
      omega
    · refine Or.inl (BitVec.eq_of_toNat_eq ?_)
      rw [first]
      omega

/-- An address is in one range of the maximal runs when its offset is marked, in none otherwise. -/
theorem countP_rangeOf (runs : Maximal marked length offsets) (addr : Word) :
    (offsets.map (rangeOf imageStart)).countP (fun range => decide (Holds range addr)) =
      if InImage imageStart length addr ∧ marked (addr.toNat - imageStart.toNat) = true then 1
      else 0 := by
  have place : ∀ run ∈ offsets, (Holds (rangeOf imageStart run) addr ↔
      imageStart.toNat + run.1 ≤ addr.toNat ∧ addr.toNat < imageStart.toNat + run.2) := by
    rintro ⟨lo, hi⟩ known
    have run := (runs.each (lo, hi) known).2
    exact holds_rangeOf fits run.nonempty run.bounded addr
  by_cases inside : InImage imageStart length addr ∧ marked (addr.toNat - imageStart.toNat) = true
  · rw [if_pos inside]
    obtain ⟨⟨low, high⟩, has⟩ := inside
    obtain ⟨run, known, first, last⟩ :=
      runs.complete (addr.toNat - imageStart.toNat) (Nat.zero_le _) (by omega) has
    obtain ⟨front, back, split⟩ := List.append_of_mem known
    have apart : ∀ other ∈ front ++ back, ¬ Holds (rangeOf imageStart other) addr := by
      intro other listed holds
      have order := runs.ascending
      rw [split] at order
      have listed' : other ∈ offsets := by
        rw [split]
        rcases List.mem_append.mp listed with left | right
        · exact List.mem_append_left _ left
        · exact List.mem_append_right _ (List.mem_cons_of_mem _ right)
      have bounds := (place other listed').mp holds
      rcases List.mem_append.mp listed with left | right
      · have gap := (List.pairwise_append.mp order).2.2 other left run List.mem_cons_self
        omega
      · have gap := (List.pairwise_cons.mp (List.pairwise_append.mp order).2.1).1 other right
        omega
    have none' : ∀ part : List (Nat × Nat), (∀ other ∈ part, other ∈ front ++ back) →
        (part.map (rangeOf imageStart)).countP (fun range => decide (Holds range addr)) = 0 := by
      intro part within
      rw [List.countP_eq_zero]
      intro range listed
      obtain ⟨other, known', rfl⟩ := List.mem_map.mp listed
      rw [decide_eq_true_eq]
      exact apart other (within other known')
    have here : Holds (rangeOf imageStart run) addr := (place run known).mpr (by omega)
    rw [split, List.map_append, List.countP_append, List.map_cons,
      List.countP_cons_of_pos (p := fun range => decide (Holds range addr)) (decide_eq_true here),
      none' front fun _ listed => List.mem_append_left _ listed,
      none' back fun _ listed => List.mem_append_right _ listed]
  · rw [if_neg inside, List.countP_eq_zero]
    intro range listed
    obtain ⟨run, known, rfl⟩ := List.mem_map.mp listed
    rw [decide_eq_true_eq, place run known]
    intro bounds
    have spec := (runs.each run known).2
    have some' := spec.bounded
    have has := spec.inside (addr.toNat - imageStart.toNat) (by omega) (by omega)
    exact inside ⟨⟨by omega, by omega⟩, has⟩

theorem holds_iff (runs : Maximal marked length offsets) (addr : Word) :
    (∃ range ∈ offsets.map (rangeOf imageStart), Holds range addr) ↔
      InImage imageStart length addr ∧ marked (addr.toNat - imageStart.toNat) = true := by
  have count := countP_rangeOf fits runs addr
  constructor
  · rintro ⟨range, listed, holds⟩
    by_contra outside
    rw [if_neg outside, List.countP_eq_zero] at count
    exact count range listed (decide_eq_true holds)
  · intro inside
    rw [if_pos inside] at count
    have positive : 0 < (offsets.map (rangeOf imageStart)).countP
        (fun range => decide (Holds range addr)) := by omega
    obtain ⟨range, listed, holds⟩ := List.countP_pos_iff.mp positive
    exact ⟨range, listed, of_decide_eq_true holds⟩

/-- The ranges of the maximal runs of both kinds partition the image. -/
theorem partition_of_maximal (runs : Maximal marked length offsets)
    (others : Maximal (fun k => !marked k) length gaps) :
    Partition imageStart length (offsets.map (rangeOf imageStart))
      (gaps.map (rangeOf imageStart)) where
  code := alternates_of_maximal fits rfl runs others
  uncovered := alternates_of_maximal fits (by funext k; exact (Bool.not_not _).symm) others runs
  once := by
    intro addr
    rw [List.countP_append, countP_rangeOf fits runs, countP_rangeOf fits others]
    by_cases inside : InImage imageStart length addr
    · cases mark : marked (addr.toNat - imageStart.toNat) <;> simp [inside]
    · simp [inside]

/-- The lengths of the ranges add up to the number of marked offsets. -/
theorem sum_rangeLength (runs : Maximal marked length offsets) :
    ((offsets.map (rangeOf imageStart)).map rangeLength).sum =
      (List.range length).countP marked := by
  have each : offsets.map (rangeLength ∘ rangeOf imageStart) =
      offsets.map fun run => run.2 - run.1 := by
    refine List.map_congr_left ?_
    rintro ⟨lo, hi⟩ known
    have run := (runs.each (lo, hi) known).2
    have some' := run.nonempty
    obtain ⟨first, last⟩ := rangeOf_bounds fits some' run.bounded
    dsimp only [Function.comp] at some' ⊢
    unfold rangeLength
    rw [first, last]
    omega
  rw [List.map_map, each, runs.sum_lengths, Nat.sub_zero, List.range_eq_range']

end Ranges

/-! ### The report -/

/-- What the report says of an analysis. -/
structure ReportSpec (imageStart : Word) (imageLength : Nat) (analysis : CodeAnalysisResult)
    (report : CoverageReportResult) : Prop where
  /-- The ranges partition the image. -/
  partition : Partition imageStart imageLength report.codeRanges report.uncoveredRanges
  /-- `codeBytes` is the length of the code ranges. -/
  codeBytes : report.codeBytes = (report.codeRanges.map rangeLength).sum
  /-- The code ranges hold the bytes of the instructions that do not wrap, inside the image. -/
  covered : ∀ addr, (∃ range ∈ report.codeRanges, Holds range addr) ↔
    InImage imageStart imageLength addr ∧
      ∃ inst ∈ analysis.instructions, covers inst addr.toNat = true
  /-- The branch targets are the references of the analysis. -/
  branchTargets : report.branchTargets.Perm analysis.references
  /-- The uncovered targets are in order, each once. -/
  sorted : report.uncoveredBranchTargets.Pairwise (· < ·)
  /-- They are the targets that lie outside the image or in no code range. -/
  uncoveredTargets : ∀ addr, addr ∈ report.uncoveredBranchTargets ↔
    (∃ branch ∈ report.branchTargets, branch.target = addr) ∧
      (¬ InImage imageStart imageLength addr ∨ ¬ ∃ range ∈ report.codeRanges, Holds range addr)

theorem allAddresses_pairwise : allAddresses.Pairwise (· < ·) := by
  unfold allAddresses
  refine List.pairwise_map.mpr
    (List.pairwise_lt_range.imp_of_mem fun {a b} first second below => ?_)
  rw [List.mem_range] at first second
  rw [BitVec.lt_def, BitVec.toNat_ofNat, BitVec.toNat_ofNat]
  omega

theorem mem_allAddresses (addr : Word) : addr ∈ allAddresses := by
  unfold allAddresses
  refine List.mem_map.mpr ⟨addr.toNat, List.mem_range.mpr addr.isLt, ?_⟩
  rw [BitVec.ofNat_toNat, BitVec.setWidth_eq]

/-- The bitmap of the bytes of an analysis. -/
def bitmap (imageStart : Word) (imgEnd : Nat) (analysis : CodeAnalysisResult) (i : Nat) : Bool :=
  imageStart.toNat + i < imgEnd && analysis.instructions.any (covers · (imageStart.toNat + i))

/-- The uncovered targets, among all addresses. -/
theorem report_uncoveredTargets (imageStart : Word) (imageLength imgEnd : Nat)
    (analysis : CodeAnalysisResult) :
    (report imageStart imageLength imgEnd analysis).uncoveredBranchTargets =
      allAddresses.filter fun addr =>
        (report imageStart imageLength imgEnd analysis).branchTargets.any (·.target = addr) &&
          !(imageStart ≤ addr &&
            bitmap imageStart imgEnd analysis (addr.toNat - imageStart.toNat)) := by
  unfold report bitmap
  dsimp only

/-- An address of the image is marked when an instruction that does not wrap has a byte there. -/
theorem bitmap_iff (imageStart : Word) (imageLength : Nat) (analysis : CodeAnalysisResult)
    (addr : Word) :
    imageStart ≤ addr ∧ bitmap imageStart (imageStart.toNat + imageLength) analysis
        (addr.toNat - imageStart.toNat) = true ↔
      InImage imageStart imageLength addr ∧
        ∃ inst ∈ analysis.instructions, covers inst addr.toNat = true := by
  unfold bitmap InImage
  rw [BitVec.le_def, Bool.and_eq_true, decide_eq_true_eq, List.any_eq_true, ← and_assoc]
  constructor
  · rintro ⟨⟨low, high⟩, covered⟩
    have place : imageStart.toNat + (addr.toNat - imageStart.toNat) = addr.toNat := by omega
    rw [place] at high covered
    exact ⟨⟨low, high⟩, covered⟩
  · rintro ⟨⟨low, high⟩, covered⟩
    have place : imageStart.toNat + (addr.toNat - imageStart.toNat) = addr.toNat := by omega
    rw [place]
    exact ⟨⟨low, high⟩, covered⟩

/-- The report on an image inside memory. -/
theorem report_spec {imageLength : Nat} (fits : imageStart.toNat + imageLength ≤ 0x10000)
    (analysis : CodeAnalysisResult) :
    ReportSpec imageStart imageLength analysis
      (report imageStart imageLength (imageStart.toNat + imageLength) analysis) := by
  set imgEnd := imageStart.toNat + imageLength with limit
  set marked := bitmap imageStart imgEnd analysis with marking
  obtain ⟨offsets, runs', codeRanges⟩ := runs_maximal marked imageLength imageStart
  obtain ⟨gaps, others, uncoveredRanges⟩ :=
    runs_maximal (fun i => !marked i) imageLength imageStart
  have code : (report imageStart imageLength imgEnd analysis).codeRanges =
      offsets.map (rangeOf imageStart) := codeRanges
  have uncovered : (report imageStart imageLength imgEnd analysis).uncoveredRanges =
      gaps.map (rangeOf imageStart) := uncoveredRanges
  have held : ∀ addr, (∃ range ∈ (report imageStart imageLength imgEnd analysis).codeRanges,
      Holds range addr) ↔ imageStart ≤ addr ∧ marked (addr.toNat - imageStart.toNat) = true := by
    intro addr
    rw [code, holds_iff fits runs', marking, limit, bitmap_iff]
    refine and_congr_right fun inside => ?_
    have whole := bitmap_iff imageStart imageLength analysis addr
    rw [and_iff_right (BitVec.le_def.mpr inside.1), and_iff_right inside] at whole
    exact whole
  refine ⟨?_, ?_, fun addr => ?_, ?_, ?_, fun addr => ?_⟩
  · rw [code, uncovered]
    exact partition_of_maximal fits runs' others
  · rw [code, sum_rangeLength fits runs']
    rfl
  · rw [held, marking, limit, bitmap_iff]
  · exact List.perm_insertionSort _ _
  · rw [report_uncoveredTargets]
    exact allAddresses_pairwise.filter _
  · have inside : (∃ range ∈ (report imageStart imageLength imgEnd analysis).codeRanges,
        Holds range addr) → InImage imageStart imageLength addr := by
      intro holds
      rw [held, marking, limit, bitmap_iff] at holds
      exact holds.1
    have outside : (¬ InImage imageStart imageLength addr ∨
        ¬ ∃ range ∈ (report imageStart imageLength imgEnd analysis).codeRanges,
          Holds range addr) ↔
        ¬ ∃ range ∈ (report imageStart imageLength imgEnd analysis).codeRanges,
          Holds range addr :=
      ⟨fun either holds => either.elim (fun out => out (inside holds)) fun none' => none' holds,
        Or.inr⟩
    rw [outside, held, report_uncoveredTargets, List.mem_filter, Bool.and_eq_true,
      List.any_eq_true, Bool.not_eq_true', ← Bool.not_eq_true, Bool.and_eq_true, decide_eq_true_eq,
      and_iff_right (mem_allAddresses addr)]
    simp only [decide_eq_true_eq, marking]

end Coverage

namespace AgentApi

variable {δ : Type}

/-- A report on an image inside memory partitions the image by the instructions of the
analysis. -/
theorem coverageReport_spec (api : AgentApi δ) (entryPoints : List Word) (imageStart : Word)
    (imageLength : BitVec 32) (maxInstructions : Nat)
    (fits : imageStart.toNat + imageLength.toNat ≤ 0x10000) (report : CoverageReportResult)
    (answer : (api.coverageReport entryPoints imageStart imageLength maxInstructions).2 =
      .ok report) :
    ∃ analysis, (api.analyzeCodeMulti entryPoints maxInstructions).2 = .ok analysis ∧
      Coverage.ReportSpec imageStart imageLength.toNat analysis report := by
  have imgEnd : (imageStart.setWidth 32 + imageLength).toNat =
      imageStart.toNat + imageLength.toNat := by
    rw [BitVec.toNat_add, BitVec.toNat_setWidth]
    omega
  unfold coverageReport at answer
  dsimp only at answer
  split at answer
  · cases answer
  · split at answer
    · cases answer
    · split at answer
      · cases answer
      · cases analyzed : (api.analyzeCodeMulti entryPoints maxInstructions).2 with
        | error problem =>
          rw [analyzed] at answer
          cases answer
        | ok analysis =>
          rw [analyzed, imgEnd] at answer
          have same : Coverage.report imageStart imageLength.toNat
              (imageStart.toNat + imageLength.toNat) analysis = report := Except.ok.inj answer
          rw [← same]
          exact ⟨analysis, rfl, Coverage.report_spec fits analysis⟩

/-- One byte, analyzed from there. -/
theorem coverageReport_spec_zero : ∃ analysis report,
    (started.coverageReport [0] 0 1 1).2 = .ok report ∧
      Coverage.ReportSpec 0 1 analysis report := by
  obtain ⟨analysis, -, spec⟩ := started.coverageReport_spec [0] 0 1 1 (by decide) _ rfl
  exact ⟨analysis, _, rfl, spec⟩

end AgentApi

end VectorDebugger
