import VectorDebugger.Debugger.AsmOwners

/-!
# The books of the layout

`computeCoverage` counts the bytes of the instructions and of the data units, and lists the maximal
runs of bytes that have no owner. For every image in the address space the three add up to the
image. The names of the units are the only thing that can go wrong: the own name of an object is at
another address exactly if it is the generated label of one of the later runs of the object.
-/

namespace VectorDebugger

namespace AsmExporter

/-! ### What `computeCoverage` counts -/

section Coverage

variable {exporter : AsmExporter} {owner : List Owner}

theorem gapEnd_stop (owner : List Owner) (fuel : Nat) : ∀ j, owner.length ≤ fuel + j →
    owner[gapEnd owner fuel j]? ≠ some .gap := by
  induction fuel with
  | zero =>
    intro j past gap
    unfold gapEnd at gap
    have bound := (List.getElem?_eq_some_iff.mp gap).1
    omega
  | succ fuel inductionHypothesis =>
    intro j enough
    unfold gapEnd
    by_cases free : owner[j]? = some .gap
    · rw [if_pos free]
      exact inductionHypothesis (j + 1) (by omega)
    · rw [if_neg free]
      exact free

/-- A gap goes on as far as it can. -/
theorem uncoveredFrom_maximal (fuel : Nat) : ∀ i, owner.length ≤ fuel + i →
    ∀ gap ∈ uncoveredFrom owner fuel i, owner[gap.2 + 1]? ≠ some .gap ∧
      (gap.1 = i ∨ owner[gap.1 - 1]? ≠ some .gap) := by
  induction fuel with
  | zero =>
    intro i _ gap listed
    cases listed
  | succ fuel inductionHypothesis =>
    intro i enough gap listed
    unfold uncoveredFrom at listed
    by_cases bound : i < owner.length
    · rw [if_pos bound] at listed
      by_cases free : owner[i]? = some .gap
      · rw [if_pos free] at listed
        have further := gapEnd_lt bound free
        have ended := gapEnd_stop owner (owner.length - i) i (by omega)
        dsimp only at listed
        generalize gapEnd owner (owner.length - i) i = j at *
        obtain here | later := List.mem_cons.mp listed
        · rw [here]
          dsimp only
          rw [Nat.sub_add_cancel (by omega)]
          exact ⟨ended, .inl rfl⟩
        · obtain ⟨stop, start⟩ := inductionHypothesis j (by omega) gap later
          refine ⟨stop, .inr ?_⟩
          obtain same | before := start
          · have spec : Uncovered owner j (uncoveredFrom owner fuel j) :=
              uncoveredFrom_spec fuel j (by omega)
            have taken := spec.free gap later gap.1 (Nat.le_refl _) (spec.inside gap later).2
            rw [same] at taken
            exact absurd taken ended
          · exact before
      · rw [if_neg free] at listed
        obtain ⟨stop, start⟩ := inductionHypothesis (i + 1) (by omega) gap listed
        refine ⟨stop, .inr ?_⟩
        obtain same | before := start
        · rw [same]
          exact free
        · exact before
    · rw [if_neg bound] at listed
      cases listed

/-- Each byte from the offset on is counted once. -/
theorem coverageFrom_spec (fuel : Nat) : ∀ (i : Nat) (cov : AsmCoverage),
    owner.length ≤ fuel + i →
      (exporter.coverageFrom owner fuel i cov).romBytes = cov.romBytes ∧
      (exporter.coverageFrom owner fuel i cov).uncovered =
        cov.uncovered ++ (uncoveredFrom owner fuel i).map exporter.gapRange ∧
      (exporter.coverageFrom owner fuel i cov).codeBytes +
          (exporter.coverageFrom owner fuel i cov).dataBytes +
          ((uncoveredFrom owner fuel i).map fun gap => gap.2 + 1 - gap.1).sum =
        cov.codeBytes + cov.dataBytes + (owner.length - i) := by
  induction fuel with
  | zero =>
    intro i cov past
    unfold coverageFrom uncoveredFrom
    rw [List.map_nil, List.map_nil, List.append_nil, List.sum_nil]
    refine ⟨rfl, rfl, ?_⟩
    omega
  | succ fuel inductionHypothesis =>
    intro i cov enough
    unfold coverageFrom uncoveredFrom
    by_cases bound : i < owner.length
    · rw [if_pos bound, if_pos bound]
      by_cases code : owner[i]? = some .code
      · have other : owner[i]? ≠ some .gap := by rw [code]; exact fun wrong => by cases wrong
        rw [if_pos code, if_neg other]
        obtain ⟨rom, gaps, total⟩ := inductionHypothesis (i + 1)
          { cov with codeBytes := cov.codeBytes + 1 } (by omega)
        refine ⟨rom, gaps, ?_⟩
        rw [total]
        dsimp only
        omega
      · rw [if_neg code]
        by_cases data : owner[i]? = some .data
        · have other : owner[i]? ≠ some .gap := by rw [data]; exact fun wrong => by cases wrong
          rw [if_pos data, if_neg other]
          obtain ⟨rom, gaps, total⟩ := inductionHypothesis (i + 1)
            { cov with dataBytes := cov.dataBytes + 1 } (by omega)
          refine ⟨rom, gaps, ?_⟩
          rw [total]
          dsimp only
          omega
        · have free : owner[i]? = some .gap := by
            have here := List.getElem?_eq_getElem bound
            cases who : owner[i] with
            | gap => rw [here, who]
            | code => rw [who] at here; exact absurd here code
            | data => rw [who] at here; exact absurd here data
          rw [if_neg data, if_pos free]
          have further := gapEnd_lt bound free
          have gaps' := (gapEnd_spec owner (owner.length - i) i).2
          dsimp only
          generalize gapEnd owner (owner.length - i) i = j at *
          have last : j - 1 < owner.length :=
            (List.getElem?_eq_some_iff.mp (gaps' (j - 1) (by omega) (by omega))).1
          obtain ⟨rom, gaps, total⟩ := inductionHypothesis j
            { cov with uncovered := cov.uncovered ++ [exporter.gapRange (i, j - 1)] } (by omega)
          refine ⟨rom, ?_, ?_⟩
          · rw [gaps, List.map_cons, List.append_assoc, List.singleton_append]
          · rw [List.map_cons, List.sum_cons]
            dsimp only at total ⊢
            omega
    · rw [if_neg bound, if_neg bound, List.map_nil, List.map_nil, List.append_nil, List.sum_nil]
      refine ⟨rfl, rfl, ?_⟩
      omega

end Coverage

/-! ### The books balance -/

section Books

variable {exporter : AsmExporter}

theorem buildLayout_built (analysis : exporter.AnalysisResult) :
    exporter.Built analysis.instructions exporter.sortedObjects
      (exporter.buildLayout analysis.instructions) := by
  have whole := Built.objects analysis.clipped exporter.sortedObjects [] _
    (built_nil analysis.clipped)
  rw [List.nil_append] at whole
  exact whole

/-- The offset at which a run starts is one of the image. -/
theorem Claimed.start_lt {base owner : List Owner} {runs : List (Nat × Nat)} {run : Nat × Nat}
    (claimed : Claimed base owner runs) (listed : run ∈ runs) :
    run.1 + run.2 ≤ owner.length := by
  have nonempty := claimed.nonempty run listed
  have last := claimed.owned run listed (run.1 + run.2 - 1) (by omega) (by omega)
  have bound := (List.getElem?_eq_some_iff.mp last).1
  omega

theorem runUnit_has (fits : exporter.winEnd ≤ 0x10000) {run : Nat × Nat}
    (bound : run.1 < exporter.rom.length) (a : Nat) :
    UnitHas (exporter.runUnit run) a ↔
      exporter.origin + run.1 ≤ a ∧ a < exporter.origin + run.1 + run.2 := by
  unfold UnitHas runUnit
  dsimp only
  rw [toNat_address fits bound]

/-- A unit is a run of bytes that data owns. -/
theorem run_of_unit (fits : exporter.winEnd ≤ 0x10000) (analysis : exporter.AnalysisResult)
    {part : NamedUnit} (listed : part ∈ (exporter.buildLayout analysis.instructions).units) :
    ∃ run : Nat × Nat, part.address.toNat = exporter.origin + run.1 ∧ part.size = run.2 ∧
      0 < run.2 ∧ run.1 + run.2 ≤ exporter.rom.length ∧
      ∀ k, run.1 ≤ k → k < run.1 + run.2 →
        (exporter.buildLayout analysis.instructions).owner[k]? = some .data := by
  have built := buildLayout_built analysis
  have length := built.length analysis.clipped
  obtain ⟨runs, same, claimed⟩ := built.runs
  have member : part.toAsmDataUnit ∈ runs.map exporter.runUnit := by
    rw [← same]
    exact List.mem_map_of_mem listed
  obtain ⟨run, known, equal⟩ := List.mem_map.mp member
  have bound := claimed.start_lt known
  have nonempty := claimed.nonempty run known
  refine ⟨run, ?_, ?_, nonempty, by omega, claimed.owned run known⟩
  · rw [← equal]
    exact toNat_address fits (by omega)
  · rw [← equal]
    rfl

/-- An instruction or a unit has a byte exactly if `owner_` says so. -/
theorem owned_iff (fits : exporter.winEnd ≤ 0x10000) (analysis : exporter.AnalysisResult) {k : Nat}
    (bound : k < exporter.rom.length) : exporter.Owned analysis (exporter.origin + k) ↔
      (exporter.buildLayout analysis.instructions).owner[k]? ≠ some .gap := by
  have built := buildLayout_built analysis
  have length := built.length analysis.clipped
  obtain ⟨runs, same, claimed⟩ := built.runs
  have code := (claimed.code k).trans ((ownCode_spec analysis.clipped).2 k).1
  constructor
  · rintro (⟨instr, listed, has⟩ | ⟨part, listed, has⟩) gap
    · have taken := code.mpr ⟨bound, instr, listed, has⟩
      rw [gap] at taken
      cases taken
    · obtain ⟨run, address, size, _, _, data⟩ := run_of_unit fits analysis listed
      obtain ⟨low, high⟩ := has
      rw [address] at low high
      rw [size] at high
      have taken := data k (by omega) (by omega)
      rw [gap] at taken
      cases taken
  · intro taken
    have inside : k < (exporter.buildLayout analysis.instructions).owner.length := by omega
    have here := List.getElem?_eq_getElem inside
    cases who : (exporter.buildLayout analysis.instructions).owner[k] with
    | gap =>
      rw [who] at here
      exact absurd here taken
    | code =>
      rw [who] at here
      obtain ⟨_, instr, listed, has⟩ := code.mp here
      exact .inl ⟨instr, listed, has⟩
    | data =>
      rw [who] at here
      obtain ⟨run, listed, low, high⟩ := claimed.found k here
      have member : exporter.runUnit run ∈
          (exporter.buildLayout analysis.instructions).units.map (·.toAsmDataUnit) := by
        rw [same]
        exact List.mem_map_of_mem listed
      obtain ⟨part, known, equal⟩ := List.mem_map.mp member
      have ends := claimed.start_lt listed
      refine .inr ⟨part, known, ?_⟩
      rw [equal, runUnit_has fits (by omega)]
      omega

/-- What `computeCoverage` counts in the layout. -/
theorem computeCoverage_spec (analysis : exporter.AnalysisResult) :
    (exporter.computeCoverage analysis).romBytes = exporter.rom.length ∧
      (exporter.computeCoverage analysis).uncovered =
        (uncoveredFrom (exporter.buildLayout analysis.instructions).owner
          (exporter.buildLayout analysis.instructions).owner.length 0).map exporter.gapRange ∧
      (exporter.computeCoverage analysis).codeBytes +
          (exporter.computeCoverage analysis).dataBytes +
          ((uncoveredFrom (exporter.buildLayout analysis.instructions).owner
            (exporter.buildLayout analysis.instructions).owner.length 0).map
              fun gap => gap.2 + 1 - gap.1).sum = exporter.rom.length := by
  have length := (buildLayout_built analysis).length analysis.clipped
  have counted := @coverageFrom_spec exporter
    (exporter.buildLayout analysis.instructions).owner
    (exporter.buildLayout analysis.instructions).owner.length 0
    { romBytes := exporter.rom.length
      instructionCount := analysis.instructionCount
      outsideWindowDropped := analysis.droppedOutsideWindow
      codeBytes := 0
      dataBytes := 0
      uncovered := [] } (Nat.le_refl _)
  obtain ⟨rom, gaps, total⟩ := counted
  refine ⟨rom, gaps, ?_⟩
  unfold computeCoverage
  dsimp only at total ⊢
  omega

/-- The numbers of a range of the coverage. -/
theorem gapRange_spec (fits : exporter.winEnd ≤ 0x10000) (analysis : exporter.AnalysisResult)
    {gap : Nat × Nat}
    (listed : gap ∈ uncoveredFrom (exporter.buildLayout analysis.instructions).owner
      (exporter.buildLayout analysis.instructions).owner.length 0) :
    (exporter.gapRange gap).1.toNat = exporter.origin + gap.1 ∧
      (exporter.gapRange gap).2.toNat = exporter.origin + gap.2 ∧ gap.1 ≤ gap.2 ∧
      gap.2 < exporter.rom.length := by
  have length := (buildLayout_built analysis).length analysis.clipped
  have spec := @uncoveredFrom_spec (exporter.buildLayout analysis.instructions).owner
    (exporter.buildLayout analysis.instructions).owner.length 0 (Nat.le_refl _)
  have inside := spec.inside gap listed
  have free := spec.free gap listed gap.2 inside.2 (Nat.le_refl _)
  have last := (List.getElem?_eq_some_iff.mp free).1
  unfold gapRange
  dsimp only
  rw [toNat_address fits (by omega), toNat_address fits (by omega)]
  omega

/-- The ranges of the coverage are maximal. -/
theorem gapRange_maximal (fits : exporter.winEnd ≤ 0x10000) (analysis : exporter.AnalysisResult)
    {gap : Nat × Nat}
    (listed : gap ∈ uncoveredFrom (exporter.buildLayout analysis.instructions).owner
      (exporter.buildLayout analysis.instructions).owner.length 0) :
    exporter.MaximalGap analysis (exporter.gapRange gap) := by
  have spec : Uncovered (exporter.buildLayout analysis.instructions).owner 0 _ :=
    uncoveredFrom_spec (exporter.buildLayout analysis.instructions).owner.length 0 (Nat.le_refl _)
  have maximal := uncoveredFrom_maximal
    (exporter.buildLayout analysis.instructions).owner.length 0 (Nat.le_refl _) gap listed
  obtain ⟨first, last, order, bound⟩ := gapRange_spec fits analysis listed
  obtain ⟨stop, start⟩ := maximal
  constructor
  · rw [first, last]
    unfold winEnd
    omega
  · intro a low high
    rw [first] at low
    rw [last] at high
    obtain ⟨k, rfl⟩ : ∃ k, a = exporter.origin + k := ⟨a - exporter.origin, by omega⟩
    rw [owned_iff fits analysis (by omega)]
    intro taken
    exact taken (spec.free gap listed k (by omega) (by omega))
  · intro more
    rw [first] at more ⊢
    rw [Nat.add_sub_assoc (by omega), owned_iff fits analysis (by omega)]
    obtain same | before := start
    · omega
    · exact before
  · intro more
    rw [last] at more ⊢
    unfold winEnd at more
    rw [Nat.add_assoc, owned_iff fits analysis (by omega)]
    exact stop

/-- For every image in the address space, every result of the analysis and every database: each
byte has one owner and the books balance, and no unit has the own name of its object at another
address unless that name is the generated label of one of the later runs of the object. -/
theorem buildLayout_oneOwner_iff (fits : exporter.winEnd ≤ 0x10000)
    (analysis : exporter.AnalysisResult) :
    exporter.OneOwner analysis ↔
      ∀ done obj rest, exporter.sortedObjects = done ++ obj :: rest →
        ¬exporter.NamedAsLater analysis.instructions done obj := by
  have built := buildLayout_built analysis
  have length := built.length analysis.clipped
  have named := named_objects fits analysis.clipped exporter.sortedObjects [] _
    (built_nil analysis.clipped)
  constructor
  · intro books
    exact (named.mp books.named).2
  · intro calm
    obtain ⟨rom, gaps, total⟩ := computeCoverage_spec analysis
    have spec : Uncovered (exporter.buildLayout analysis.instructions).owner 0 _ :=
      uncoveredFrom_spec (exporter.buildLayout analysis.instructions).owner.length 0
        (Nat.le_refl _)
    constructor
    · obtain ⟨runs, same, claimed⟩ := built.runs
      have apart : (runs.map exporter.runUnit).Pairwise
          fun one other => ∀ a, UnitHas one a → ¬UnitHas other a := by
        rw [List.pairwise_map]
        apply claimed.apart.imp_of_mem
        intro one other first second disjoint a has both
        have low := claimed.start_lt first
        have high := claimed.start_lt second
        have nonempty := claimed.nonempty one first
        have others := claimed.nonempty other second
        rw [runUnit_has fits (by omega)] at has both
        omega
      rw [← same, List.pairwise_map] at apart
      exact apart
    · intro part listed instr known a has both
      obtain ⟨run, address, size, nonempty, bound, data⟩ := run_of_unit fits analysis listed
      obtain ⟨low, high⟩ := has
      rw [address] at low high
      rw [size] at high
      obtain ⟨k, rfl⟩ : ∃ k, a = exporter.origin + k := ⟨a - exporter.origin, by omega⟩
      obtain ⟨runs, _, claimed⟩ := built.runs
      have code := ((claimed.code k).trans ((ownCode_spec analysis.clipped).2 k).1).mpr
        ⟨by omega, instr, known, both⟩
      rw [data k (by omega) (by omega)] at code
      cases code
    · intro part listed
      obtain ⟨run, address, size, nonempty, bound, _⟩ := run_of_unit fits analysis listed
      rw [address, size]
      unfold winEnd
      omega
    · intro gap listed
      rw [gaps] at listed
      obtain ⟨offsets, known, rfl⟩ := List.mem_map.mp listed
      exact gapRange_maximal fits analysis known
    · intro a low high free
      unfold winEnd at high
      obtain ⟨k, rfl⟩ : ∃ k, a = exporter.origin + k := ⟨a - exporter.origin, by omega⟩
      rw [owned_iff fits analysis (by omega), not_not] at free
      obtain ⟨gap, known, from', upto⟩ := spec.found k (Nat.zero_le k) free
      obtain ⟨first, last, _⟩ := gapRange_spec fits analysis known
      refine ⟨exporter.gapRange gap, ?_, ?_⟩
      · rw [gaps]
        exact List.mem_map_of_mem known
      · omega
    · rw [gaps, List.pairwise_map]
      apply spec.apart.imp_of_mem
      intro one other first second disjoint
      obtain ⟨low, high, _⟩ := gapRange_spec fits analysis first
      obtain ⟨low', high', _⟩ := gapRange_spec fits analysis second
      omega
    · rw [rom, gaps, List.map_map, ← total]
      congr 2
      apply List.map_congr_left
      intro gap known
      obtain ⟨first, last, _⟩ := gapRange_spec fits analysis known
      dsimp only [Function.comp]
      omega
    · apply named.mpr
      refine ⟨?_, calm⟩
      intro part listed
      cases listed

end Books

/-! ### The layout of the exporter -/

/-- What `runAnalysis` leaves. -/
def analysisResult (exporter : AsmExporter) : exporter.AnalysisResult where
  instructions := exporter.runAnalysis
  instructionCount := exporter.runAnalysis.length
  droppedOutsideWindow :=
    ((analyzeCodeMulti exporter.entries exporter.readByte
      exporter.config.maxAnalysisInstructions).instructions.filter
        fun instr => !exporter.inWindow instr).length
  clipped := fun _ listed => (List.mem_filter.mp listed).2

/-- The layout without names and comments is the one that `emitLayoutAsm` writes. -/
theorem buildLayout_runAnalysis (exporter : AsmExporter) :
    (exporter.buildLayout exporter.runAnalysis).owner = exporter.owner ∧
      (exporter.buildLayout exporter.runAnalysis).units.map (·.toAsmDataUnit) =
        exporter.dataUnits := by
  have objects : ∀ (objs : List RdbObject) (layout : Layout)
      (state : List Owner × List (Nat × Nat)),
      layout.owner = state.1 →
      layout.units.map (·.toAsmDataUnit) = state.2.map exporter.runUnit →
      (objs.foldl exporter.buildObject layout).owner =
          (objs.foldl exporter.layoutObject state).1 ∧
        (objs.foldl exporter.buildObject layout).units.map (·.toAsmDataUnit) =
          (objs.foldl exporter.layoutObject state).2.map exporter.runUnit := by
    intro objs
    induction objs with
    | nil => exact fun _ _ owner units => ⟨owner, units⟩
    | cons obj objs inductionHypothesis =>
      intro layout state owner units
      rw [List.foldl_cons, List.foldl_cons]
      apply inductionHypothesis
      · unfold buildObject layoutObject
        rw [owner]
        split
        · exact owner
        · split
          · exact owner
          · rfl
      · unfold buildObject layoutObject
        rw [owner]
        split
        · exact units
        · split
          · exact units
          · dsimp only
            rw [List.map_append, List.map_append, units, unitsOfRuns_data]
  unfold buildLayout owner dataUnits layout sortedObjects
  by_cases loaded : exporter.hasRdb = true
  · rw [if_pos loaded, if_pos loaded]
    exact objects _ _ (exporter.codeOwner, []) rfl rfl
  · rw [if_neg loaded, if_neg loaded]
    exact ⟨rfl, rfl⟩

/-- Without a database there is nothing to name. -/
theorem buildLayout_oneOwner_enclosed : enclosed.OneOwner enclosed.analysisResult := by
  apply (buildLayout_oneOwner_iff (by decide) enclosed.analysisResult).mpr
  intro done obj rest split
  exact absurd split.symm (List.append_ne_nil_of_right_ne_nil _ (List.cons_ne_nil _ _))

/-- A data object of four bytes that is named like the label of its last byte. -/
def straddler : RdbObject where
  address := 3
  type := .data
  name := ascii "label_0006"
  size := 4
  hasSize := true
  comment := []
  properties := []
  links := []

/-- A jump over two bytes of the object to a `HLT` in the middle of it. -/
def straddled : AsmExporter where
  config := { origin := 0, maxAnalysisInstructions := 10000 }
  rom := [0xc3, 0x05, 0x00, 0x11, 0x22, 0x76, 0x33]
  rdb := RdbController.empty.store straddler rfl
  hasRdb := true

theorem objects_straddled (addr : Word) :
    straddled.rdb.objects addr = if addr = straddler.address then some straddler else none := by
  change Function.update (fun _ : Word => (none : Option RdbObject)) straddler.address
    (some straddler) addr = _
  rw [Function.update_apply]

theorem mem_straddled {obj : RdbObject} :
    obj ∈ straddled.rdb.listObjects ↔ obj = straddler := by
  rw [straddled.rdb.mem_listObjects obj, objects_straddled]
  constructor
  · intro stored
    split at stored
    · exact (Option.some.inj stored).symm
    · cases stored
  · intro same
    rw [same, if_pos rfl]

theorem runAnalysis_of_entries {exporter : AsmExporter} {entries : List Word}
    (same : exporter.entries = entries) : exporter.runAnalysis =
      (analyzeCodeMulti entries exporter.readByte
        exporter.config.maxAnalysisInstructions).instructions.filter exporter.inWindow := by
  unfold runAnalysis
  rw [same]

theorem mem_sortedObjects {exporter : AsmExporter} (loaded : exporter.hasRdb = true)
    {obj : RdbObject} : obj ∈ exporter.sortedObjects ↔ obj ∈ exporter.rdb.listObjects := by
  unfold sortedObjects
  rw [if_pos loaded, List.mem_insertionSort]

/-- The unit of the last byte has the name of the object, which starts three bytes before. -/
theorem buildLayout_straddled : ¬straddled.OneOwner straddled.analysisResult := by
  have stored : straddler ∈ straddled.sortedObjects :=
    (mem_sortedObjects rfl).mpr (mem_straddled.mpr rfl)
  obtain ⟨done, rest, split, first⟩ := List.eq_append_cons_of_mem stored
  have alone : ∀ obj ∈ done, False := by
    intro obj listed
    have known : obj ∈ straddled.sortedObjects := by
      rw [split]
      exact List.mem_append_left _ listed
    have same : obj = straddler := mem_straddled.mp ((mem_sortedObjects rfl).mp known)
    rw [same] at listed
    exact first listed
  have seeds : straddled.rdb.listObjects.filter straddled.isSeed = [] := by
    rw [List.filter_eq_nil_iff]
    intro obj listed
    rw [mem_straddled.mp listed]
    decide
  have entries : straddled.entries = [0] := by
    unfold AsmExporter.entries
    rw [seeds]
    rfl
  have analysed := runAnalysis_of_entries entries
  intro books
  have fits : straddled.winEnd ≤ 0x10000 := by decide
  have named := (named_objects fits straddled.analysisResult.clipped straddled.sortedObjects [] _
    (built_nil straddled.analysisResult.clipped)).mp books.named
  apply named.2 done straddler rest split
  unfold analysisResult
  dsimp only
  rw [List.nil_append, analysed]
  refine ⟨by decide, 6, ⟨rfl, by decide, by decide, by decide⟩, ⟨by decide, ?_, ?_⟩,
    by decide, ?_, by decide⟩
  · unfold InstrHas
    decide
  · intro obj listed
    exact (alone obj listed).elim
  · intro free
    have taken : ∃ instr ∈ (analyzeCodeMulti [0] straddled.readByte
        straddled.config.maxAnalysisInstructions).instructions.filter straddled.inWindow,
          instr.address.toNat ≤ straddled.origin + 5 ∧
            straddled.origin + 5 < instr.address.toNat + instr.size := by
      decide
    obtain ⟨instr, listed, has⟩ := taken
    exact free.code instr listed has

end AsmExporter

end VectorDebugger
