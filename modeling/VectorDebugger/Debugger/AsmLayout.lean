import VectorDebugger.Debugger.AsmExporter

/-!
# The layout reproduces the image

The items of the layout leave no byte of the image out, and only instructions share bytes. So no
padding is ever written, and the image is reproduced exactly when an instruction that starts
inside another one ends inside one that starts before it. The analysis refuses to decode inside an
instruction that it has decoded, but not to decode an instruction that runs into one.
-/

namespace VectorDebugger

/-! ### What the analysis decodes -/

namespace CodeAnalysis

theorem getLength_pos (opcode : Byte) : 0 < getLength opcode := by
  unfold getLength
  dsimp only
  split <;> omega

/-- The decoded instructions are those of the map, and none is empty. -/
structure Decoded (analysis : CodeAnalysis) : Prop where
  /-- The addresses are the keys of the map. -/
  addresses : analysis.instructions.map (·.address) = analysis.instrEndMap.map (·.1)
  /-- Every instruction has an opcode. -/
  nonempty : ∀ instr ∈ analysis.instructions, 0 < instr.size

theorem Decoded.visit {analysis : CodeAnalysis} (decoded : analysis.Decoded)
    (readByte : DisasmReadFn) (addr : Word) : (analysis.visit readByte addr).Decoded := by
  obtain ⟨conflicts, same⟩ | ⟨-, -, recorded⟩ := analysis.visit_spec readByte addr
  · rw [same]
    exact ⟨decoded.addresses, decoded.nonempty⟩
  · rw [recorded]
    constructor
    · unfold record
      rw [List.map_append, List.map_append, decoded.addresses]
      rfl
    · intro instr listed
      have cases := List.mem_append.mp listed
      rcases cases with known | new
      · exact decoded.nonempty instr known
      · rw [List.mem_singleton.mp new]
        exact getLength_pos (readByte addr)

theorem loop_decoded (readByte : DisasmReadFn) (maxInstructions fuel : Nat) :
    ∀ analysis : CodeAnalysis, analysis.Decoded → analysis.DecodedOnce →
      (analysis.loop readByte maxInstructions fuel).Decoded ∧
        (analysis.loop readByte maxInstructions fuel).DecodedOnce := by
  induction fuel with
  | zero => exact fun _ decoded once => ⟨decoded, once⟩
  | succ fuel inductionHypothesis =>
    intro analysis decoded once
    unfold loop
    cases queue : analysis.workQueue with
    | nil => exact ⟨decoded, once⟩
    | cons addr rest =>
      dsimp only
      by_cases room : analysis.instructions.length < maxInstructions
      · rw [if_pos room]
        have popped : ({ analysis with workQueue := rest } : CodeAnalysis).Decoded :=
          ⟨decoded.addresses, decoded.nonempty⟩
        have again := (analysis.visit_left readByte queue once).1
        exact inductionHypothesis _ (popped.visit readByte addr) again
      · rw [if_neg room]
        exact ⟨decoded, once⟩

/-- No address is decoded twice, and no instruction is empty. -/
theorem analyzeCodeMulti_instructions (entryPoints : List Word) (readByte : DisasmReadFn)
    (maxInstructions : Nat) :
    (analyzeCodeMulti entryPoints readByte maxInstructions).instructions.Pairwise
        (fun one other => one.address ≠ other.address) ∧
      ∀ instr ∈ (analyzeCodeMulti entryPoints readByte maxInstructions).instructions,
        0 < instr.size := by
  have final := loop_decoded readByte maxInstructions (passBound (firstOccurrences entryPoints))
    (start (firstOccurrences entryPoints)) ⟨rfl, fun _ listed => nomatch listed⟩ List.nodup_nil
  obtain ⟨decoded, once⟩ := final
  unfold DecodedOnce at once
  rw [← decoded.addresses] at once
  have distinct := List.pairwise_map.mp once
  have sorted := List.perm_insertionSort
    (fun a b : AnalyzedInstruction => a.address ≤ b.address)
    ((start (firstOccurrences entryPoints)).loop readByte maxInstructions
      (passBound (firstOccurrences entryPoints))).instructions
  constructor
  · exact (sorted.pairwise_iff fun unequal => unequal.symm).mpr distinct
  · exact fun instr listed => decoded.nonempty instr (sorted.mem_iff.mp listed)

end CodeAnalysis

namespace AsmExporter

/-! ### Writing items that tile a window -/

/-- The items are in order and cover a window, and each is written with all its addresses. -/
structure Tiled (items : List Item) (first stop : Nat) : Prop where
  /-- The items are sorted, and no two start at the same address. -/
  sorted : items.Pairwise fun one other => one.start < other.start
  /-- The items are nonempty and lie in the window. -/
  inside : ∀ item ∈ items, first ≤ item.start ∧ item.start ≤ item.last ∧ item.last < stop
  /-- The items leave no address out. -/
  covered : ∀ a, first ≤ a → a < stop → ∃ item ∈ items, item.start ≤ a ∧ a ≤ item.last
  /-- The unit of an item writes the addresses of the item. -/
  written : ∀ item ∈ items,
    (unitOf item).addresses = List.range' item.start (item.last + 1 - item.start)

/-- The item, if it starts inside another one, ends inside one that starts before it. -/
def Nests (items : List Item) (item : Item) : Prop :=
  (∃ other ∈ items, other.start < item.start ∧ item.start ≤ other.last) →
    ∃ other ∈ items, other.start < item.start ∧ item.last ≤ other.last

/-- What holds in the loop of `emitLayoutAsm`, when `done` has been gone through. -/
structure Progress (items done rest : List Item) (first pc : Nat) : Prop where
  /-- The items are those before and those to come. -/
  split : items = done ++ rest
  /-- `pc` is where the last written item has ended. -/
  reached : pc = first ∨ ∃ item ∈ done, pc = item.last + 1
  /-- All items before end below `pc`. -/
  passed : ∀ item ∈ done, item.last < pc

theorem isPadding_unitOf (item : Item) : (unitOf item).isPadding = false := by
  unfold unitOf
  cases item.kind <;> rfl

section Emission

variable {items done rest : List Item} {item : Item} {first stop pc : Nat}

theorem Progress.skip (progress : Progress items done (item :: rest) first pc)
    (passed : item.last < pc) : Progress items (done ++ [item]) rest first pc := by
  constructor
  · rw [progress.split, List.append_assoc, List.singleton_append]
  · rcases progress.reached with start | ⟨other, listed, reached⟩
    · exact Or.inl start
    · exact Or.inr ⟨other, List.mem_append_left _ listed, reached⟩
  · intro other listed
    rcases List.mem_append.mp listed with before | new
    · exact progress.passed other before
    · rw [List.mem_singleton.mp new]
      exact passed

theorem Progress.write (progress : Progress items done (item :: rest) first pc)
    (ahead : pc ≤ item.last) : Progress items (done ++ [item]) rest first (item.last + 1) := by
  constructor
  · rw [progress.split, List.append_assoc, List.singleton_append]
  · exact Or.inr ⟨item, List.mem_append_right _ (List.mem_singleton_self item), rfl⟩
  · intro other listed
    rcases List.mem_append.mp listed with before | new
    · have below := progress.passed other before
      omega
    · rw [List.mem_singleton.mp new]
      omega

theorem Progress.head_mem (progress : Progress items done (item :: rest) first pc) :
    item ∈ items := by
  rw [progress.split]
  exact List.mem_append_right _ List.mem_cons_self

/-- An item that starts before the next one is among those before. -/
theorem Progress.mem_done (progress : Progress items done (item :: rest) first pc)
    (tiled : Tiled items first stop) {other : Item} (listed : other ∈ items)
    (before : other.start < item.start) : other ∈ done := by
  have sorted := tiled.sorted
  rw [progress.split] at sorted listed
  rcases List.mem_append.mp listed with early | late
  · exact early
  · rcases List.mem_cons.mp late with same | later
    · rw [same] at before
      omega
    · have order := (List.pairwise_cons.mp (List.pairwise_append.mp sorted).2.1).1 other later
      omega

theorem Progress.before (progress : Progress items done (item :: rest) first pc)
    (tiled : Tiled items first stop) {other : Item} (early : other ∈ done) :
    other.start < item.start := by
  have sorted := tiled.sorted
  rw [progress.split] at sorted
  exact (List.pairwise_append.mp sorted).2.2 other early item List.mem_cons_self

theorem Progress.mem_of_done (progress : Progress items done rest first pc) {other : Item}
    (early : other ∈ done) : other ∈ items := by
  rw [progress.split]
  exact List.mem_append_left _ early

/-- `pc` never falls below the window. -/
theorem Progress.first_le (progress : Progress items done rest first pc)
    (tiled : Tiled items first stop) : first ≤ pc := by
  rcases progress.reached with start | ⟨other, early, reached⟩
  · omega
  · have inside := tiled.inside other (progress.mem_of_done early)
    omega

/-- Nothing is left between `pc` and an item that has yet to be written. -/
theorem Progress.start_le (progress : Progress items done (item :: rest) first pc)
    (tiled : Tiled items first stop) (ahead : pc ≤ item.last) : item.start ≤ pc := by
  have inside := tiled.inside item progress.head_mem
  obtain ⟨other, listed, low, high⟩ := tiled.covered pc (progress.first_le tiled) (by omega)
  by_contra beyond
  have early := progress.mem_done tiled listed (by omega)
  have below := progress.passed other early
  omega

/-- When all items are gone through, so is the window. -/
theorem Progress.stop_le (progress : Progress items done [] first pc)
    (tiled : Tiled items first stop) : stop ≤ pc := by
  by_contra left
  obtain ⟨other, listed, low, high⟩ :=
    tiled.covered pc (progress.first_le tiled) (by omega)
  rw [progress.split, List.append_nil] at listed
  have below := progress.passed other listed
  omega

/-- An item that is covered already nests. -/
theorem Progress.nests_of_passed (progress : Progress items done (item :: rest) first pc)
    (tiled : Tiled items first stop) (passed : item.last < pc) : Nests items item := by
  intro _
  have inside := tiled.inside item progress.head_mem
  rcases progress.reached with start | ⟨other, early, reached⟩
  · omega
  · exact ⟨other, progress.mem_of_done early, progress.before tiled early, by omega⟩

/-- An item that is written nests when it starts at `pc`. -/
theorem Progress.nests_iff (progress : Progress items done (item :: rest) first pc)
    (tiled : Tiled items first stop) (ahead : pc ≤ item.last) :
    Nests items item ↔ item.start = pc := by
  have low := progress.start_le tiled ahead
  have inside := tiled.inside item progress.head_mem
  constructor
  · intro nests
    by_contra shared
    rcases progress.reached with start | ⟨other, early, reached⟩
    · omega
    · have order := progress.before tiled early
      obtain ⟨outer, listed, sooner, later⟩ :=
        nests ⟨other, progress.mem_of_done early, order, by omega⟩
      have below := progress.passed outer (progress.mem_done tiled listed sooner)
      omega
  · rintro start ⟨other, listed, sooner, later⟩
    have below := progress.passed other (progress.mem_done tiled listed sooner)
    omega

/-- The window has no holes, so nothing is padded. -/
theorem Progress.unpadded (tiled : Tiled items first stop) (rest : List Item) :
    ∀ (done : List Item) (pc : Nat), Progress items done rest first pc →
      ∀ part ∈ emit stop rest pc, part.isPadding = false := by
  induction rest with
  | nil =>
    intro done pc progress part listed
    have full := progress.stop_le tiled
    unfold emit at listed
    rw [if_neg (by omega)] at listed
    exact nomatch listed
  | cons item rest inductionHypothesis =>
    intro done pc progress part listed
    unfold emit at listed
    by_cases passed : item.last < pc
    · rw [if_pos passed] at listed
      exact inductionHypothesis _ _ (progress.skip passed) part listed
    · have low := progress.start_le tiled (by omega)
      rw [if_neg passed, if_neg (by omega), List.nil_append] at listed
      rcases List.mem_cons.mp listed with same | later
      · rw [same]
        exact isPadding_unitOf item
      · exact inductionHypothesis _ _ (progress.write (by omega)) part later

/-- A run of addresses is a shorter run and more exactly when both start together and the rest is
the run that remains. -/
theorem range_append_iff {start last pc stop : Nat} (inside : start ≤ last ∧ last < stop)
    (ahead : pc ≤ last) (others : List Nat) :
    List.range' start (last + 1 - start) ++ others = List.range' pc (stop - pc) ↔
      start = pc ∧ others = List.range' (last + 1) (stop - (last + 1)) := by
  have split : List.range' pc (stop - pc) =
      List.range' pc (last + 1 - pc) ++ List.range' (last + 1) (stop - (last + 1)) := by
    have joined := @List.range'_append_1 pc (last + 1 - pc) (stop - (last + 1))
    rw [show pc + (last + 1 - pc) = last + 1 by omega,
      show last + 1 - pc + (stop - (last + 1)) = stop - pc by omega] at joined
    exact joined.symm
  constructor
  · intro same
    have heads := congrArg List.head? same
    rw [show last + 1 - start = (last - start) + 1 by omega,
      show stop - pc = (stop - pc - 1) + 1 by omega, List.range'_succ, List.range'_succ] at heads
    have start_eq : start = pc := Option.some.inj heads
    rw [split, start_eq] at same
    exact ⟨start_eq, List.append_cancel_left same⟩
  · rintro ⟨rfl, rfl⟩
    exact split.symm

/-- The addresses from `pc` on are written in order exactly when the remaining items nest. -/
theorem Progress.addresses_iff (tiled : Tiled items first stop) (rest : List Item) :
    ∀ (done : List Item) (pc : Nat), Progress items done rest first pc →
      ((emit stop rest pc).flatMap LayoutUnit.addresses = List.range' pc (stop - pc) ↔
        ∀ item ∈ rest, Nests items item) := by
  induction rest with
  | nil =>
    intro done pc progress
    have full := progress.stop_le tiled
    unfold emit
    rw [if_neg (by omega), show stop - pc = 0 by omega]
    exact ⟨fun _ _ listed => (nomatch listed), fun _ => rfl⟩
  | cons item rest inductionHypothesis =>
    intro done pc progress
    have inside := tiled.inside item progress.head_mem
    unfold emit
    rw [List.forall_mem_cons]
    by_cases passed : item.last < pc
    · have nests := progress.nests_of_passed tiled passed
      rw [if_pos passed, inductionHypothesis _ _ (progress.skip passed)]
      exact ⟨fun others => ⟨nests, others⟩, And.right⟩
    · have ahead : pc ≤ item.last := by omega
      have low := progress.start_le tiled ahead
      rw [if_neg passed, if_neg (by omega), List.nil_append, List.flatMap_cons,
        tiled.written item progress.head_mem, range_append_iff inside.2 ahead,
        inductionHypothesis _ _ (progress.write ahead), progress.nests_iff tiled ahead]

end Emission

/-! ### Who owns a byte -/

section Ownership

variable {base owner owner' : List Owner} {runs : List (Nat × Nat)} {off stop : Nat}

/-- A run of free bytes is claimed from the offset on. -/
theorem claimRun_spec (stop fuel : Nat) : ∀ (owner : List Owner) (off : Nat),
    off ≤ (claimRun stop fuel owner off).2 ∧
      (claimRun stop fuel owner off).1.length = owner.length ∧
      (∀ k, off ≤ k → k < (claimRun stop fuel owner off).2 → owner[k]? = some .gap) ∧
      ∀ k, (claimRun stop fuel owner off).1[k]? =
        if off ≤ k ∧ k < (claimRun stop fuel owner off).2 then some .data else owner[k]? := by
  induction fuel with
  | zero =>
    intro owner off
    unfold claimRun
    refine ⟨Nat.le_refl off, rfl, fun k low high => absurd high (by omega), fun k => ?_⟩
    rw [if_neg (by omega)]
  | succ fuel inductionHypothesis =>
    intro owner off
    unfold claimRun
    by_cases free : off < stop ∧ owner[off]? = some .gap
    · rw [if_pos free]
      obtain ⟨further, length, gaps, now⟩ := inductionHypothesis (owner.set off .data) (off + 1)
      generalize claimRun stop fuel (owner.set off .data) (off + 1) = run at *
      rw [List.length_set] at length
      refine ⟨by omega, length, fun k low high => ?_, fun k => ?_⟩
      · by_cases here : k = off
        · rw [here]
          exact free.2
        · have later := gaps k (by omega) high
          rw [List.getElem?_set_ne (by omega)] at later
          exact later
      · rw [now k]
        by_cases here : k = off
        · have bound : off < owner.length := (List.getElem?_eq_some_iff.mp free.2).1
          rw [here, if_neg (by omega), if_pos (by omega), List.getElem?_set_self bound]
        · rw [List.getElem?_set_ne (by omega)]
          by_cases inside : off + 1 ≤ k ∧ k < run.2
          · rw [if_pos inside, if_pos (by omega)]
          · rw [if_neg inside, if_neg (by omega)]
    · rw [if_neg free]
      refine ⟨Nat.le_refl off, rfl, fun k low high => absurd high (by dsimp only; omega),
        fun k => ?_⟩
      rw [if_neg (by dsimp only; omega)]

theorem claimRun_lt (free : owner[off]? = some .gap) (more : off < stop) :
    off < (claimRun stop (stop - off) owner off).2 := by
  obtain ⟨fuel, enough⟩ : ∃ fuel, stop - off = fuel + 1 := ⟨stop - off - 1, by omega⟩
  rw [enough]
  unfold claimRun
  rw [if_pos ⟨more, free⟩]
  exact (claimRun_spec stop fuel (owner.set off .data) (off + 1)).1

/-- The runs claimed so far: they are apart, and they are the bytes that data owns. -/
structure Claimed (base owner : List Owner) (runs : List (Nat × Nat)) : Prop where
  /-- The image keeps its size. -/
  length : owner.length = base.length
  /-- Code keeps its bytes and gets no more. -/
  code : ∀ k : Nat, owner[k]? = some .code ↔ base[k]? = some .code
  /-- No run is empty. -/
  nonempty : ∀ run ∈ runs, 0 < run.2
  /-- The bytes of a run belong to data. -/
  owned : ∀ run ∈ runs, ∀ k, run.1 ≤ k → k < run.1 + run.2 → owner[k]? = some .data
  /-- The bytes that belong to data are those of a run. -/
  found : ∀ k : Nat, owner[k]? = some .data → ∃ run ∈ runs, run.1 ≤ k ∧ k < run.1 + run.2
  /-- No two runs share a byte. -/
  apart : runs.Pairwise fun one other => one.1 + one.2 ≤ other.1 ∨ other.1 + other.2 ≤ one.1

/-- One more run of free bytes is claimed. -/
theorem Claimed.push (claimed : Claimed base owner runs) (more : off < stop)
    (length : owner'.length = owner.length)
    (free : ∀ k, off ≤ k → k < stop → owner[k]? = some .gap)
    (now : ∀ k, owner'[k]? = if off ≤ k ∧ k < stop then some .data else owner[k]?) :
    Claimed base owner' (runs ++ [(off, stop - off)]) := by
  constructor
  · exact length.trans claimed.length
  · intro k
    rw [now k, ← claimed.code k]
    by_cases inside : off ≤ k ∧ k < stop
    · rw [if_pos inside, free k inside.1 inside.2]
      exact ⟨fun wrong => (nomatch wrong), fun wrong => (nomatch wrong)⟩
    · rw [if_neg inside]
  · intro run listed
    rcases List.mem_append.mp listed with known | new
    · exact claimed.nonempty run known
    · rw [List.mem_singleton.mp new]
      dsimp only
      omega
  · intro run listed k low high
    rw [now k]
    rcases List.mem_append.mp listed with known | new
    · rw [claimed.owned run known k low high, ite_self]
    · rw [List.mem_singleton.mp new] at low high
      dsimp only at low high
      rw [if_pos (by omega)]
  · intro k data
    rw [now k] at data
    by_cases inside : off ≤ k ∧ k < stop
    · refine ⟨(off, stop - off), List.mem_append_right _ (List.mem_singleton_self _), ?_⟩
      dsimp only
      omega
    · rw [if_neg inside] at data
      obtain ⟨run, known, within⟩ := claimed.found k data
      exact ⟨run, List.mem_append_left _ known, within⟩
  · rw [List.pairwise_append]
    refine ⟨claimed.apart, List.pairwise_singleton _ _, fun run known new listed => ?_⟩
    rw [List.mem_singleton.mp listed]
    dsimp only
    have nonempty := claimed.nonempty run known
    by_contra shared
    -- The first byte that both have belongs to data and to nobody.
    have data := claimed.owned run known (max run.1 off) (by omega) (by omega)
    rw [free (max run.1 off) (by omega) (by omega)] at data
    exact nomatch data

theorem Claimed.claimRuns (stop fuel : Nat) : ∀ (owner : List Owner) (off : Nat)
    (runs : List (Nat × Nat)), Claimed base owner runs →
      Claimed base (claimRuns stop fuel owner off).1
        (runs ++ (AsmExporter.claimRuns stop fuel owner off).2) := by
  induction fuel with
  | zero =>
    intro owner off runs claimed
    unfold AsmExporter.claimRuns
    rw [List.append_nil]
    exact claimed
  | succ fuel inductionHypothesis =>
    intro owner off runs claimed
    unfold AsmExporter.claimRuns
    by_cases more : off < stop
    · rw [if_pos more]
      by_cases free : owner[off]? = some .gap
      · rw [if_pos free]
        obtain ⟨-, length, gaps, now⟩ := claimRun_spec stop (stop - off) owner off
        have pushed := claimed.push (claimRun_lt free more) length gaps now
        have others := inductionHypothesis _ (claimRun stop (stop - off) owner off).2 _ pushed
        rw [List.append_assoc, List.singleton_append] at others
        exact others
      · rw [if_neg free]
        exact inductionHypothesis owner (off + 1) runs claimed
    · rw [if_neg more, List.append_nil]
      exact claimed

/-- What somebody owns stays owned. -/
theorem claimRuns_keeps (stop fuel k : Nat) : ∀ (owner : List Owner) (off : Nat),
    owner[k]? ≠ some .gap → (claimRuns stop fuel owner off).1[k]? ≠ some .gap := by
  induction fuel with
  | zero => exact fun _ _ kept => kept
  | succ fuel inductionHypothesis =>
    intro owner off kept
    unfold claimRuns
    by_cases more : off < stop
    · rw [if_pos more]
      by_cases free : owner[off]? = some .gap
      · rw [if_pos free]
        refine inductionHypothesis _ _ ?_
        rw [(claimRun_spec stop (stop - off) owner off).2.2.2 k]
        split
        · exact nofun
        · exact kept
      · rw [if_neg free]
        exact inductionHypothesis owner (off + 1) kept
    · rw [if_neg more]
      exact kept

/-- With a pass for every byte, the loop leaves no byte of the object without an owner. -/
theorem claimRuns_owned (stop fuel k : Nat) (below : k < stop) :
    ∀ (owner : List Owner) (off : Nat), off ≤ k → stop ≤ off + fuel →
      (claimRuns stop fuel owner off).1[k]? ≠ some .gap := by
  induction fuel with
  | zero => exact fun _ _ low enough => absurd low (by omega)
  | succ fuel inductionHypothesis =>
    intro owner off low enough
    unfold claimRuns
    rw [if_pos (by omega)]
    by_cases free : owner[off]? = some .gap
    · rw [if_pos free]
      have further := (claimRun_lt free (by omega) : off < (claimRun stop (stop - off) owner off).2)
      have now := (claimRun_spec stop (stop - off) owner off).2.2.2 k
      dsimp only
      generalize claimRun stop (stop - off) owner off = run at *
      by_cases within : k < run.2
      · rw [if_pos ⟨low, within⟩] at now
        exact claimRuns_keeps stop fuel k run.1 run.2 (by rw [now]; exact nofun)
      · exact inductionHypothesis run.1 run.2 (by omega) (by omega)
    · rw [if_neg free]
      by_cases here : k = off
      · rw [here]
        exact claimRuns_keeps stop fuel off owner (off + 1) free
      · exact inductionHypothesis owner (off + 1) (by omega) (by omega)

/-- The bytes of an instruction become code, as far as they lie in the image. -/
theorem ownInstruction_spec (exporter : AsmExporter) (owner : List Owner)
    (instr : AnalyzedInstruction) (low : exporter.origin ≤ instr.address.toNat) :
    (exporter.ownInstruction owner instr).length = owner.length ∧
      ∀ k, (exporter.ownInstruction owner instr)[k]? =
        if instr.address.toNat ≤ exporter.origin + k ∧
          exporter.origin + k < instr.address.toNat + instr.size ∧ k < owner.length
        then some .code else owner[k]? := by
  unfold ownInstruction
  induction instr.size with
  | zero =>
    refine ⟨rfl, fun k => ?_⟩
    rw [if_neg (by omega)]
    rfl
  | succ size inductionHypothesis =>
    rw [List.range_succ, List.foldl_append, List.foldl_cons, List.foldl_nil]
    obtain ⟨length, now⟩ := inductionHypothesis
    refine ⟨List.length_set.trans length, fun k => ?_⟩
    rw [List.getElem?_set, length, now k]
    by_cases here : instr.address.toNat + size - exporter.origin = k
    · rw [if_pos here]
      by_cases bound : k < owner.length
      · rw [if_pos (by omega), if_pos (by omega)]
      · rw [if_neg (by omega), if_neg (by omega), List.getElem?_eq_none (by omega)]
    · rw [if_neg here]
      by_cases inside : instr.address.toNat ≤ exporter.origin + k ∧
          exporter.origin + k < instr.address.toNat + size ∧ k < owner.length
      · rw [if_pos inside, if_pos (by omega)]
      · rw [if_neg inside, if_neg (by omega)]

/-- After the first loop, code owns the bytes of the instructions, and data owns nothing. -/
theorem foldl_ownInstruction (exporter : AsmExporter) (instrs : List AnalyzedInstruction)
    (low : ∀ instr ∈ instrs, exporter.origin ≤ instr.address.toNat) : ∀ owner : List Owner,
    (instrs.foldl exporter.ownInstruction owner).length = owner.length ∧
      ∀ k, ((instrs.foldl exporter.ownInstruction owner)[k]? = some .code ↔
          owner[k]? = some .code ∨ k < owner.length ∧ ∃ instr ∈ instrs,
            instr.address.toNat ≤ exporter.origin + k ∧
              exporter.origin + k < instr.address.toNat + instr.size) ∧
        ((instrs.foldl exporter.ownInstruction owner)[k]? = some .data →
          owner[k]? = some .data) := by
  induction instrs with
  | nil =>
    intro owner
    refine ⟨rfl, fun k => ⟨⟨Or.inl, ?_⟩, id⟩⟩
    rintro (code | ⟨-, instr, listed, -⟩)
    · exact code
    · exact nomatch listed
  | cons instr instrs inductionHypothesis =>
    intro owner
    obtain ⟨length, now⟩ := exporter.ownInstruction_spec owner instr (low instr List.mem_cons_self)
    obtain ⟨others, next⟩ := inductionHypothesis
      (fun other listed => low other (List.mem_cons_of_mem _ listed))
      (exporter.ownInstruction owner instr)
    rw [List.foldl_cons]
    refine ⟨others.trans length, fun k => ?_⟩
    obtain ⟨code, data⟩ := next k
    rw [length, now k] at code
    rw [now k] at data
    by_cases inside : instr.address.toNat ≤ exporter.origin + k ∧
        exporter.origin + k < instr.address.toNat + instr.size ∧ k < owner.length
    · rw [if_pos inside] at code data
      refine ⟨⟨fun _ => Or.inr ⟨inside.2.2, instr, List.mem_cons_self, inside.1, inside.2.1⟩,
        fun _ => code.mpr (Or.inl rfl)⟩, fun wrong => ?_⟩
      exact nomatch data wrong
    · rw [if_neg inside] at code data
      refine ⟨code.trans (or_congr_right ⟨?_, ?_⟩), data⟩
      · rintro ⟨bound, other, listed, within⟩
        exact ⟨bound, other, List.mem_cons_of_mem _ listed, within⟩
      · rintro ⟨bound, other, listed, within⟩
        rcases List.mem_cons.mp listed with same | later
        · rw [same] at within
          exact absurd ⟨within.1, within.2, bound⟩ inside
        · exact ⟨bound, other, later, within⟩

end Ownership

section Layout

variable (exporter : AsmExporter)

theorem runAnalysis_inside {instr : AnalyzedInstruction} (kept : instr ∈ exporter.runAnalysis) :
    exporter.origin ≤ instr.address.toNat ∧ 0 < instr.size ∧
      instr.address.toNat + instr.size ≤ exporter.winEnd := by
  obtain ⟨decoded, inside⟩ := List.mem_filter.mp kept
  have nonempty := (CodeAnalysis.analyzeCodeMulti_instructions exporter.entries exporter.readByte
    exporter.config.maxAnalysisInstructions).2 instr decoded
  unfold inWindow at inside
  rw [Bool.and_eq_true, decide_eq_true_eq, decide_eq_true_eq] at inside
  exact ⟨inside.1, nonempty, inside.2⟩

theorem codeOwner_spec : exporter.codeOwner.length = exporter.rom.length ∧
    ∀ k, (exporter.codeOwner[k]? = some .code ↔ k < exporter.rom.length ∧
        ∃ instr ∈ exporter.runAnalysis, instr.address.toNat ≤ exporter.origin + k ∧
          exporter.origin + k < instr.address.toNat + instr.size) ∧
      exporter.codeOwner[k]? ≠ some .data := by
  have low : ∀ instr ∈ exporter.runAnalysis, exporter.origin ≤ instr.address.toNat :=
    fun instr kept => (exporter.runAnalysis_inside kept).1
  obtain ⟨length, now⟩ := exporter.foldl_ownInstruction exporter.runAnalysis low
    (List.replicate exporter.rom.length .gap)
  rw [List.length_replicate] at length now
  refine ⟨length, fun k => ?_⟩
  obtain ⟨code, data⟩ := now k
  have gap : ∀ who, (List.replicate exporter.rom.length Owner.gap)[k]? = some who → who = .gap :=
    fun who found => List.eq_of_mem_replicate (List.mem_of_getElem? found)
  refine ⟨code.trans ⟨?_, Or.inr⟩, fun wrong => nomatch gap _ (data wrong)⟩
  rintro (wrong | inside)
  · exact nomatch gap _ wrong
  · exact inside

/-- What `buildLayout` leaves: the data units own what code has left of the objects. -/
theorem layout_claimed : Claimed exporter.codeOwner exporter.owner exporter.layout.2 := by
  have nothing : Claimed exporter.codeOwner exporter.codeOwner [] :=
    { length := rfl
      code := fun _ => Iff.rfl
      nonempty := fun _ listed => nomatch listed
      owned := fun _ listed => nomatch listed
      found := fun k data => absurd data (exporter.codeOwner_spec.2 k).2
      apart := List.Pairwise.nil }
  have objects : ∀ (objs : List RdbObject) (state : List Owner × List (Nat × Nat)),
      Claimed exporter.codeOwner state.1 state.2 →
        Claimed exporter.codeOwner (objs.foldl exporter.layoutObject state).1
          (objs.foldl exporter.layoutObject state).2 := by
    intro objs
    induction objs with
    | nil => exact fun _ claimed => claimed
    | cons obj objs inductionHypothesis =>
      intro state claimed
      rw [List.foldl_cons]
      refine inductionHypothesis _ ?_
      unfold layoutObject
      split
      · exact claimed
      · split
        · exact claimed
        · exact claimed.claimRuns _ _ _ _ _
  unfold owner layout
  split
  · exact objects _ _ nothing
  · exact nothing

theorem owner_length : exporter.owner.length = exporter.rom.length :=
  exporter.layout_claimed.length.trans exporter.codeOwner_spec.1

theorem owner_code (k : Nat) : exporter.owner[k]? = some .code ↔ k < exporter.rom.length ∧
    ∃ instr ∈ exporter.runAnalysis, instr.address.toNat ≤ exporter.origin + k ∧
      exporter.origin + k < instr.address.toNat + instr.size :=
  (exporter.layout_claimed.code k).trans (exporter.codeOwner_spec.2 k).1

theorem lt_of_owner {k : Nat} {who : Owner} (owned : exporter.owner[k]? = some who) :
    k < exporter.rom.length := by
  rw [← exporter.owner_length]
  exact (List.getElem?_eq_some_iff.mp owned).1

end Layout

/-! ### The gaps -/

section Gaps

variable {owner : List Owner}

theorem gapEnd_spec (owner : List Owner) (fuel : Nat) : ∀ j,
    j ≤ gapEnd owner fuel j ∧
      ∀ k, j ≤ k → k < gapEnd owner fuel j → owner[k]? = some .gap := by
  induction fuel with
  | zero => exact fun j => ⟨Nat.le_refl j, fun k low high => absurd low (Nat.not_le.mpr high)⟩
  | succ fuel inductionHypothesis =>
    intro j
    unfold gapEnd
    by_cases free : owner[j]? = some .gap
    · rw [if_pos free]
      obtain ⟨further, gaps⟩ := inductionHypothesis (j + 1)
      refine ⟨by omega, fun k low high => ?_⟩
      by_cases here : k = j
      · rw [here]
        exact free
      · exact gaps k (by omega) high
    · rw [if_neg free]
      exact ⟨Nat.le_refl j, fun k low high => absurd low (Nat.not_le.mpr high)⟩

theorem gapEnd_lt {i : Nat} (bound : i < owner.length) (free : owner[i]? = some .gap) :
    i < gapEnd owner (owner.length - i) i := by
  obtain ⟨fuel, enough⟩ : ∃ fuel, owner.length - i = fuel + 1 :=
    ⟨owner.length - i - 1, by omega⟩
  rw [enough]
  unfold gapEnd
  rw [if_pos free]
  exact (gapEnd_spec owner fuel (i + 1)).1

/-- The gaps from an offset on: they are apart, and they are the bytes that nobody owns. -/
structure Uncovered (owner : List Owner) (i : Nat) (gaps : List (Nat × Nat)) : Prop where
  /-- No gap is empty or starts before the offset. -/
  inside : ∀ gap ∈ gaps, i ≤ gap.1 ∧ gap.1 ≤ gap.2
  /-- Nobody owns a byte of a gap. -/
  free : ∀ gap ∈ gaps, ∀ k, gap.1 ≤ k → k ≤ gap.2 → owner[k]? = some .gap
  /-- A byte that nobody owns is in a gap. -/
  found : ∀ k : Nat, i ≤ k → owner[k]? = some .gap → ∃ gap ∈ gaps, gap.1 ≤ k ∧ k ≤ gap.2
  /-- No two gaps share a byte. -/
  apart : gaps.Pairwise fun one other => one.2 < other.1 ∨ other.2 < one.1

theorem uncoveredFrom_spec (fuel : Nat) : ∀ i, owner.length ≤ fuel + i →
    Uncovered owner i (uncoveredFrom owner fuel i) := by
  have none : ∀ i, owner.length ≤ i → Uncovered owner i [] := by
    intro i past
    refine ⟨fun _ listed => (nomatch listed), fun _ listed => (nomatch listed), fun k low gap => ?_,
      List.Pairwise.nil⟩
    have bound := (List.getElem?_eq_some_iff.mp gap).1
    omega
  induction fuel with
  | zero => exact fun i past => none i (by omega)
  | succ fuel inductionHypothesis =>
    intro i enough
    unfold uncoveredFrom
    by_cases bound : i < owner.length
    · rw [if_pos bound]
      by_cases free : owner[i]? = some .gap
      · rw [if_pos free]
        have further := gapEnd_lt bound free
        have gaps := (gapEnd_spec owner (owner.length - i) i).2
        dsimp only
        generalize gapEnd owner (owner.length - i) i = j at *
        have others := inductionHypothesis j (by omega)
        constructor
        · intro gap listed
          rcases List.mem_cons.mp listed with same | later
          · rw [same]
            dsimp only
            omega
          · have inside := others.inside gap later
            omega
        · intro gap listed k low high
          rcases List.mem_cons.mp listed with same | later
          · rw [same] at low high
            dsimp only at low high
            exact gaps k low (by omega)
          · exact others.free gap later k low high
        · intro k low gap
          by_cases here : k < j
          · refine ⟨(i, j - 1), List.mem_cons_self, ?_⟩
            dsimp only
            omega
          · obtain ⟨other, listed, within⟩ := others.found k (by omega) gap
            exact ⟨other, List.mem_cons_of_mem _ listed, within⟩
        · refine List.pairwise_cons.mpr ⟨fun other listed => ?_, others.apart⟩
          have inside := others.inside other listed
          dsimp only
          omega
      · rw [if_neg free]
        have others := inductionHypothesis (i + 1) (by omega)
        refine ⟨fun gap listed => ?_, others.free, fun k low gap => ?_, others.apart⟩
        · have inside := others.inside gap listed
          omega
        · have here : k ≠ i := by
            intro same
            rw [same] at gap
            exact free gap
          exact others.found k (by omega) gap
    · rw [if_neg bound]
      exact none i (by omega)

end Gaps

/-! ### The items tile the window -/

/-- The owner of the bytes of an item. -/
def ownerOf : ItemKind → Owner
  | .code _ => .code
  | .data => .data
  | .gap => .gap

section Items

variable (exporter : AsmExporter)

/-- The item lies in the window, its kind owns its bytes, and it is written with all of them. -/
structure Placed (item : Item) : Prop where
  /-- The item is nonempty and lies in the window. -/
  inside : exporter.origin ≤ item.start ∧ item.start ≤ item.last ∧ item.last < exporter.winEnd
  /-- Its bytes belong to what it stands for. -/
  owned : ∀ a, item.start ≤ a → a ≤ item.last →
    exporter.owner[a - exporter.origin]? = some (ownerOf item.kind)
  /-- Its unit writes its addresses. -/
  written : (unitOf item).addresses = List.range' item.start (item.last + 1 - item.start)

variable {exporter}

theorem codeItem_placed {instr : AnalyzedInstruction} (kept : instr ∈ exporter.runAnalysis) :
    exporter.Placed (codeItem instr) := by
  obtain ⟨low, nonempty, high⟩ := exporter.runAnalysis_inside kept
  unfold winEnd at high
  constructor
  · unfold codeItem winEnd
    dsimp only
    omega
  · unfold codeItem
    dsimp only
    intro a from' upto
    refine (exporter.owner_code _).mpr ⟨by omega, instr, kept, by omega, by omega⟩
  · have size : instr.address.toNat + instr.size - 1 + 1 - instr.address.toNat = instr.size := by
      omega
    unfold codeItem
    dsimp only
    rw [size]
    rfl

/-- The addresses of the image are 16-bit addresses. -/
theorem toNat_address (fits : exporter.winEnd ≤ 0x10000) {k : Nat}
    (bound : k < exporter.rom.length) :
    (BitVec.ofNat 16 (exporter.origin + k)).toNat = exporter.origin + k := by
  unfold winEnd at fits
  rw [BitVec.toNat_ofNat]
  exact Nat.mod_eq_of_lt (by omega)

theorem dataItem_run (fits : exporter.winEnd ≤ 0x10000) {run : Nat × Nat}
    (listed : run ∈ exporter.layout.2) :
    dataItem { address := BitVec.ofNat 16 (exporter.origin + run.1), size := run.2 } =
      { start := exporter.origin + run.1, last := exporter.origin + run.1 + run.2 - 1,
        kind := .data } := by
  have nonempty := exporter.layout_claimed.nonempty run listed
  have owned := exporter.layout_claimed.owned run listed run.1 (Nat.le_refl _) (by omega)
  unfold dataItem
  rw [toNat_address fits (exporter.lt_of_owner owned)]

theorem dataItem_placed (fits : exporter.winEnd ≤ 0x10000) {run : Nat × Nat}
    (listed : run ∈ exporter.layout.2) :
    exporter.Placed (dataItem
      { address := BitVec.ofNat 16 (exporter.origin + run.1), size := run.2 }) := by
  have nonempty := exporter.layout_claimed.nonempty run listed
  have owned := exporter.layout_claimed.owned run listed
  have bound := exporter.lt_of_owner (owned (run.1 + run.2 - 1) (by omega) (by omega))
  rw [dataItem_run fits listed]
  constructor
  · unfold winEnd
    dsimp only
    omega
  · dsimp only
    exact fun a from' upto => owned _ (by omega) (by omega)
  · rfl

/-- The gaps that `computeCoverage` finds are all the bytes that nobody owns. -/
theorem uncovered_spec (exporter : AsmExporter) :
    Uncovered exporter.owner 0 (uncoveredFrom exporter.owner exporter.owner.length 0) :=
  uncoveredFrom_spec exporter.owner.length 0 (Nat.le_refl _)

theorem gapItem_gap (fits : exporter.winEnd ≤ 0x10000) {gap : Nat × Nat}
    (listed : gap ∈ uncoveredFrom exporter.owner exporter.owner.length 0) :
    gapItem (BitVec.ofNat 16 (exporter.origin + gap.1),
        BitVec.ofNat 16 (exporter.origin + gap.2)) =
      { start := exporter.origin + gap.1, last := exporter.origin + gap.2, kind := .gap } := by
  have inside := exporter.uncovered_spec.inside gap listed
  have free := exporter.uncovered_spec.free gap listed
  unfold gapItem
  rw [toNat_address fits (exporter.lt_of_owner (free gap.1 (Nat.le_refl _) inside.2)),
    toNat_address fits (exporter.lt_of_owner (free gap.2 inside.2 (Nat.le_refl _)))]

theorem gapItem_placed (fits : exporter.winEnd ≤ 0x10000) {gap : Nat × Nat}
    (listed : gap ∈ uncoveredFrom exporter.owner exporter.owner.length 0) :
    exporter.Placed (gapItem (BitVec.ofNat 16 (exporter.origin + gap.1),
      BitVec.ofNat 16 (exporter.origin + gap.2))) := by
  have inside := exporter.uncovered_spec.inside gap listed
  have free := exporter.uncovered_spec.free gap listed
  have bound := exporter.lt_of_owner (free gap.2 inside.2 (Nat.le_refl _))
  rw [gapItem_gap fits listed]
  constructor
  · unfold winEnd
    dsimp only
    omega
  · dsimp only
    exact fun a from' upto => free _ (by omega) (by omega)
  · rfl

theorem mem_items {item : Item} : item ∈ exporter.items ↔
    (∃ instr ∈ exporter.runAnalysis, codeItem instr = item) ∨
      (∃ run ∈ exporter.layout.2, dataItem
        { address := BitVec.ofNat 16 (exporter.origin + run.1), size := run.2 } = item) ∨
      ∃ gap ∈ uncoveredFrom exporter.owner exporter.owner.length 0,
        gapItem (BitVec.ofNat 16 (exporter.origin + gap.1),
          BitVec.ofNat 16 (exporter.origin + gap.2)) = item := by
  unfold items dataUnits uncovered
  rw [List.map_map, List.map_map, List.mem_append, List.mem_append, List.mem_map, List.mem_map,
    List.mem_map, or_assoc]
  rfl

theorem items_placed (fits : exporter.winEnd ≤ 0x10000) {item : Item}
    (listed : item ∈ exporter.items) : exporter.Placed item := by
  rcases mem_items.mp listed with ⟨instr, kept, rfl⟩ | ⟨run, claimed, rfl⟩ | ⟨gap, free, rfl⟩
  · exact codeItem_placed kept
  · exact dataItem_placed fits claimed
  · exact gapItem_placed fits free

/-- No byte of the image is without an item. -/
theorem items_cover (fits : exporter.winEnd ≤ 0x10000) {a : Nat} (low : exporter.origin ≤ a)
    (high : a < exporter.winEnd) : ∃ item ∈ exporter.items, item.start ≤ a ∧ a ≤ item.last := by
  unfold winEnd at high
  have bound : a - exporter.origin < exporter.owner.length := by
    rw [exporter.owner_length]
    omega
  have owned := List.getElem?_eq_getElem bound
  cases who : exporter.owner[a - exporter.origin] with
  | code =>
    rw [who] at owned
    obtain ⟨-, instr, kept, from', upto⟩ := (exporter.owner_code _).mp owned
    refine ⟨codeItem instr, mem_items.mpr (Or.inl ⟨instr, kept, rfl⟩), ?_⟩
    unfold codeItem
    dsimp only
    omega
  | data =>
    rw [who] at owned
    obtain ⟨run, claimed, from', upto⟩ := exporter.layout_claimed.found _ owned
    refine ⟨_, mem_items.mpr (Or.inr (Or.inl ⟨run, claimed, rfl⟩)), ?_⟩
    rw [dataItem_run fits claimed]
    dsimp only
    omega
  | gap =>
    rw [who] at owned
    obtain ⟨gap, free, from', upto⟩ :=
      exporter.uncovered_spec.found _ (Nat.zero_le _) owned
    refine ⟨_, mem_items.mpr (Or.inr (Or.inr ⟨gap, free, rfl⟩)), ?_⟩
    rw [gapItem_gap fits free]
    dsimp only
    omega

/-- Items that stand for different things start at different addresses. -/
theorem Placed.start_ne {one other : Item} (placed : exporter.Placed one)
    (others : exporter.Placed other) (unlike : ownerOf one.kind ≠ ownerOf other.kind) :
    one.start ≠ other.start := by
  intro same
  have first := placed.owned one.start (Nat.le_refl _) placed.inside.2.1
  have second := others.owned other.start (Nat.le_refl _) others.inside.2.1
  rw [same, second] at first
  exact unlike (Option.some.inj first).symm

/-- No two items start at the same address. -/
theorem items_apart (fits : exporter.winEnd ≤ 0x10000) :
    exporter.items.Pairwise fun one other => one.start ≠ other.start := by
  unfold items dataUnits uncovered
  rw [List.map_map, List.map_map, List.pairwise_append, List.pairwise_append]
  refine ⟨⟨?_, ?_, ?_⟩, ?_, ?_⟩
  · have decoded := (CodeAnalysis.analyzeCodeMulti_instructions exporter.entries
      exporter.readByte exporter.config.maxAnalysisInstructions).1
    rw [List.pairwise_map]
    refine (decoded.filter _).imp fun unequal same => ?_
    exact unequal (BitVec.eq_of_toNat_eq same)
  · rw [List.pairwise_map]
    refine exporter.layout_claimed.apart.imp_of_mem fun {one other} first second apart => ?_
    have nonempty := exporter.layout_claimed.nonempty one first
    have others := exporter.layout_claimed.nonempty other second
    rw [Function.comp, Function.comp, dataItem_run fits first, dataItem_run fits second]
    dsimp only
    omega
  · rintro one first other second
    obtain ⟨instr, kept, rfl⟩ := List.mem_map.mp first
    obtain ⟨run, claimed, rfl⟩ := List.mem_map.mp second
    exact (codeItem_placed kept).start_ne (dataItem_placed fits claimed) nofun
  · rw [List.pairwise_map]
    refine exporter.uncovered_spec.apart.imp_of_mem fun {one other} first second apart => ?_
    have inside := exporter.uncovered_spec.inside one first
    have others := exporter.uncovered_spec.inside other second
    rw [Function.comp, Function.comp, gapItem_gap fits first, gapItem_gap fits second]
    dsimp only
    omega
  · rintro one first other second
    obtain ⟨gap, free, rfl⟩ := List.mem_map.mp second
    rcases List.mem_append.mp first with code | data
    · obtain ⟨instr, kept, rfl⟩ := List.mem_map.mp code
      exact (codeItem_placed kept).start_ne (gapItem_placed fits free) nofun
    · obtain ⟨run, claimed, rfl⟩ := List.mem_map.mp data
      exact (dataItem_placed fits claimed).start_ne (gapItem_placed fits free) nofun

/-- `items`, as `emitLayoutAsm` sorts them. -/
def sortedItems (exporter : AsmExporter) : List Item :=
  exporter.items.insertionSort fun a b => a.start ≤ b.start

theorem mem_sortedItems {item : Item} : item ∈ exporter.sortedItems ↔ item ∈ exporter.items :=
  List.mem_insertionSort _

theorem sortedItems_tiled (fits : exporter.winEnd ≤ 0x10000) :
    Tiled exporter.sortedItems exporter.origin exporter.winEnd := by
  have total : Std.Total fun a b : Item => a.start ≤ b.start := ⟨fun a b => Nat.le_total _ _⟩
  have transitive : IsTrans Item fun a b => a.start ≤ b.start :=
    ⟨fun _ _ _ first second => Nat.le_trans first second⟩
  constructor
  · have ordered := List.pairwise_insertionSort (fun a b : Item => a.start ≤ b.start)
      exporter.items
    have sorted := List.perm_insertionSort (fun a b : Item => a.start ≤ b.start) exporter.items
    have apart := (sorted.pairwise_iff fun unequal => unequal.symm).mpr (items_apart fits)
    exact (ordered.and apart).imp fun both => Nat.lt_of_le_of_ne both.1 both.2
  · exact fun item listed => (items_placed fits (mem_sortedItems.mp listed)).inside
  · intro a low high
    obtain ⟨item, listed, within⟩ := items_cover fits low high
    exact ⟨item, mem_sortedItems.mpr listed, within⟩
  · exact fun item listed => (items_placed fits (mem_sortedItems.mp listed)).written

/-! ### When the image is reproduced -/

/-- Two items that share a byte stand for the same thing. -/
theorem ownerOf_shared (fits : exporter.winEnd ≤ 0x10000) {one other : Item}
    (first : one ∈ exporter.items) (second : other ∈ exporter.items)
    (low : one.start ≤ other.start) (high : other.start ≤ one.last) :
    ownerOf one.kind = ownerOf other.kind := by
  have placed := items_placed fits second
  have here := (items_placed fits first).owned other.start low high
  have there := placed.owned other.start (Nat.le_refl _) placed.inside.2.1
  rw [here] at there
  exact Option.some.inj there

/-- Runs of data that share the first byte of one of them are one run. -/
theorem run_eq {one other : Nat × Nat} (first : one ∈ exporter.layout.2)
    (second : other ∈ exporter.layout.2) (low : one.1 ≤ other.1)
    (high : other.1 < one.1 + one.2) : one = other := by
  by_contra unlike
  have nonempty := exporter.layout_claimed.nonempty other second
  have symmetric : Std.Symm fun one other : Nat × Nat =>
      one.1 + one.2 ≤ other.1 ∨ other.1 + other.2 ≤ one.1 := ⟨fun _ _ disjoint => disjoint.symm⟩
  have apart := exporter.layout_claimed.apart.forall first second unlike
  omega

/-- Gaps that share the first byte of one of them are one gap. -/
theorem gap_eq {one other : Nat × Nat}
    (first : one ∈ uncoveredFrom exporter.owner exporter.owner.length 0)
    (second : other ∈ uncoveredFrom exporter.owner exporter.owner.length 0)
    (low : one.1 ≤ other.1) (high : other.1 ≤ one.2) : one = other := by
  by_contra unlike
  have inside := exporter.uncovered_spec.inside other second
  have symmetric : Std.Symm fun one other : Nat × Nat =>
      one.2 < other.1 ∨ other.2 < one.1 := ⟨fun _ _ disjoint => disjoint.symm⟩
  have apart := exporter.uncovered_spec.apart.forall first second unlike
  omega

/-- Only instructions share bytes. -/
theorem code_of_shared (fits : exporter.winEnd ≤ 0x10000) {one other : Item}
    (first : one ∈ exporter.items) (second : other ∈ exporter.items)
    (low : one.start < other.start) (high : other.start ≤ one.last) :
    (∃ instr ∈ exporter.runAnalysis, codeItem instr = one) ∧
      ∃ instr ∈ exporter.runAnalysis, codeItem instr = other := by
  have same := ownerOf_shared fits first second (Nat.le_of_lt low) high
  rcases mem_items.mp first with ⟨instr, kept, rfl⟩ | ⟨run, claimed, rfl⟩ | ⟨gap, free, rfl⟩ <;>
    rcases mem_items.mp second with ⟨code, keeps, rfl⟩ | ⟨later, claims, rfl⟩ | ⟨hole, frees, rfl⟩
  case inl.inl => exact ⟨⟨instr, kept, rfl⟩, code, keeps, rfl⟩
  case inr.inl.inr.inl =>
    rw [dataItem_run fits claimed, dataItem_run fits claims] at low high
    dsimp only at low high
    have one_run := run_eq claimed claims (by omega) (by omega)
    rw [one_run] at low
    omega
  case inr.inr.inr.inr =>
    rw [gapItem_gap fits free, gapItem_gap fits frees] at low high
    dsimp only at low high
    have one_gap := gap_eq free frees (by omega) (by omega)
    rw [one_gap] at low
    omega
  all_goals exact nomatch same

/-- The items nest exactly when the instructions do. -/
theorem nests_iff (fits : exporter.winEnd ≤ 0x10000) :
    (∀ item ∈ exporter.sortedItems, Nests exporter.sortedItems item) ↔
      exporter.InstructionsNest := by
  have item_of_code {instr : AnalyzedInstruction} (kept : instr ∈ exporter.runAnalysis) :
      codeItem instr ∈ exporter.sortedItems :=
    mem_sortedItems.mpr (mem_items.mpr (Or.inl ⟨instr, kept, rfl⟩))
  constructor
  · rintro nests instr kept ⟨other, keeps, before, inside⟩
    have sizes := (exporter.runAnalysis_inside kept).2.1
    obtain ⟨outer, listed, sooner, later⟩ := nests (codeItem instr) (item_of_code kept)
      ⟨codeItem other, item_of_code keeps, before, by unfold codeItem; dsimp only; omega⟩
    have shared : (codeItem instr).start ≤ outer.last :=
      ((codeItem_placed kept).inside.2.1).trans later
    obtain ⟨⟨cover, keep, rfl⟩, -⟩ := code_of_shared fits (mem_sortedItems.mp listed)
      (mem_sortedItems.mp (item_of_code kept)) sooner shared
    have coverSizes := (exporter.runAnalysis_inside keep).2.1
    unfold codeItem at sooner later
    dsimp only at sooner later
    exact ⟨cover, keep, sooner, by omega⟩
  · rintro nest item listed ⟨other, others, before, inside⟩
    obtain ⟨⟨first, keeps, rfl⟩, instr, kept, rfl⟩ := code_of_shared fits
      (mem_sortedItems.mp others) (mem_sortedItems.mp listed) before inside
    have sizes := (exporter.runAnalysis_inside keeps).2.1
    unfold codeItem at before inside
    dsimp only at before inside
    obtain ⟨outer, keep, sooner, later⟩ := nest instr kept ⟨first, keeps, before, by omega⟩
    refine ⟨codeItem outer, item_of_code keep, sooner, ?_⟩
    unfold codeItem
    dsimp only
    omega

/-- The bytes of a stretch of the image, in order, are the image. -/
theorem map_romByte (exporter : AsmExporter) :
    (List.range' exporter.origin exporter.rom.length).map exporter.romByte = exporter.rom := by
  apply List.ext_getElem
  · rw [List.length_map, List.length_range']
  · intro k mapped bound
    rw [List.getElem_map, List.getElem_range']
    unfold romByte
    rw [Nat.one_mul, Nat.add_sub_cancel_left, List.getD_eq_getElem?_getD,
      List.getElem?_eq_getElem bound, Option.getD_some]

/-- The layout writes the image exactly when its instructions nest. -/
theorem emitLayoutAsm_reproduces_iff (exporter : AsmExporter)
    (fits : exporter.winEnd ≤ 0x10000) :
    exporter.Reproduces exporter.emitLayoutAsm ↔ exporter.InstructionsNest := by
  have tiled := sortedItems_tiled fits
  have begin' : Progress exporter.sortedItems [] exporter.sortedItems exporter.origin
      exporter.origin := ⟨(List.nil_append _).symm, Or.inl rfl, fun _ listed => nomatch listed⟩
  have addresses := Progress.addresses_iff tiled exporter.sortedItems [] exporter.origin begin'
  have unpadded := Progress.unpadded tiled exporter.sortedItems [] exporter.origin begin'
  have size : exporter.winEnd - exporter.origin = exporter.rom.length := by
    unfold winEnd
    omega
  rw [size, nests_iff fits] at addresses
  constructor
  · exact fun reproduces => addresses.mp reproduces.once
  · intro nest
    have once := addresses.mpr nest
    refine ⟨unpadded, once, ?_⟩
    have bytes := exporter.map_romByte
    rw [← once] at bytes
    exact bytes

end Items

/-- A conditional jump over a `LXI`, to a `RET` that lies inside it. -/
def enclosed : AsmExporter where
  config := { origin := 0, maxAnalysisInstructions := 10000 }
  rom := [0xc2, 0x04, 0x00, 0x01, 0xc9, 0x00, 0x76]
  rdb := RdbController.empty
  hasRdb := false

theorem emitLayoutAsm_enclosed : enclosed.Reproduces enclosed.emitLayoutAsm := by
  have nest : enclosed.InstructionsNest := by
    unfold InstructionsNest
    decide
  exact (emitLayoutAsm_reproduces_iff enclosed (by decide)).mpr nest

/-- A loaded database without objects changes nothing. -/
theorem emitLayoutAsm_empty (exporter : AsmExporter) (empty : exporter.rdb.listObjects = []) :
    exporter.emitLayoutAsm = ({ exporter with hasRdb := false } : AsmExporter).emitLayoutAsm := by
  have entries : exporter.entries = ({ exporter with hasRdb := false } : AsmExporter).entries := by
    unfold AsmExporter.entries
    rw [empty]
    cases exporter.hasRdb <;> rfl
  have kept : exporter.runAnalysis =
      ({ exporter with hasRdb := false } : AsmExporter).runAnalysis := by
    unfold runAnalysis
    rw [entries]
    rfl
  have owners : exporter.codeOwner =
      ({ exporter with hasRdb := false } : AsmExporter).codeOwner := by
    unfold codeOwner
    rw [kept]
    rfl
  have layouts : exporter.layout = ({ exporter with hasRdb := false } : AsmExporter).layout := by
    unfold layout
    rw [empty, owners]
    cases exporter.hasRdb <;> rfl
  unfold emitLayoutAsm items dataUnits uncovered owner
  rw [kept, layouts]
  rfl

theorem listObjects_empty : RdbController.empty.listObjects = [] := by
  unfold RdbController.listObjects
  rw [List.filterMap_eq_nil_iff]
  exact fun _ _ => rfl

/-- A conditional jump over a `MVI`, to a `MVI` that starts inside it and ends after it. -/
def crossing : AsmExporter where
  config := { origin := 0, maxAnalysisInstructions := 10000 }
  rom := [0xc2, 0x04, 0x00, 0x3e, 0x3e, 0xc9, 0x76]
  rdb := RdbController.empty
  hasRdb := true

/-- The second byte of the first `MVI` is written twice. -/
theorem emitLayoutAsm_crossing : ¬crossing.Reproduces crossing.emitLayoutAsm := by
  intro reproduces
  have once := reproduces.once
  rw [emitLayoutAsm_empty crossing listObjects_empty] at once
  revert once
  decide

end AsmExporter

end VectorDebugger
