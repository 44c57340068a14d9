import VectorDebugger.Library.Transition
import VectorDebugger.Debugger.CodeSearch
import VectorDebugger.Debugger.Regions

/-!
# What the reference scan finds

The scan of memory in terms of sets. The first pass finds the calls, jumps and restarts that an
aligned decoding from a start or a symbol comes to; the second finds the calls and restarts among
the other bytes whose target is known. The set of targets that the second pass asks grows while it
runs, but never by one that was not known before, so its order does not matter.
-/

namespace VectorDebugger

/-- The opcodes that the call graph is about. -/
def isCallOrRst (opcode : Byte) : Bool := isCallOpcode opcode || isRstOpcode opcode

/-- The opcodes that are sources of references. -/
def isReference (opcode : Byte) : Bool := isCallOrRst opcode || isJmpOpcode opcode

namespace XrefScan

/-- The target that a reference has in the source. -/
def targetAt (readByte : DisasmReadFn) (addr : Word) : Word :=
  if isRstOpcode (readByte addr) then restartTarget (readByte addr) else operandWord readByte addr

/-- Where the core goes from an instruction, if it goes. -/
def instructionTarget (readByte : DisasmReadFn) (addr : Word) : Option Word :=
  match decode (readByte addr) with
  | .jmp | .jcc _ | .call | .ccc _ => some (operandWord readByte addr)
  | .rst n => some (BitVec.ofNat 16 (8 * n))
  | _ => none

/-- The next instruction of a linear decoding, which does not pass the end of memory. -/
def NextInstruction (readByte : DisasmReadFn) (addr next : Word) : Prop :=
  next = addr + BitVec.ofNat 16 (getLength (readByte addr)) ∧ addr < next

/-- A linear decoding from one address comes to another. -/
def Aligned (readByte : DisasmReadFn) : Word → Word → Prop :=
  Relation.ReflTransGen (NextInstruction readByte)

/-- The scan has found these sources. -/
structure Found (readByte : DisasmReadFn) (sources : Set Word) (scan : XrefScan) : Prop where
  /-- One reference a source. -/
  once : (scan.xrefs.map (·.source)).Nodup
  /-- A reference leads from a source to its target. -/
  xrefs : ∀ xref : XrefEntry,
    xref ∈ scan.xrefs ↔ xref.source ∈ sources ∧ xref.target = targetAt readByte xref.source
  /-- `seenFrom`. -/
  seen : ∀ addr, scan.seenFrom addr = true ↔ addr ∈ sources
  /-- `callTargets_`. -/
  called : ∀ target, scan.callTargets target = true ↔
    ∃ addr ∈ sources, isCallOrRst (readByte addr) = true ∧ targetAt readByte addr = target

end XrefScan

/-! ### Opcodes -/

section Opcodes

variable {opcode : Byte}

/-- The tables have a call as a call of three bytes. -/
theorem isCallOpcode_spec (call : isCallOpcode opcode = true) :
    getLength opcode = 3 ∧ isRstOpcode opcode = false ∧
      (decode opcode = .call ∨ ∃ cc, decode opcode = .ccc cc) := by
  unfold isCallOpcode at call
  have listed := List.contains_iff_mem.mp call
  simp only [List.mem_cons, List.not_mem_nil, or_false] at listed
  rcases listed with rfl | rfl | rfl | rfl | rfl | rfl | rfl | rfl | rfl
  · exact ⟨by decide, by decide, Or.inl rfl⟩
  all_goals exact ⟨by decide, by decide, Or.inr ⟨_, rfl⟩⟩

theorem isJmpOpcode_spec (jump : isJmpOpcode opcode = true) :
    getLength opcode = 3 ∧ isCallOrRst opcode = false ∧
      (decode opcode = .jmp ∨ ∃ cc, decode opcode = .jcc cc) := by
  unfold isJmpOpcode at jump
  have listed := List.contains_iff_mem.mp jump
  simp only [List.mem_cons, List.not_mem_nil, or_false] at listed
  rcases listed with rfl | rfl | rfl | rfl | rfl | rfl | rfl | rfl | rfl
  · exact ⟨by decide, by decide, Or.inl rfl⟩
  all_goals exact ⟨by decide, by decide, Or.inr ⟨_, rfl⟩⟩

theorem isRstOpcode_spec (restart : isRstOpcode opcode = true) :
    ∃ n, decode opcode = .rst n ∧ XrefScan.restartTarget opcode = BitVec.ofNat 16 (8 * n) := by
  unfold isRstOpcode at restart
  have listed := List.contains_iff_mem.mp restart
  simp only [List.mem_cons, List.not_mem_nil, or_false] at listed
  rcases listed with rfl | rfl | rfl | rfl | rfl | rfl | rfl | rfl
  all_goals exact ⟨_, rfl, by decide⟩

end Opcodes

namespace XrefScan

variable {readByte : DisasmReadFn} {addr : Word}

/-- The target of a reference is the target of its instruction. -/
theorem instructionTarget_eq (reference : isReference (readByte addr) = true) :
    instructionTarget readByte addr = some (targetAt readByte addr) := by
  unfold instructionTarget targetAt
  unfold isReference isCallOrRst at reference
  rw [Bool.or_eq_true, Bool.or_eq_true] at reference
  rcases reference with (call | restart) | jump
  · obtain ⟨-, plain, same | ⟨cc, same⟩⟩ := isCallOpcode_spec call
    · rw [same, plain, if_neg Bool.false_ne_true]
    · rw [same, plain, if_neg Bool.false_ne_true]
  · obtain ⟨n, same, vector⟩ := isRstOpcode_spec restart
    rw [same, if_pos restart, vector]
  · obtain ⟨-, plain, same | ⟨cc, same⟩⟩ := isJmpOpcode_spec jump
    · rw [same, (Bool.or_eq_false_iff.mp plain).2, if_neg Bool.false_ne_true]
    · rw [same, (Bool.or_eq_false_iff.mp plain).2, if_neg Bool.false_ne_true]

theorem targetAt_call (call : isCallOpcode (readByte addr) = true) :
    targetAt readByte addr = operandWord readByte addr := by
  unfold targetAt
  rw [(isCallOpcode_spec call).2.1, if_neg Bool.false_ne_true]

theorem targetAt_jmp (jump : isJmpOpcode (readByte addr) = true) :
    targetAt readByte addr = operandWord readByte addr := by
  have plain := Bool.or_eq_false_iff.mp (isJmpOpcode_spec jump).2.1
  unfold targetAt
  rw [plain.2, if_neg Bool.false_ne_true]

theorem targetAt_rst (restart : isRstOpcode (readByte addr) = true) :
    targetAt readByte addr = restartTarget (readByte addr) := by
  unfold targetAt
  rw [if_pos restart]

/-! ### One address -/

namespace Found

variable {sources : Set Word} {scan : XrefScan}

/-- What was read does not matter. -/
theorem read (found : Found readByte sources scan) (addrs : List Word) :
    Found readByte sources (scan.read addrs) :=
  ⟨found.once, found.xrefs, found.seen, found.called⟩

theorem congr {other : Set Word} (found : Found readByte sources scan)
    (same : ∀ addr, addr ∈ sources ↔ addr ∈ other) : Found readByte other scan := by
  rw [← Set.ext same]
  exact found

/-- Two scans that have found the same sources have the same references. -/
theorem perm {other : XrefScan} (found : Found readByte sources scan)
    (found' : Found readByte sources other) : scan.xrefs.Perm other.xrefs := by
  have once := List.Nodup.of_map _ found.once
  have once' := List.Nodup.of_map _ found'.once
  rw [List.perm_ext_iff_of_nodup once once']
  intro xref
  rw [found.xrefs, found'.xrefs]

/-- Nothing is found at first. -/
theorem start : Found readByte ∅ XrefScan.start where
  once := List.nodup_nil
  xrefs := fun _ => iff_of_false List.not_mem_nil fun both => both.1
  seen := fun _ => iff_of_false Bool.false_ne_true fun member => member
  called := fun _ => iff_of_false Bool.false_ne_true fun ⟨_, member, _⟩ => member

/-- A source is added, once. -/
theorem record (found : Found readByte sources scan) {isCall : Bool}
    (kind : isCall = isCallOrRst (readByte addr)) :
    Found readByte (sources ∪ {addr}) (scan.record addr (targetAt readByte addr) isCall) := by
  have known : scan.seenFrom addr = true ↔ addr ∈ sources := found.seen addr
  unfold XrefScan.record
  refine ⟨?_, fun xref => ?_, fun other => ?_, fun target => ?_⟩
  · dsimp only
    split
    · exact found.once
    · rename_i unseen
      rw [List.map_append, List.nodup_append]
      refine ⟨found.once, List.nodup_singleton _, ?_⟩
      rintro source listed _ (single) rfl
      rw [List.map_singleton, List.mem_singleton] at single
      obtain ⟨xref, member, same⟩ := List.mem_map.mp listed
      have old := ((found.xrefs xref).mp member).1
      rw [same, single] at old
      exact unseen (known.mpr old)
  · dsimp only
    rw [Set.mem_union, Set.mem_singleton_iff]
    split
    · rename_i seen
      rw [found.xrefs xref]
      constructor
      · exact fun ⟨old, leads⟩ => ⟨Or.inl old, leads⟩
      · rintro ⟨old | same, leads⟩
        · exact ⟨old, leads⟩
        · rw [same]
          rw [same] at leads
          exact ⟨known.mp seen, leads⟩
    · rw [List.mem_append, List.mem_singleton, found.xrefs xref]
      constructor
      · rintro (⟨old, leads⟩ | rfl)
        · exact ⟨Or.inl old, leads⟩
        · exact ⟨Or.inr rfl, rfl⟩
      · rintro ⟨old | same, leads⟩
        · exact Or.inl ⟨old, leads⟩
        · refine Or.inr ?_
          cases xref
          simp only at same leads
          rw [leads, same]
  · dsimp only
    rw [Set.mem_union, Set.mem_singleton_iff]
    by_cases same : other = addr
    · rw [same, Function.update_self]
      exact iff_of_true rfl (Or.inr rfl)
    · rw [Function.update_of_ne same, found.seen other]
      exact ⟨Or.inl, fun either => either.resolve_right same⟩
  · have before : scan.callTargets target = true ↔
        ∃ source ∈ sources, isCallOrRst (readByte source) = true ∧
          targetAt readByte source = target := found.called target
    dsimp only
    constructor
    · intro called
      by_cases old : scan.callTargets target = true
      · obtain ⟨source, member, leads⟩ := before.mp old
        exact ⟨source, Or.inl member, leads⟩
      · split at called
        · rename_i call
          by_cases same : target = targetAt readByte addr
          · exact ⟨addr, Or.inr rfl, kind ▸ call, same.symm⟩
          · rw [Function.update_of_ne same] at called
            exact absurd called old
        · exact absurd called old
    · rintro ⟨source, member, call, leads⟩
      rcases member with old | new
      · have was := before.mpr ⟨source, old, call, leads⟩
        split
        · by_cases same : target = targetAt readByte addr
          · rw [same, Function.update_self]
          · rw [Function.update_of_ne same]
            exact was
        · exact was
      · rw [Set.mem_singleton_iff.mp new] at call leads
        rw [if_pos (kind.trans call), leads, Function.update_self]

/-- Decoding an instruction adds its address, if it is a reference. -/
theorem decodeAt (found : Found readByte sources scan) (addr : Word) :
    Found readByte (sources ∪ {source | source = addr ∧ isReference (readByte addr) = true})
      (scan.decodeAt readByte addr (readByte addr) (getLength (readByte addr))) := by
  have added : isReference (readByte addr) = true →
      sources ∪ {addr} =
        sources ∪ {source | source = addr ∧ isReference (readByte addr) = true} := by
    intro reference
    ext source
    simp [reference]
  unfold XrefScan.decodeAt
  split
  · rename_i call
    have call' := (Bool.and_eq_true_iff.mp call).1
    have kind : true = isCallOrRst (readByte addr) := by
      unfold isCallOrRst
      rw [call', Bool.true_or]
    rw [← added (by unfold isReference; rw [← kind]; rfl), ← targetAt_call call']
    exact (found.read _).record kind
  · rename_i noCall
    split
    · rename_i jump
      have jump' := (Bool.and_eq_true_iff.mp jump).1
      rw [← added (by unfold isReference; rw [jump', Bool.or_true]), ← targetAt_jmp jump']
      exact (found.read _).record (isJmpOpcode_spec jump').2.1.symm
    · rename_i noJump
      split
      · rename_i restart
        have kind : true = isCallOrRst (readByte addr) := by
          unfold isCallOrRst
          rw [restart, Bool.or_true]
        rw [← added (by unfold isReference; rw [← kind]; rfl), ← targetAt_rst restart]
        exact found.record kind
      · rename_i noRestart
        refine found.congr fun source => ?_
        refine ⟨Or.inl, fun either => either.resolve_right fun ⟨_, reference⟩ => ?_⟩
        unfold isReference isCallOrRst at reference
        rw [Bool.or_eq_true, Bool.or_eq_true] at reference
        rcases reference with (call | restart) | jump
        · exact noCall (by rw [call, (isCallOpcode_spec call).1]; rfl)
        · exact noRestart restart
        · exact noJump (by rw [jump, (isJmpOpcode_spec jump).1]; rfl)

end Found

/-! ### One walk -/

/-- A decoding goes upwards. -/
theorem Aligned.le {seed addr : Word} (aligned : Aligned readByte seed addr) : seed ≤ addr := by
  induction aligned with
  | refl => exact BitVec.le_refl seed
  | tail reached next below => exact BitVec.le_trans below (BitVec.le_of_lt next.2)

/-- A decoding is at its start, or it goes on with the next instruction. -/
theorem aligned_iff {seed addr : Word} : Aligned readByte seed addr ↔
    addr = seed ∨ seed < seed + BitVec.ofNat 16 (getLength (readByte seed)) ∧
      Aligned readByte (seed + BitVec.ofNat 16 (getLength (readByte seed))) addr := by
  unfold Aligned
  rw [Relation.ReflTransGen.cases_head_iff]
  constructor
  · rintro (same | ⟨_, ⟨rfl, rises⟩, rest⟩)
    · exact Or.inl same.symm
    · exact Or.inr ⟨rises, rest⟩
  · rintro (same | ⟨rises, rest⟩)
    · exact Or.inl same.symm
    · exact Or.inr ⟨_, ⟨rfl, rises⟩, rest⟩

/-- The references that a decoding from the seed comes to up to the last address. -/
def walked (readByte : DisasmReadFn) (last seed : Word) : Set Word :=
  {addr | Aligned readByte seed addr ∧ addr ≤ last ∧ isReference (readByte addr) = true}

/-- More passes than there are addresses change nothing. -/
theorem walk_enough (last : Word) (fuel extra : Nat) : ∀ {addr : Word} {scan : XrefScan},
    65536 ≤ addr.toNat + fuel →
      walk readByte last (fuel + extra) addr scan = walk readByte last fuel addr scan := by
  induction fuel with
  | zero =>
    intro addr scan enough
    have low := addr.isLt
    omega
  | succ fuel inductionHypothesis =>
    intro addr scan enough
    rw [Nat.succ_add]
    unfold walk
    dsimp only
    split
    · split
      · rfl
      · rename_i rises
        apply inductionHypothesis
        have above := BitVec.lt_def.mp (BitVec.not_le.mp rises)
        omega
    · rfl

/-- A walk finds the references of its decoding. -/
theorem Found.walk (last : Word) (fuel : Nat) : ∀ {sources : Set Word} {scan : XrefScan}
    {addr : Word}, Found readByte sources scan → 65536 ≤ addr.toNat + fuel →
      Found readByte (sources ∪ walked readByte last addr)
        (XrefScan.walk readByte last fuel addr scan) := by
  induction fuel with
  | zero =>
    intro sources scan addr found enough
    have low := addr.isLt
    omega
  | succ fuel inductionHypothesis =>
    intro sources scan addr found enough
    unfold XrefScan.walk
    dsimp only
    split
    · rename_i inside
      have decoded := (found.read [addr]).decodeAt addr
      split
      · rename_i wrapped
        -- The decoding ends here, because the next address is not above this one.
        refine decoded.congr fun source => or_congr_right ?_
        constructor
        · rintro ⟨rfl, reference⟩
          exact ⟨Relation.ReflTransGen.refl, inside, reference⟩
        · rintro ⟨aligned, -, reference⟩
          rcases aligned_iff.mp aligned with rfl | ⟨rises, -⟩
          · exact ⟨rfl, reference⟩
          · exact absurd wrapped (BitVec.not_le.mpr rises)
      · rename_i rises
        have above := BitVec.not_le.mp rises
        have above' := BitVec.lt_def.mp above
        refine (inductionHypothesis decoded (by omega)).congr fun source => ?_
        rw [Set.union_assoc]
        refine or_congr_right ?_
        constructor
        · rintro (⟨rfl, reference⟩ | ⟨aligned, below, reference⟩)
          · exact ⟨Relation.ReflTransGen.refl, inside, reference⟩
          · exact ⟨aligned_iff.mpr (Or.inr ⟨above, aligned⟩), below, reference⟩
        · rintro ⟨aligned, below, reference⟩
          rcases aligned_iff.mp aligned with rfl | ⟨-, rest⟩
          · exact Or.inl ⟨rfl, reference⟩
          · exact Or.inr ⟨rest, below, reference⟩
    · rename_i outside
      refine found.congr fun source => ?_
      refine ⟨Or.inl, fun either => either.resolve_right fun passed => ?_⟩
      obtain ⟨aligned, below, -⟩ := passed
      exact outside (BitVec.le_trans aligned.le below)

end XrefScan

/-! ### The first pass -/

namespace XrefTable

variable (table : XrefTable) (symbols : SymbolDatabase) (readByte : DisasmReadFn)

/-- A reference that an aligned decoding from the start of a range, or from a symbol inside it,
comes to before the range ends. -/
def FirstSource (addr : Word) : Prop :=
  ∃ range ∈ table.scanRanges, ∃ seed,
    (seed = range.1 ∨ (symbols.symbols seed).isSome = true) ∧ range.1 ≤ seed ∧
      addr ∈ XrefScan.walked readByte range.2 seed

/-- The target of a call or restart that the first pass finds. -/
def FirstCallTarget (target : Word) : Prop :=
  ∃ addr, table.FirstSource symbols readByte addr ∧ isCallOrRst (readByte addr) = true ∧
    XrefScan.targetAt readByte addr = target

/-- A symbol, a target of a call that the first pass finds, or an address of a code region. -/
def Plausible (target : Word) : Prop :=
  (symbols.symbols target).isSome = true ∨ table.FirstCallTarget symbols readByte target ∨
    ∃ range ∈ table.codeRanges, range.1 ≤ target ∧ target ≤ range.2

/-- A call or restart to such a target. -/
def SecondSource (addr : Word) : Prop :=
  isCallOrRst (readByte addr) = true ∧
    table.Plausible symbols readByte (XrefScan.targetAt readByte addr)

/-- There is a code region or a symbol, without which the second pass is not made. -/
def Knows : Prop := table.codeRanges ≠ [] ∨ ∃ addr, (symbols.symbols addr).isSome = true

/-- A source that one of the passes finds. -/
def Recorded (addr : Word) : Prop :=
  table.FirstSource symbols readByte addr ∨
    table.Knows symbols ∧ table.SecondSource symbols readByte addr

variable {table symbols readByte}

theorem mem_codeRanges {range : Word × Word} : range ∈ table.codeRanges ↔
    ∃ reg ∈ table.regions, reg.type = .code ∧ (reg.start, reg.last) = range := by
  unfold codeRanges
  simp only [List.mem_map, List.mem_filter, decide_eq_true_eq, and_assoc]

/-- A range holds its start, and no address lies in two ranges. -/
theorem scanRanges_apart (ordered : RegionsOrdered table.regions) {range : Word × Word}
    (listed : range ∈ table.scanRanges) : range.1 ≤ range.2 ∧
      ∀ other ∈ table.scanRanges, ∀ addr : Word, range.1 ≤ addr → addr ≤ range.2 →
        other.1 ≤ addr → addr ≤ other.2 → other = range := by
  unfold scanRanges at listed ⊢
  split at listed
  · rename_i empty
    rw [if_pos empty, List.mem_singleton.mp listed]
    exact ⟨by decide, fun other same _ _ _ _ _ => List.mem_singleton.mp same⟩
  · rename_i some'
    rw [if_neg some']
    obtain ⟨reg, known, -, rfl⟩ := mem_codeRanges.mp listed
    refine ⟨ordered.bounds reg known, fun other listed' addr low high low' high' => ?_⟩
    obtain ⟨reg', known', -, rfl⟩ := mem_codeRanges.mp listed'
    rw [ordered.unique known' known ⟨low', high'⟩ ⟨low, high⟩]

theorem mem_allAddresses (addr : Word) : addr ∈ allAddresses := by
  unfold allAddresses
  exact List.mem_map.mpr ⟨addr.toNat, List.mem_range.mpr addr.isLt, by simp⟩

/-- The seeds are the starts of ranges and the symbols. -/
theorem mem_seeds {seed : Word} : seed ∈ table.seeds symbols ↔
    (∃ range ∈ table.scanRanges, range.1 = seed) ∨ (symbols.symbols seed).isSome = true := by
  unfold seeds
  rw [List.mem_filter, Bool.or_eq_true, List.any_eq_true]
  simp only [decide_eq_true_eq, mem_allAddresses, true_and]

/-- What the first pass finds from one seed. -/
def seedFinds (table : XrefTable) (readByte : DisasmReadFn) (seed : Word) : Set Word :=
  {addr | ∃ range ∈ table.scanRanges.find? fun range => range.1 ≤ seed && seed ≤ range.2,
    addr ∈ XrefScan.walked readByte range.2 seed}

theorem decodeFrom_found {sources : Set Word} {scan : XrefScan}
    (found : XrefScan.Found readByte sources scan) (seed : Word) :
    XrefScan.Found readByte (sources ∪ table.seedFinds readByte seed)
      (scan.decodeFrom readByte table.scanRanges seed) := by
  unfold XrefScan.decodeFrom seedFinds
  cases table.scanRanges.find? fun range => range.1 ≤ seed && seed ≤ range.2 with
  | none => exact found.congr fun addr => by simp
  | some range =>
    have enough : 65536 ≤ seed.toNat + 65536 := Nat.le_add_left _ _
    exact (found.walk range.2 65536 enough).congr fun addr => by simp

/-- The seeds together find the sources of the first pass. -/
theorem mem_seedFinds (ordered : RegionsOrdered table.regions) (addr : Word) :
    (∃ seed ∈ table.seeds symbols, addr ∈ table.seedFinds readByte seed) ↔
      table.FirstSource symbols readByte addr := by
  constructor
  · rintro ⟨seed, listed, range, containing, walked⟩
    have inside := List.find?_some containing
    rw [Bool.and_eq_true, decide_eq_true_eq, decide_eq_true_eq] at inside
    have known := List.mem_of_find?_eq_some containing
    refine ⟨range, known, seed, ?_, inside.1, walked⟩
    rcases mem_seeds.mp listed with ⟨other, known', rfl⟩ | symbol
    · -- The start of another range does not lie in this one.
      have bounds := (scanRanges_apart ordered known').1
      have same := (scanRanges_apart ordered known).2 other known' other.1 inside.1 inside.2
        (BitVec.le_refl _) bounds
      exact Or.inl (congrArg Prod.fst same)
    · exact Or.inr symbol
  · rintro ⟨range, known, seed, kind, above, walked⟩
    have below : seed ≤ range.2 := BitVec.le_trans walked.1.le walked.2.1
    refine ⟨seed, ?_, range, ?_, walked⟩
    · rcases kind with rfl | symbol
      · exact mem_seeds.mpr (Or.inl ⟨range, known, rfl⟩)
      · exact mem_seeds.mpr (Or.inr symbol)
    · have here : (range.1 ≤ seed && seed ≤ range.2) = true := by
        rw [Bool.and_eq_true, decide_eq_true_eq, decide_eq_true_eq]
        exact ⟨above, below⟩
      cases containing : table.scanRanges.find? fun range => range.1 ≤ seed && seed ≤ range.2 with
      | none => exact absurd here (List.find?_eq_none.mp containing range known)
      | some other =>
        have inside := List.find?_some containing
        rw [Bool.and_eq_true, decide_eq_true_eq, decide_eq_true_eq] at inside
        have same := (scanRanges_apart ordered known).2 other
          (List.mem_of_find?_eq_some containing) seed above below inside.1 inside.2
        rw [same]
        rfl

/-- The first pass finds its sources. -/
theorem firstPass_found (ordered : RegionsOrdered table.regions) :
    XrefScan.Found readByte {addr | table.FirstSource symbols readByte addr}
      (table.firstPass symbols readByte) := by
  have step : ∀ (sources : Set Word) (scan : XrefScan) (seed : Word),
      XrefScan.Found readByte sources scan →
        XrefScan.Found readByte (sources ∪ table.seedFinds readByte seed)
          (scan.decodeFrom readByte table.scanRanges seed) :=
    fun _ _ seed found => decodeFrom_found found seed
  have pass := Transition.foldl_collects step (table.seeds symbols) XrefScan.Found.start
  unfold firstPass
  refine pass.congr fun addr => ?_
  rw [Set.empty_union]
  exact mem_seedFinds ordered addr

/-! ### The second pass -/

/-- In the second pass: all sources of the first pass are found, and of the others some that the
second looks for. -/
structure Recovering (table : XrefTable) (symbols : SymbolDatabase) (readByte : DisasmReadFn)
    (sources : Set Word) (scan : XrefScan) : Prop where
  /-- These sources are found. -/
  found : XrefScan.Found readByte sources scan
  /-- The first pass is over. -/
  first : ∀ addr, table.FirstSource symbols readByte addr → addr ∈ sources
  /-- The others are of the second pass. -/
  second : ∀ addr ∈ sources, table.FirstSource symbols readByte addr ∨
    table.SecondSource symbols readByte addr

namespace Recovering

variable {sources : Set Word} {scan : XrefScan}

theorem read (recovering : table.Recovering symbols readByte sources scan) (addrs : List Word) :
    table.Recovering symbols readByte sources (scan.read addrs) :=
  ⟨recovering.found.read addrs, recovering.first, recovering.second⟩

/-- The targets that the second pass has added were plausible before it. -/
theorem targetIsPlausible_iff (recovering : table.Recovering symbols readByte sources scan)
    (target : Word) : table.targetIsPlausible symbols scan target = true ↔
      table.Plausible symbols readByte target := by
  unfold targetIsPlausible Plausible
  rw [Bool.or_eq_true, Bool.or_eq_true, or_assoc, recovering.found.called]
  have inCode : (table.codeRanges.any fun range => range.1 ≤ target && target ≤ range.2) = true ↔
      ∃ range ∈ table.codeRanges, range.1 ≤ target ∧ target ≤ range.2 := by
    simp only [List.any_eq_true, Bool.and_eq_true, decide_eq_true_eq]
  rw [inCode]
  constructor
  · rintro (symbol | ⟨addr, member, call, rfl⟩ | code)
    · exact Or.inl symbol
    · rcases recovering.second addr member with first | second
      · exact Or.inr (Or.inl ⟨addr, first, call, rfl⟩)
      · exact second.2
    · exact Or.inr (Or.inr code)
  · rintro (symbol | ⟨addr, first, call, leads⟩ | code)
    · exact Or.inl symbol
    · exact Or.inr (Or.inl ⟨addr, recovering.first addr first, call, leads⟩)
    · exact Or.inr (Or.inr code)

/-- One address is added if the second pass looks for it. -/
theorem recoverAt (recovering : table.Recovering symbols readByte sources scan) (addr : Word) :
    table.Recovering symbols readByte
      (sources ∪ {source | source = addr ∧ table.SecondSource symbols readByte addr})
      (scan.recoverAt readByte (table.targetIsPlausible symbols) addr) := by
  have others : ∀ source ∈ sources ∪
      {source | source = addr ∧ table.SecondSource symbols readByte addr},
      table.FirstSource symbols readByte source ∨ table.SecondSource symbols readByte source := by
    rintro source (old | ⟨rfl, second⟩)
    · exact recovering.second source old
    · exact Or.inr second
  refine ⟨?_, fun source first => Or.inl (recovering.first source first), others⟩
  -- A call or restart is recorded exactly when its target is plausible.
  have step : ∀ {read : XrefScan}, table.Recovering symbols readByte sources read →
      isCallOrRst (readByte addr) = true →
        XrefScan.Found readByte
          (sources ∪ {source | source = addr ∧ table.SecondSource symbols readByte addr})
          (if table.targetIsPlausible symbols read (XrefScan.targetAt readByte addr) then
            read.record addr (XrefScan.targetAt readByte addr) true else read) := by
    intro read fetched call
    split
    · rename_i likely
      have second : table.SecondSource symbols readByte addr :=
        ⟨call, (fetched.targetIsPlausible_iff _).mp likely⟩
      exact (fetched.found.record call.symm).congr fun source => by simp [second]
    · rename_i unlikely
      refine fetched.found.congr fun source => ⟨Or.inl, fun either => ?_⟩
      refine either.resolve_right fun ⟨_, second⟩ => unlikely ?_
      exact (fetched.targetIsPlausible_iff _).mpr second.2
  unfold XrefScan.recoverAt
  split
  · rename_i seen
    refine recovering.found.congr fun source => ⟨Or.inl, ?_⟩
    rintro (old | ⟨rfl, -⟩)
    · exact old
    · exact (recovering.found.seen source).mp seen
  · dsimp only
    split
    · rename_i call
      rw [← XrefScan.targetAt_call call]
      apply step ((recovering.read _).read _)
      unfold isCallOrRst
      rw [call, Bool.true_or]
    · rename_i noCall
      split
      · rename_i restart
        rw [← XrefScan.targetAt_rst restart]
        apply step (recovering.read _)
        unfold isCallOrRst
        rw [restart, Bool.or_true]
      · rename_i noRestart
        refine (recovering.read _).found.congr fun source => ⟨Or.inl, fun either => ?_⟩
        refine either.resolve_right fun ⟨_, second⟩ => ?_
        unfold SecondSource isCallOrRst at second
        rw [Bool.eq_false_iff.mpr noCall, Bool.eq_false_iff.mpr noRestart] at second
        exact absurd second.1 Bool.false_ne_true

end Recovering

/-- After the first pass. -/
theorem firstPass_recovering (ordered : RegionsOrdered table.regions) :
    table.Recovering symbols readByte {addr | table.FirstSource symbols readByte addr}
      (table.firstPass symbols readByte) :=
  ⟨firstPass_found ordered, fun _ first => first, fun _ first => Or.inl first⟩

/-- The second pass finds what it looks for, in whatever order it takes the addresses. -/
theorem secondPass_found (ordered : RegionsOrdered table.regions) {order : List Word}
    (every : order.Perm allAddresses) :
    XrefScan.Found readByte {addr | table.FirstSource symbols readByte addr ∨
        table.SecondSource symbols readByte addr}
      (order.foldl (XrefScan.recoverAt readByte (table.targetIsPlausible symbols))
        (table.firstPass symbols readByte)) := by
  have step : ∀ (sources : Set Word) (scan : XrefScan) (addr : Word),
      table.Recovering symbols readByte sources scan →
        table.Recovering symbols readByte
          (sources ∪ {source | source = addr ∧ table.SecondSource symbols readByte addr})
          (scan.recoverAt readByte (table.targetIsPlausible symbols) addr) :=
    fun _ _ addr recovering => recovering.recoverAt addr
  have pass := Transition.foldl_collects step order (firstPass_recovering ordered)
  refine pass.found.congr fun addr => or_congr_right ?_
  constructor
  · rintro ⟨_, -, rfl, second⟩
    exact second
  · exact fun second => ⟨addr, every.mem_iff.mpr (mem_allAddresses addr), rfl, second⟩

/-- The second pass is made when something is known. -/
theorem knowsTargets_iff : table.knowsTargets symbols = true ↔ table.Knows symbols := by
  unfold knowsTargets Knows
  simp only [Bool.or_eq_true, Bool.not_eq_true', List.isEmpty_eq_false_iff, List.any_eq_true,
    mem_allAddresses, true_and]

/-- A scan finds the recorded sources. -/
theorem scan_found (ordered : RegionsOrdered table.regions) :
    XrefScan.Found readByte {addr | table.Recorded symbols readByte addr}
      (table.scan symbols readByte) := by
  unfold scan
  dsimp only
  split
  · rename_i known
    have known' := knowsTargets_iff.mp known
    refine (secondPass_found ordered (List.Perm.refl allAddresses)).congr fun addr => ?_
    exact or_congr_right (iff_and_self.mpr fun _ => known')
  · rename_i unknown
    refine (firstPass_found ordered).congr fun addr => ?_
    refine ⟨Or.inl, fun either => either.resolve_right fun ⟨known, _⟩ => ?_⟩
    exact unknown (knowsTargets_iff.mpr known)

/-- The references after `rebuildXrefs`. -/
theorem mem_rebuildXrefs (ordered : RegionsOrdered table.regions) (xref : XrefEntry) :
    xref ∈ (table.rebuildXrefs symbols readByte).xrefs ↔
      table.Recorded symbols readByte xref.source ∧
        xref.target = XrefScan.targetAt readByte xref.source :=
  (scan_found ordered).xrefs xref

theorem source_rebuildXrefs (ordered : RegionsOrdered table.regions) (addr : Word) :
    (∃ xref ∈ (table.rebuildXrefs symbols readByte).xrefs, xref.source = addr) ↔
      table.Recorded symbols readByte addr := by
  constructor
  · rintro ⟨xref, listed, rfl⟩
    exact ((mem_rebuildXrefs ordered xref).mp listed).1
  · intro recorded
    exact ⟨⟨addr, XrefScan.targetAt readByte addr⟩,
      (mem_rebuildXrefs ordered _).mpr ⟨recorded, rfl⟩, rfl⟩

/-- What is recorded is a reference. -/
theorem Recorded.reference {addr : Word} (recorded : table.Recorded symbols readByte addr) :
    isReference (readByte addr) = true := by
  rcases recorded with ⟨range, -, seed, -, -, walked⟩ | ⟨-, call, -⟩
  · exact walked.2.2
  · unfold isReference
    rw [call, Bool.true_or]

/-- The scan is exact, when the second pass is made if `known` holds. -/
structure ScanExact (known : Prop) (table : XrefTable) (symbols : SymbolDatabase)
    (readByte : DisasmReadFn) : Prop where
  /-- A walk ends by itself. -/
  terminates : ∀ last seed scan extra, XrefScan.walk readByte last (65536 + extra) seed scan =
    XrefScan.walk readByte last 65536 seed scan
  /-- No two references have the same source. -/
  once : ((table.rebuildXrefs symbols readByte).xrefs.map (·.source)).Nodup
  /-- A reference leads from a call, jump or restart to where the core goes from there. -/
  targets : ∀ xref ∈ (table.rebuildXrefs symbols readByte).xrefs,
    isReference (readByte xref.source) = true ∧
      XrefScan.instructionTarget readByte xref.source = some xref.target
  /-- Every source of the first pass is recorded. -/
  first : ∀ addr, table.FirstSource symbols readByte addr →
    ∃ xref ∈ (table.rebuildXrefs symbols readByte).xrefs, xref.source = addr
  /-- Of the others, those that the second pass looks for. -/
  second : ∀ addr, ¬ table.FirstSource symbols readByte addr →
    ((∃ xref ∈ (table.rebuildXrefs symbols readByte).xrefs, xref.source = addr) ↔
      known ∧ table.SecondSource symbols readByte addr)
  /-- The second pass may take the addresses in any order. -/
  order : ∀ order : List Word, order.Perm allAddresses →
    (order.foldl (XrefScan.recoverAt readByte (table.targetIsPlausible symbols))
      (table.firstPass symbols readByte)).xrefs.Perm
    (allAddresses.foldl (XrefScan.recoverAt readByte (table.targetIsPlausible symbols))
      (table.firstPass symbols readByte)).xrefs

/-- `rebuildXrefs` finds exactly what it is for; it makes the second pass when there is a code
region or a symbol. -/
theorem rebuildXrefs_exact (ordered : RegionsOrdered table.regions) (symbols : SymbolDatabase)
    (readByte : DisasmReadFn) : ScanExact (table.Knows symbols) table symbols readByte where
  terminates := by
    intro last seed scan extra
    exact XrefScan.walk_enough last 65536 extra (Nat.le_add_left _ _)
  once := (scan_found ordered).once
  targets := by
    intro xref listed
    obtain ⟨recorded, leads⟩ := (mem_rebuildXrefs ordered xref).mp listed
    rw [leads]
    exact ⟨recorded.reference, XrefScan.instructionTarget_eq recorded.reference⟩
  first := fun addr first => (source_rebuildXrefs ordered addr).mpr (Or.inl first)
  second := by
    intro addr other
    rw [source_rebuildXrefs ordered addr]
    exact or_iff_right other
  order := fun order every => (secondPass_found ordered every).perm
    (secondPass_found ordered (List.Perm.refl allAddresses))

/-- Nothing is classified. -/
theorem init_ordered : RegionsOrdered init.regions :=
  ⟨fun _ listed => absurd listed List.not_mem_nil, List.Pairwise.nil⟩

theorem rebuildXrefs_exact_init :
    ScanExact (init.Knows .empty) init .empty fun _ => 0 :=
  rebuildXrefs_exact init_ordered .empty _

/-- `CALL 1234` and, as the operand of an `MVI` and after it, the same bytes again. -/
def hiddenCall (addr : Word) : Byte := [0xcd, 0x34, 0x12, 0x3e, 0xcd, 0x34, 0x12].getD addr.toNat 0

/-- The decoding from the start of memory passes over the second call. -/
theorem hiddenCall_aligned {addr : Word} (aligned : XrefScan.Aligned hiddenCall 0 addr) :
    addr = 0 ∨ addr = 3 ∨ 5 ≤ addr := by
  induction aligned with
  | refl => exact Or.inl rfl
  | tail reached next place =>
    obtain ⟨length, above⟩ := next
    rcases place with rfl | rfl | far
    · exact Or.inr (Or.inl length)
    · rw [length]
      exact Or.inr (Or.inr (by decide))
    · exact Or.inr (Or.inr (BitVec.le_trans far (BitVec.le_of_lt above)))

/-- Without code regions and symbols the first pass decodes from the start of memory. -/
theorem init_firstSource (readByte : DisasmReadFn) (addr : Word) :
    init.FirstSource .empty readByte addr ↔ addr ∈ XrefScan.walked readByte 0xffff 0 := by
  constructor
  · rintro ⟨range, listed, seed, kind, -, walked⟩
    rw [List.mem_singleton.mp listed] at kind walked
    rcases kind with rfl | symbol
    · exact walked
    · exact absurd symbol Bool.false_ne_true
  · intro walked
    exact ⟨_, List.mem_singleton_self _, 0, Or.inl rfl, BitVec.le_refl 0, walked⟩

/-- Without a code region or a symbol the second pass is not made, and the call in the operand is
not recorded although its target is called from 0000. -/
theorem rebuildXrefs_skips_second : ¬ ∀ (table : XrefTable) (symbols : SymbolDatabase)
    (readByte : DisasmReadFn), RegionsOrdered table.regions →
      ScanExact True table symbols readByte := by
  intro exact'
  have other : ¬ init.FirstSource .empty hiddenCall 4 := by
    rw [init_firstSource]
    rintro ⟨aligned, -, -⟩
    have place := hiddenCall_aligned aligned
    exact absurd place (by decide)
  have called : init.FirstCallTarget .empty hiddenCall 0x1234 :=
    ⟨0, (init_firstSource _ _).mpr ⟨Relation.ReflTransGen.refl, by decide, by decide⟩, by decide,
      by decide⟩
  have second : init.SecondSource .empty hiddenCall 4 := ⟨by decide, Or.inr (Or.inl called)⟩
  have recorded := ((exact' init .empty hiddenCall init_ordered).second 4 other).mpr
    ⟨trivial, second⟩
  rcases (source_rebuildXrefs init_ordered 4).mp recorded with first | ⟨known, -⟩
  · exact other first
  · rcases known with region | ⟨addr, symbol⟩
    · exact region rfl
    · exact absurd symbol Bool.false_ne_true

/-! ### The call graph -/

/-- The edges are the references whose source is a call or restart. -/
def CallsOnly (table : XrefTable) (readByte : DisasmReadFn) : Prop :=
  ∀ xref : XrefEntry, xref ∈ table.callGraph ↔
    xref ∈ table.xrefs ∧ isCallOrRst (readByte xref.source) = true

/-- No jump has the target of a call or restart. -/
def NoSharedTarget (table : XrefTable) (symbols : SymbolDatabase) (readByte : DisasmReadFn) :
    Prop :=
  ∀ jump call : Word, table.FirstSource symbols readByte jump →
    isJmpOpcode (readByte jump) = true → table.Recorded symbols readByte call →
      isCallOrRst (readByte call) = true →
        XrefScan.targetAt readByte jump ≠ XrefScan.targetAt readByte call

/-- The edges are the references to what is called. -/
theorem mem_callGraph (ordered : RegionsOrdered table.regions) (xref : XrefEntry) :
    xref ∈ (table.rebuildXrefs symbols readByte).callGraph ↔
      xref ∈ (table.rebuildXrefs symbols readByte).xrefs ∧
        ∃ addr, table.Recorded symbols readByte addr ∧ isCallOrRst (readByte addr) = true ∧
          XrefScan.targetAt readByte addr = xref.target := by
  unfold callGraph
  rw [List.mem_filter]
  exact and_congr_right fun _ => (scan_found ordered).called xref.target

/-- The call graph has calls only exactly when no jump shares its target with a call. -/
theorem callGraph_callsOnly_iff (ordered : RegionsOrdered table.regions)
    (symbols : SymbolDatabase) (readByte : DisasmReadFn) :
    (table.rebuildXrefs symbols readByte).CallsOnly readByte ↔
      table.NoSharedTarget symbols readByte := by
  constructor
  · intro only jump call first isJump recorded isCall same
    have plain := (isJmpOpcode_spec isJump).2.1
    have listed : (⟨jump, XrefScan.targetAt readByte jump⟩ : XrefEntry) ∈
        (table.rebuildXrefs symbols readByte).xrefs :=
      (mem_rebuildXrefs ordered _).mpr ⟨Or.inl first, rfl⟩
    have edge := (mem_callGraph ordered _).mpr ⟨listed, call, recorded, isCall, same.symm⟩
    have call' := ((only _).mp edge).2
    rw [plain] at call'
    exact Bool.false_ne_true call'
  · intro apart xref
    rw [mem_callGraph ordered]
    refine and_congr_right fun listed => ?_
    obtain ⟨recorded, leads⟩ := (mem_rebuildXrefs ordered xref).mp listed
    constructor
    · rintro ⟨call, recorded', isCall, same⟩
      have reference := recorded.reference
      unfold isReference at reference
      rcases Bool.or_eq_true_iff.mp reference with call' | isJump
      · exact call'
      · have plain := (isJmpOpcode_spec isJump).2.1
        rcases recorded with first | ⟨-, call', -⟩
        · exact absurd (leads.symm.trans same.symm)
            (apart _ call first isJump recorded' isCall)
        · exact call'
    · intro isCall
      exact ⟨xref.source, recorded, isCall, leads.symm⟩

theorem callGraph_callsOnly_init :
    (init.rebuildXrefs .empty fun _ => 0).CallsOnly (fun _ => 0) ↔
      init.NoSharedTarget .empty fun _ => 0 :=
  callGraph_callsOnly_iff init_ordered .empty _

/-- `CALL 1234` and `JMP 1234`. -/
def sharedTarget (addr : Word) : Byte := [0xcd, 0x34, 0x12, 0xc3, 0x34, 0x12].getD addr.toNat 0

/-- A jump to an address that is called is an edge. -/
theorem callGraph_jump : ¬ ∀ (table : XrefTable) (symbols : SymbolDatabase)
    (readByte : DisasmReadFn), RegionsOrdered table.regions →
      (table.rebuildXrefs symbols readByte).CallsOnly readByte := by
  intro only
  have next : XrefScan.Aligned sharedTarget 0 3 :=
    Relation.ReflTransGen.single ⟨by decide, by decide⟩
  have jump : init.FirstSource .empty sharedTarget 3 :=
    (init_firstSource _ _).mpr ⟨next, by decide, by decide⟩
  have call : init.FirstSource .empty sharedTarget 0 :=
    (init_firstSource _ _).mpr ⟨Relation.ReflTransGen.refl, by decide, by decide⟩
  have listed : (⟨3, 0x1234⟩ : XrefEntry) ∈ (init.rebuildXrefs .empty sharedTarget).xrefs :=
    (mem_rebuildXrefs init_ordered _).mpr ⟨Or.inl jump, by decide⟩
  have edge := (mem_callGraph init_ordered _).mpr
    ⟨listed, 0, Or.inl call, by decide, by decide⟩
  have isCall := ((only init .empty sharedTarget init_ordered _).mp edge).2
  exact absurd isCall (by decide)

end XrefTable

end VectorDebugger
