import VectorDebugger.Debugger.AsmLayout
import VectorDebugger.Library.Transition

/-!
# The analysis as a search

The loop of `analyzeCodeMulti` is a search of the control-flow graph. Every pass takes one address
from the queue; what has been found is reachable, and what is reachable is found, listed as a
conflict or still queued. The passes also decide which instructions overlap: an address is
refused when it lies inside an earlier instruction, but an instruction that reaches into an
earlier one is decoded, and so is an address in an instruction that runs past the last address.
-/

namespace VectorDebugger

/-! ### The graph -/

/-- The addresses to which the analyzer follows a reported instruction. -/
def AnalyzedInstruction.successors (instr : AnalyzedInstruction) : List Word :=
  match classifyControlFlow instr.opcode with
  | .unconditionalJmp => [instr.target]
  | .conditionalJmp | .unconditionalCall | .conditionalCall | .restart =>
    [instr.target, instr.address + BitVec.ofNat 16 instr.size]
  | .unconditionalRet | .halt | .indirectJump => []
  | .conditionalRet | .sequential => [instr.address + BitVec.ofNat 16 instr.size]

/-- A reported instruction leads from one address to another. -/
def Follows (instructions : List AnalyzedInstruction) (source target : Word) : Prop :=
  ∃ instr ∈ instructions, instr.address = source ∧ target ∈ instr.successors

/-- The address is an entry point, or reported instructions lead to it from one. -/
def ReachableFrom (entryPoints : List Word) (instructions : List AnalyzedInstruction)
    (addr : Word) : Prop :=
  ∃ entry ∈ entryPoints, Relation.ReflTransGen (Follows instructions) entry addr

theorem ReachableFrom.mono {entryPoints : List Word} {few more : List AnalyzedInstruction}
    (subset : few ⊆ more) {addr : Word} (reachable : ReachableFrom entryPoints few addr) :
    ReachableFrom entryPoints more addr := by
  obtain ⟨entry, listed, path⟩ := reachable
  have follows : ∀ a b, Follows few a b → Follows more a b := by
    rintro a b ⟨instr, known, start, next⟩
    exact ⟨instr, subset known, start, next⟩
  exact ⟨entry, listed, Relation.ReflTransGen.mono follows _ _ path⟩

theorem ReachableFrom.follow {entryPoints : List Word} {instructions : List AnalyzedInstruction}
    {instr : AnalyzedInstruction} (known : instr ∈ instructions) {addr : Word}
    (next : addr ∈ instr.successors)
    (reachable : ReachableFrom entryPoints instructions instr.address) :
    ReachableFrom entryPoints instructions addr := by
  obtain ⟨entry, listed, path⟩ := reachable
  exact ⟨entry, listed, path.tail ⟨instr, known, rfl, next⟩⟩

/-- The instruction has a byte at an address. Addresses wrap at the end of memory. -/
def AnalyzedInstruction.Covers (instr : AnalyzedInstruction) (addr : Word) : Prop :=
  (addr - instr.address).toNat < instr.size

instance (instr : AnalyzedInstruction) (addr : Word) : Decidable (instr.Covers addr) :=
  inferInstanceAs (Decidable (_ < _))

/-- Two instructions share a byte. -/
def AnalyzedInstruction.Overlaps (one other : AnalyzedInstruction) : Prop :=
  ∃ addr, one.Covers addr ∧ other.Covers addr

/-- What a search must find. -/
structure SearchComplete (entryPoints : List Word) (readByte : DisasmReadFn)
    (maxInstructions : Nat) (result : CodeAnalysisResult) : Prop where
  /-- Every instruction is what memory holds at its address. -/
  decoded : ∀ instr ∈ result.instructions, instr = (disassemble instr.address readByte).analyzed
  /-- Every instruction is reachable through reported instructions. -/
  reachable : ∀ instr ∈ result.instructions,
    ReachableFrom entryPoints result.instructions instr.address
  /-- No address is reported twice. -/
  once : result.instructions.Pairwise fun one other => one.address ≠ other.address
  /-- The limit is kept. -/
  bounded : result.instructions.length ≤ maxInstructions
  /-- Without truncation, nothing that the instructions lead to is missing. -/
  complete : result.truncated = false → ∀ addr,
    (addr ∈ entryPoints ∨ ∃ instr ∈ result.instructions, addr ∈ instr.successors) →
      (∃ instr ∈ result.instructions, instr.address = addr) ∨
        ∃ conflict ∈ result.conflicts, conflict.address = addr

namespace CodeAnalysis

variable {analysis : CodeAnalysis} {readByte : DisasmReadFn} {maxInstructions : Nat}
  {entryPoints : List Word}

/-! ### Passes of the loop -/

/-- One pass of the loop; nothing, when the loop has ended. -/
def pass (readByte : DisasmReadFn) (maxInstructions : Nat) (analysis : CodeAnalysis) :
    CodeAnalysis :=
  match analysis.workQueue with
  | [] => analysis
  | addr :: rest =>
    if analysis.instructions.length < maxInstructions then
      ({ analysis with workQueue := rest } : CodeAnalysis).visit readByte addr
    else analysis

/-- The next pass decodes the instruction at an address. -/
def Decodes (analysis : CodeAnalysis) (maxInstructions : Nat) (addr : Word) : Prop :=
  analysis.workQueue.head? = some addr ∧ analysis.instructions.length < maxInstructions ∧
    analysis.visited addr = false ∧ analysis.conflictAt addr = none

theorem pass_done (done : analysis.Done maxInstructions) :
    analysis.pass readByte maxInstructions = analysis := by
  unfold pass
  rcases done with empty | full
  · rw [empty]
  · cases analysis.workQueue with
    | nil => rfl
    | cons addr rest => exact if_neg (Nat.not_lt.mpr full)

theorem not_decodes_of_done (done : analysis.Done maxInstructions) {addr : Word} :
    ¬analysis.Decodes maxInstructions addr := by
  rintro ⟨head, room, -, -⟩
  rcases done with empty | full
  · rw [empty] at head
    exact nomatch head
  · omega

/-- The loop with a bound is as many passes. -/
theorem loop_eq_iterate (fuel : Nat) : ∀ analysis : CodeAnalysis,
    analysis.loop readByte maxInstructions fuel = (pass readByte maxInstructions)^[fuel] analysis
    := by
  induction fuel with
  | zero => exact fun _ => rfl
  | succ fuel inductionHypothesis =>
    intro analysis
    rw [Function.iterate_succ_apply]
    unfold loop
    cases queue : analysis.workQueue with
    | nil =>
      have done : analysis.Done maxInstructions := Or.inl queue
      rw [pass_done done, Function.iterate_fixed (pass_done done)]
    | cons addr rest =>
      dsimp only
      by_cases room : analysis.instructions.length < maxInstructions
      · rw [if_pos room, inductionHypothesis]
        congr 1
        unfold pass
        rw [queue]
        exact (if_pos room).symm
      · have done : analysis.Done maxInstructions := Or.inr (Nat.not_lt.mp room)
        rw [if_neg room, pass_done done, Function.iterate_fixed (pass_done done)]

/-- All that a pass can do. -/
theorem pass_cases (analysis : CodeAnalysis) :
    analysis.Done maxInstructions ∧ analysis.pass readByte maxInstructions = analysis ∨
      ∃ addr rest, analysis.workQueue = addr :: rest ∧
        analysis.instructions.length < maxInstructions ∧
        (analysis.visited addr = true ∧
            analysis.pass readByte maxInstructions = { analysis with workQueue := rest } ∨
          (∃ start, analysis.conflictAt addr = some start ∧
            analysis.pass readByte maxInstructions =
            { analysis with
              workQueue := rest
              conflicts := analysis.conflicts ++
                [{ address := addr, description := conflictText start }] }) ∨
          analysis.Decodes maxInstructions addr ∧
            analysis.pass readByte maxInstructions =
              ({ analysis with workQueue := rest } : CodeAnalysis).record
                (disassemble addr readByte)) := by
  cases queue : analysis.workQueue with
  | nil => exact Or.inl ⟨Or.inl queue, pass_done (Or.inl queue)⟩
  | cons addr rest =>
    by_cases room : analysis.instructions.length < maxInstructions
    · have passed : analysis.pass readByte maxInstructions =
          ({ analysis with workQueue := rest } : CodeAnalysis).visit readByte addr := by
        unfold pass
        rw [queue]
        exact if_pos room
      refine Or.inr ⟨addr, rest, rfl, room, ?_⟩
      rw [passed]
      unfold visit
      cases seen : analysis.visited addr with
      | true => exact Or.inl ⟨rfl, if_pos seen⟩
      | false =>
        have fresh : ({ analysis with workQueue := rest } : CodeAnalysis).visited addr = false :=
          seen
        rw [if_neg (by rw [fresh]; exact nofun)]
        cases conflict : analysis.conflictAt addr with
        | some start =>
          have refused : ({ analysis with workQueue := rest } : CodeAnalysis).conflictAt addr =
              some start := conflict
          rw [refused]
          exact Or.inr (Or.inl ⟨start, rfl, rfl⟩)
        | none =>
          have accepted : ({ analysis with workQueue := rest } : CodeAnalysis).conflictAt addr =
              none := conflict
          have head : analysis.workQueue.head? = some addr := by rw [queue]; rfl
          rw [accepted]
          exact Or.inr (Or.inr ⟨⟨head, room, seen, conflict⟩, rfl⟩)
    · have done : analysis.Done maxInstructions := Or.inr (Nat.not_lt.mp room)
      exact Or.inl ⟨done, pass_done done⟩

/-- A pass forgets no instruction. -/
theorem pass_instructions (analysis : CodeAnalysis) :
    analysis.instructions ⊆ (analysis.pass readByte maxInstructions).instructions := by
  obtain ⟨-, same⟩ | ⟨addr, rest, -, -, ⟨-, same⟩ | ⟨start, -, same⟩ | ⟨-, same⟩⟩ :=
    @pass_cases readByte maxInstructions analysis
  · rw [same]
    exact fun _ known => known
  · rw [same]
    exact fun _ known => known
  · rw [same]
    exact fun _ known => known
  · rw [same]
    exact List.subset_append_left _ _

/-! ### What the search keeps -/

/-- What holds between the passes of the search. -/
structure Searched (entryPoints : List Word) (readByte : DisasmReadFn) (maxInstructions : Nat)
    (analysis : CodeAnalysis) : Prop where
  /-- The map has the address and the size of every instruction. -/
  ends : analysis.instrEndMap =
    analysis.instructions.map fun instr => (instr.address, instr.size - 1)
  /-- Every instruction is what memory holds at its address. -/
  decoded : ∀ instr ∈ analysis.instructions,
    instr = (disassemble instr.address readByte).analyzed
  /-- Every queued address is reachable. -/
  queued : ∀ addr ∈ analysis.workQueue, ReachableFrom entryPoints analysis.instructions addr
  /-- Every instruction is reachable. -/
  reached : ∀ instr ∈ analysis.instructions,
    ReachableFrom entryPoints analysis.instructions instr.address
  /-- The limit is kept. -/
  bounded : analysis.instructions.length ≤ maxInstructions
  /-- What the instructions lead to is queued, decoded or listed as a conflict. -/
  closed : ∀ addr,
    (addr ∈ entryPoints ∨ ∃ instr ∈ analysis.instructions, addr ∈ instr.successors) →
      addr ∈ analysis.workQueue ∨ addr ∈ analysis.instructions.map (·.address) ∨
        addr ∈ analysis.conflicts.map (·.address)

theorem start_searched : (start entryPoints).Searched entryPoints readByte maxInstructions where
  ends := rfl
  decoded := fun _ listed => nomatch listed
  queued := fun addr listed => ⟨addr, listed, Relation.ReflTransGen.refl⟩
  reached := fun _ listed => nomatch listed
  bounded := Nat.zero_le _
  closed := by
    rintro addr (entry | ⟨instr, listed, -⟩)
    · exact Or.inl entry
    · exact nomatch listed

/-- The keys of the map are the addresses of the instructions. -/
theorem Searched.keys (searched : analysis.Searched entryPoints readByte maxInstructions) :
    analysis.instructions.map (·.address) = analysis.instrEndMap.map (·.1) := by
  rw [searched.ends, List.map_map]
  rfl

theorem Searched.mem_of_visited (searched : analysis.Searched entryPoints readByte maxInstructions)
    {addr : Word} (seen : analysis.visited addr = true) :
    addr ∈ analysis.instructions.map (·.address) := by
  obtain ⟨entry, listed, same⟩ := List.any_eq_true.mp seen
  rw [searched.keys]
  exact List.mem_map.mpr ⟨entry, listed, of_decide_eq_true same⟩

/-- An address taken from the queue may leave it when it is decoded or listed. -/
theorem Searched.pop (searched : analysis.Searched entryPoints readByte maxInstructions)
    {addr : Word} {rest : List Word} {conflicts : List AnalysisConflict}
    (queue : analysis.workQueue = addr :: rest) (kept : analysis.conflicts ⊆ conflicts)
    (settled : addr ∈ analysis.instructions.map (·.address) ∨ addr ∈ conflicts.map (·.address)) :
    ({ analysis with workQueue := rest, conflicts } : CodeAnalysis).Searched entryPoints readByte
      maxInstructions where
  ends := searched.ends
  decoded := searched.decoded
  queued := fun other listed => searched.queued other (queue ▸ List.mem_cons_of_mem _ listed)
  reached := searched.reached
  bounded := searched.bounded
  closed := by
    intro other leads
    rcases searched.closed other leads with queued | decoded | listed
    · rw [queue] at queued
      rcases List.mem_cons.mp queued with same | later
      · rw [same]
        exact Or.inr settled
      · exact Or.inl later
    · exact Or.inr (Or.inl decoded)
    · exact Or.inr (Or.inr (List.map_subset _ kept listed))

theorem Searched.record (searched : analysis.Searched entryPoints readByte maxInstructions)
    {addr : Word} {rest : List Word} (queue : analysis.workQueue = addr :: rest)
    (room : analysis.instructions.length < maxInstructions) :
    (({ analysis with workQueue := rest } : CodeAnalysis).record
      (disassemble addr readByte)).Searched entryPoints readByte maxInstructions := by
  have grown : analysis.instructions ⊆
      analysis.instructions ++ [(disassemble addr readByte).analyzed] :=
    List.subset_append_left _ _
  have new : (disassemble addr readByte).analyzed ∈
      analysis.instructions ++ [(disassemble addr readByte).analyzed] :=
    List.mem_append_right _ (List.mem_singleton_self _)
  have here : ReachableFrom entryPoints
      (analysis.instructions ++ [(disassemble addr readByte).analyzed]) addr :=
    (searched.queued addr (queue ▸ List.mem_cons_self)).mono grown
  constructor
  · unfold CodeAnalysis.record
    rw [List.map_append, searched.ends]
    rfl
  · intro instr listed
    rcases List.mem_append.mp listed with known | added
    · exact searched.decoded instr known
    · rw [List.mem_singleton.mp added]
      rfl
  · intro other listed
    rcases List.mem_append.mp listed with queued | pushed
    · exact (searched.queued other (queue ▸ List.mem_cons_of_mem _ queued)).mono grown
    · exact here.follow new (List.mem_filter.mp pushed).1
  · intro instr listed
    rcases List.mem_append.mp listed with known | added
    · exact (searched.reached instr known).mono grown
    · rw [List.mem_singleton.mp added]
      exact here
  · unfold CodeAnalysis.record
    rw [List.length_append, List.length_singleton]
    exact room
  · intro other leads
    have before : (other ∈ entryPoints ∨ ∃ instr ∈ analysis.instructions,
        other ∈ instr.successors) → other ∈ rest ∨
          other ∈ (analysis.instructions ++ [(disassemble addr readByte).analyzed]).map
            (·.address) ∨ other ∈ analysis.conflicts.map (·.address) := by
      intro early
      rcases searched.closed other early with queued | decoded | listed
      · rw [queue] at queued
        rcases List.mem_cons.mp queued with same | later
        · rw [same]
          exact Or.inr (Or.inl (List.mem_map.mpr ⟨_, new, rfl⟩))
        · exact Or.inl later
      · exact Or.inr (Or.inl (List.map_subset _ grown decoded))
      · exact Or.inr (Or.inr listed)
    have known : (other ∈ entryPoints ∨ ∃ instr ∈ analysis.instructions,
        other ∈ instr.successors) ∨ other ∈ (disassemble addr readByte).successors := by
      rcases leads with entry | ⟨instr, listed, next⟩
      · exact Or.inl (Or.inl entry)
      · rcases List.mem_append.mp listed with earlier | added
        · exact Or.inl (Or.inr ⟨instr, earlier, next⟩)
        · rw [List.mem_singleton.mp added] at next
          exact Or.inr next
    rcases known with early | next
    · rcases before early with queued | found
      · exact Or.inl (List.mem_append_left _ queued)
      · exact Or.inr found
    -- A successor is queued unless its address is a key of the map already.
    · set marked : CodeAnalysis := { analysis with
        instructions := analysis.instructions ++ [(disassemble addr readByte).analyzed]
        instrEndMap := analysis.instrEndMap ++
          [((disassemble addr readByte).address, (disassemble addr readByte).length - 1)] }
        with marking
      cases seen : marked.visited other with
      | true =>
        obtain ⟨entry, listed, same⟩ := List.any_eq_true.mp seen
        refine Or.inr (Or.inl ?_)
        have key : other ∈ marked.instrEndMap.map (·.1) :=
          List.mem_map.mpr ⟨entry, listed, of_decide_eq_true same⟩
        have keys : marked.instructions.map (·.address) = marked.instrEndMap.map (·.1) := by
          rw [marking, List.map_append, List.map_append, searched.keys]
          rfl
        rw [← keys] at key
        exact key
      | false =>
        refine Or.inl (List.mem_append_right _ (List.mem_filter.mpr ⟨next, ?_⟩))
        have fresh : (!marked.visited other) = true := by rw [seen]; rfl
        exact fresh

/-- A pass keeps what the search keeps. -/
theorem Searched.pass (searched : analysis.Searched entryPoints readByte maxInstructions) :
    (analysis.pass readByte maxInstructions).Searched entryPoints readByte maxInstructions := by
  obtain ⟨-, same⟩ | ⟨addr, rest, queue, room, ⟨seen, same⟩ | ⟨start, -, same⟩ | ⟨-, same⟩⟩ :=
    @pass_cases readByte maxInstructions analysis
  · rw [same]
    exact searched
  · rw [same]
    exact searched.pop queue (fun _ listed => listed) (Or.inl (searched.mem_of_visited seen))
  · rw [same]
    refine searched.pop queue (List.subset_append_left _ _) (Or.inr ?_)
    rw [List.map_append]
    exact List.mem_append_right _ (List.mem_singleton_self addr)
  · rw [same]
    exact searched.record queue room

theorem passes_searched (count : Nat) :
    ((CodeAnalysis.pass readByte maxInstructions)^[count] (start entryPoints)).Searched
      entryPoints readByte maxInstructions :=
  @Transition.iterate_invariant CodeAnalysis (CodeAnalysis.pass readByte maxInstructions)
    (Searched entryPoints readByte maxInstructions) (fun _ => True)
    (fun _ searched _ => searched.pass) count (start entryPoints) start_searched
    (fun _ _ => trivial)

end CodeAnalysis

theorem mem_firstOccurrences (entryPoints : List Word) (addr : Word) :
    addr ∈ firstOccurrences entryPoints ↔ addr ∈ entryPoints := by
  have folded : ∀ (entries kept : List Word),
      addr ∈ entries.foldl (fun kept ep => if kept.contains ep then kept else kept ++ [ep]) kept ↔
        addr ∈ kept ∨ addr ∈ entries := by
    intro entries
    induction entries with
    | nil =>
      exact fun kept => ⟨Or.inl, fun either => either.resolve_right (fun none => nomatch none)⟩
    | cons ep entries inductionHypothesis =>
      intro kept
      rw [List.foldl_cons, inductionHypothesis, List.mem_cons]
      by_cases known : kept.contains ep
      · have listed : ep ∈ kept := List.contains_iff_mem.mp known
        rw [if_pos known]
        constructor
        · exact fun either => either.imp_right Or.inr
        · rintro (earlier | same | later)
          · exact Or.inl earlier
          · rw [same]
            exact Or.inl listed
          · exact Or.inr later
      · rw [if_neg known, List.mem_append, List.mem_singleton, or_assoc]
  exact (folded entryPoints []).trans
    ⟨fun either => either.resolve_left (fun none => nomatch none), Or.inr⟩

/-- The state in which the loop of `analyzeCodeMulti` ends. -/
def finalAnalysis (entryPoints : List Word) (readByte : DisasmReadFn) (maxInstructions : Nat) :
    CodeAnalysis :=
  (CodeAnalysis.start (firstOccurrences entryPoints)).loop readByte maxInstructions
    (CodeAnalysis.passBound (firstOccurrences entryPoints))

/-- What is reported of a state. -/
def report (entries : List Word) (maxInstructions : Nat) (done : CodeAnalysis) :
    CodeAnalysisResult :=
  let instructions := done.instructions.insertionSort (fun a b => a.address ≤ b.address)
  { entryPoint := entries.headD 0
    entryPoints := entries
    instructions
    references := done.references
    ranges := codeRanges instructions
    conflicts := done.conflicts
    instructionCount := done.instructions.length
    codeBytes := (instructions.map (·.size)).sum
    truncated := !done.workQueue.isEmpty && decide (maxInstructions ≤ done.instructions.length) }

theorem report_conflicts (entries : List Word) (maxInstructions : Nat) (done : CodeAnalysis) :
    (report entries maxInstructions done).conflicts = done.conflicts := rfl

section Result

variable (entryPoints : List Word) (readByte : DisasmReadFn) (maxInstructions : Nat)

theorem finalAnalysis_done :
    (finalAnalysis entryPoints readByte maxInstructions).Done maxInstructions :=
  CodeAnalysis.analyzeCodeMulti_done _ readByte maxInstructions

theorem finalAnalysis_iterate : finalAnalysis entryPoints readByte maxInstructions =
    (CodeAnalysis.pass readByte maxInstructions)^[CodeAnalysis.passBound
      (firstOccurrences entryPoints)] (CodeAnalysis.start (firstOccurrences entryPoints)) :=
  CodeAnalysis.loop_eq_iterate _ _

theorem finalAnalysis_searched :
    (finalAnalysis entryPoints readByte maxInstructions).Searched (firstOccurrences entryPoints)
      readByte maxInstructions := by
  rw [finalAnalysis_iterate]
  exact CodeAnalysis.passes_searched _

/-- The reported instructions are the decoded ones. -/
theorem mem_reported (instr : AnalyzedInstruction) :
    instr ∈ (analyzeCodeMulti entryPoints readByte maxInstructions).instructions ↔
      instr ∈ (finalAnalysis entryPoints readByte maxInstructions).instructions :=
  (List.perm_insertionSort (fun a b : AnalyzedInstruction => a.address ≤ b.address)
    (finalAnalysis entryPoints readByte maxInstructions).instructions).mem_iff

theorem analyzeCodeMulti_eq : analyzeCodeMulti entryPoints readByte maxInstructions =
    report (firstOccurrences entryPoints) maxInstructions
      (finalAnalysis entryPoints readByte maxInstructions) := rfl

/-- The conflicts are reported as they were found. -/
theorem analyzeCodeMulti_conflicts :
    (analyzeCodeMulti entryPoints readByte maxInstructions).conflicts =
      (finalAnalysis entryPoints readByte maxInstructions).conflicts := by
  rw [analyzeCodeMulti_eq, report_conflicts]

/-- The queue is empty unless the result is marked as truncated. -/
theorem workQueue_of_truncated
    (whole : (analyzeCodeMulti entryPoints readByte maxInstructions).truncated = false) :
    (finalAnalysis entryPoints readByte maxInstructions).workQueue = [] := by
  have truncated : (!(finalAnalysis entryPoints readByte maxInstructions).workQueue.isEmpty &&
      decide (maxInstructions ≤
        (finalAnalysis entryPoints readByte maxInstructions).instructions.length)) = false := whole
  rcases finalAnalysis_done entryPoints readByte maxInstructions with empty | full
  · exact empty
  · rw [decide_eq_true full, Bool.and_true, Bool.not_eq_false'] at truncated
    exact List.isEmpty_iff.mp truncated

theorem search_complete : SearchComplete entryPoints readByte maxInstructions
    (analyzeCodeMulti entryPoints readByte maxInstructions) := by
  have searched := finalAnalysis_searched entryPoints readByte maxInstructions
  have reported := mem_reported entryPoints readByte maxInstructions
  have entries := mem_firstOccurrences entryPoints
  constructor
  · exact fun instr listed => searched.decoded instr ((reported instr).mp listed)
  · intro instr listed
    have reached := searched.reached instr ((reported instr).mp listed)
    obtain ⟨entry, first, path⟩ := reached.mono fun other known => (reported other).mpr known
    exact ⟨entry, (entries entry).mp first, path⟩
  · exact (CodeAnalysis.analyzeCodeMulti_instructions entryPoints readByte maxInstructions).1
  · exact (List.length_insertionSort _ _).trans_le searched.bounded
  · intro whole addr leads
    have empty := workQueue_of_truncated entryPoints readByte maxInstructions whole
    have before : addr ∈ firstOccurrences entryPoints ∨
        ∃ instr ∈ (finalAnalysis entryPoints readByte maxInstructions).instructions,
          addr ∈ instr.successors := by
      rcases leads with entry | ⟨instr, listed, next⟩
      · exact Or.inl ((entries addr).mpr entry)
      · exact Or.inr ⟨instr, (reported instr).mp listed, next⟩
    rcases searched.closed addr before with queued | decoded | listed
    · rw [empty] at queued
      exact nomatch queued
    · obtain ⟨instr, known, here⟩ := List.mem_map.mp decoded
      exact Or.inl ⟨instr, (reported instr).mpr known, here⟩
    · obtain ⟨conflict, known, here⟩ := List.mem_map.mp listed
      rw [analyzeCodeMulti_conflicts]
      exact Or.inr ⟨conflict, known, here⟩

/-- The analysis ends, and it is a complete search of the control-flow graph. -/
theorem analyzeCodeMulti_search :
    (finalAnalysis entryPoints readByte maxInstructions).Done maxInstructions ∧
      SearchComplete entryPoints readByte maxInstructions
        (analyzeCodeMulti entryPoints readByte maxInstructions) :=
  ⟨finalAnalysis_done entryPoints readByte maxInstructions,
    search_complete entryPoints readByte maxInstructions⟩

end Result

/-! ### Overlapping instructions -/

/-- The analyzer came to an address: an entry point, or a successor of a reported instruction. -/
def CodeAnalysisResult.Reached (result : CodeAnalysisResult) (entryPoints : List Word)
    (addr : Word) : Prop :=
  addr ∈ entryPoints ∨ ∃ instr ∈ result.instructions, addr ∈ instr.successors

/-- No conflicting decodings go unnoticed. -/
structure ConflictsNoticed (entryPoints : List Word) (readByte : DisasmReadFn)
    (result : CodeAnalysisResult) : Prop where
  /-- No two reported instructions share a byte. -/
  apart : result.instructions.Pairwise fun one other => ¬one.Overlaps other
  /-- Without truncation, one of two overlapping starts that were reached is listed. -/
  noticed : result.truncated = false → ∀ one other, result.Reached entryPoints one →
    result.Reached entryPoints other → one ≠ other →
      (disassemble one readByte).analyzed.Overlaps (disassemble other readByte).analyzed →
        ∃ conflict ∈ result.conflicts, conflict.address = one ∨ conflict.address = other

/-- The instruction at an address reaches the start of an earlier one, or the address lies in an
earlier one that runs past the last address. -/
def CodeAnalysis.Overruns (analysis : CodeAnalysis) (readByte : DisasmReadFn) (addr : Word) :
    Prop :=
  ∃ known ∈ analysis.instructions, (disassemble addr readByte).analyzed.Covers known.address ∨
    0x10000 < known.address.toNat + known.size ∧ known.Covers addr

namespace AnalyzedInstruction

theorem Overlaps.symm {one other : AnalyzedInstruction} (overlap : one.Overlaps other) :
    other.Overlaps one := by
  obtain ⟨addr, first, second⟩ := overlap
  exact ⟨addr, second, first⟩

theorem covers_self {instr : AnalyzedInstruction} (nonempty : 0 < instr.size) :
    instr.Covers instr.address := by
  unfold Covers
  rw [BitVec.sub_self]
  exact nonempty

/-- Instructions overlap when one of them has a byte where the other starts. -/
theorem overlaps_iff {one other : AnalyzedInstruction} (first : 0 < one.size)
    (second : 0 < other.size) :
    one.Overlaps other ↔ one.Covers other.address ∨ other.Covers one.address := by
  constructor
  · rintro ⟨addr, here, there⟩
    unfold Covers at *
    bv_omega
  · rintro (start | start)
    · exact ⟨other.address, start, covers_self second⟩
    · exact ⟨one.address, covers_self first, start⟩

end AnalyzedInstruction

theorem getLength_le (opcode : Byte) : getLength opcode ≤ 3 := by
  have table : ∀ len ∈ opcodeLength, len ≤ 3 := by decide +kernel
  have entry : opcodeLength.getD opcode.toNat 0 ≤ 3 := by
    rw [List.getD_eq_getElem?_getD]
    cases found : opcodeLength[opcode.toNat]? with
    | none => exact Nat.zero_le 3
    | some len => exact table len (List.mem_of_getElem? found)
  unfold getLength
  dsimp only
  split <;> omega

namespace CodeAnalysis

variable {analysis : CodeAnalysis} {readByte : DisasmReadFn} {maxInstructions : Nat}
  {entryPoints : List Word}

theorem Searched.size (searched : analysis.Searched entryPoints readByte maxInstructions)
    {instr : AnalyzedInstruction} (known : instr ∈ analysis.instructions) :
    0 < instr.size ∧ instr.size ≤ 3 := by
  have here : instr.size = getLength (readByte instr.address) :=
    congrArg AnalyzedInstruction.size (searched.decoded instr known)
  rw [here]
  exact ⟨getLength_pos _, getLength_le _⟩

theorem Searched.address_ne (searched : analysis.Searched entryPoints readByte maxInstructions)
    {addr : Word} (decodes : analysis.Decodes maxInstructions addr)
    {known : AnalyzedInstruction} (listed : known ∈ analysis.instructions) :
    known.address ≠ addr := by
  intro same
  refine not_mem_of_visited decodes.2.2.1 ?_
  rw [← searched.keys]
  exact List.mem_map.mpr ⟨known, listed, same⟩

/-- An address that is decoded lies in an earlier instruction only where that one has run past
the last address. -/
theorem Searched.covers_iff (searched : analysis.Searched entryPoints readByte maxInstructions)
    {addr : Word} (decodes : analysis.Decodes maxInstructions addr)
    {known : AnalyzedInstruction} (listed : known ∈ analysis.instructions) :
    known.Covers addr ↔ 0x10000 < known.address.toNat + known.size ∧ known.Covers addr := by
  have unequal := searched.address_ne decodes listed
  have size := searched.size listed
  have key : (known.address, known.size - 1) ∈ analysis.instrEndMap := by
    rw [searched.ends]
    exact List.mem_map.mpr ⟨known, listed, rfl⟩
  have outside : inside addr (known.address, known.size - 1) = false := by
    have none := Option.map_eq_none_iff.mp decodes.2.2.2
    exact Bool.eq_false_iff.mpr (List.find?_eq_none.mp none _ key)
  refine ⟨fun covers => ⟨?_, covers⟩, And.right⟩
  unfold inside at outside
  unfold AnalyzedInstruction.Covers at covers
  rw [Bool.and_eq_false_iff, decide_eq_false_iff_not, decide_eq_false_iff_not] at outside
  have apart : addr.toNat ≠ known.address.toNat := fun same =>
    unequal (BitVec.eq_of_toNat_eq same.symm)
  dsimp only at outside
  rw [BitVec.lt_def, BitVec.le_def, BitVec.toNat_add, BitVec.toNat_ofNat] at outside
  rw [BitVec.toNat_sub] at covers
  omega

/-- A pass that decodes keeps instructions apart exactly when it does not overrun. -/
theorem Searched.overlaps_iff
    (searched : analysis.Searched entryPoints readByte maxInstructions) {addr : Word}
    (decodes : analysis.Decodes maxInstructions addr) :
    (∃ known ∈ analysis.instructions, known.Overlaps (disassemble addr readByte).analyzed) ↔
      analysis.Overruns readByte addr := by
  have new : 0 < (disassemble addr readByte).analyzed.size := getLength_pos _
  unfold Overruns
  refine exists_congr fun known => and_congr_right fun listed => ?_
  rw [AnalyzedInstruction.overlaps_iff (searched.size listed).1 new, or_comm]
  exact or_congr_right (searched.covers_iff decodes listed)

/-- No two decoded instructions share a byte. -/
def Apart (analysis : CodeAnalysis) : Prop :=
  analysis.instructions.Pairwise fun one other => ¬one.Overlaps other

theorem Apart.pass (apart : analysis.Apart)
    (searched : analysis.Searched entryPoints readByte maxInstructions)
    (clear : ∀ addr, analysis.Decodes maxInstructions addr → ¬analysis.Overruns readByte addr) :
    (analysis.pass readByte maxInstructions).Apart := by
  obtain ⟨-, same⟩ | ⟨addr, rest, -, -, ⟨-, same⟩ | ⟨start, -, same⟩ | ⟨decodes, same⟩⟩ :=
    @pass_cases readByte maxInstructions analysis
  · rw [same]
    exact apart
  · rw [same]
    exact apart
  · rw [same]
    exact apart
  · rw [same]
    unfold Apart record
    refine List.pairwise_append.mpr ⟨apart, List.pairwise_singleton _ _, ?_⟩
    intro known listed new added overlap
    rw [List.mem_singleton.mp added] at overlap
    exact clear addr decodes ((searched.overlaps_iff decodes).mp ⟨known, listed, overlap⟩)

/-- The state after a number of passes. -/
def afterPasses (entryPoints : List Word) (readByte : DisasmReadFn) (maxInstructions count : Nat) :
    CodeAnalysis :=
  (CodeAnalysis.pass readByte maxInstructions)^[count] (start (firstOccurrences entryPoints))

/-- Decoded instructions stay. -/
theorem iterate_instructions (count : Nat) : ∀ analysis : CodeAnalysis,
    analysis.instructions ⊆
      ((CodeAnalysis.pass readByte maxInstructions)^[count] analysis).instructions := by
  induction count with
  | zero => exact fun _ _ known => known
  | succ count inductionHypothesis =>
    intro analysis instr known
    rw [Function.iterate_succ_apply]
    exact inductionHypothesis _ (pass_instructions analysis known)

/-- What is decoded in any pass is decoded in the end. -/
theorem afterPasses_subset (entryPoints : List Word) (readByte : DisasmReadFn)
    (maxInstructions count : Nat) :
    (afterPasses entryPoints readByte maxInstructions count).instructions ⊆
      (finalAnalysis entryPoints readByte maxInstructions).instructions := by
  have final := finalAnalysis_iterate entryPoints readByte maxInstructions
  have done := finalAnalysis_done entryPoints readByte maxInstructions
  set bound := passBound (firstOccurrences entryPoints)
  by_cases early : count ≤ bound
  · have split : bound = (bound - count) + count := by omega
    rw [split, Function.iterate_add_apply] at final
    rw [final]
    exact iterate_instructions (bound - count) _
  · have split : count = (count - bound) + bound := by omega
    unfold afterPasses
    rw [split, Function.iterate_add_apply, ← final, Function.iterate_fixed (pass_done done)]
    exact fun _ known => known

theorem afterPasses_searched (count : Nat) :
    (afterPasses entryPoints readByte maxInstructions count).Searched
      (firstOccurrences entryPoints) readByte maxInstructions :=
  passes_searched count

/-- A pass that decodes adds the instruction at its address. -/
theorem mem_of_decodes {addr : Word} (decodes : analysis.Decodes maxInstructions addr) :
    (disassemble addr readByte).analyzed ∈
      (analysis.pass readByte maxInstructions).instructions := by
  obtain ⟨done, -⟩ | ⟨other, rest, queue, -, ⟨seen, -⟩ | ⟨start, refused, -⟩ | ⟨-, same⟩⟩ :=
    @pass_cases readByte maxInstructions analysis
  · exact absurd decodes (not_decodes_of_done done)
  all_goals
    have head := decodes.1
    rw [queue] at head
    have here : other = addr := Option.some.inj head
  · rw [here, decodes.2.2.1] at seen
    exact nomatch seen
  · rw [here, decodes.2.2.2] at refused
    exact nomatch refused
  · rw [same, here]
    exact List.mem_append_right _ (List.mem_singleton_self _)

/-- The decoded instructions are apart in the end exactly when no pass overruns. -/
theorem finalAnalysis_apart_iff (entryPoints : List Word) (readByte : DisasmReadFn)
    (maxInstructions : Nat) :
    (finalAnalysis entryPoints readByte maxInstructions).Apart ↔
      ∀ count addr, (afterPasses entryPoints readByte maxInstructions count).Decodes
        maxInstructions addr →
          ¬(afterPasses entryPoints readByte maxInstructions count).Overruns readByte addr := by
  constructor
  · intro apart count addr decodes overruns
    have searched := @afterPasses_searched readByte maxInstructions entryPoints count
    obtain ⟨known, listed, overlap⟩ := (searched.overlaps_iff decodes).mpr overruns
    have unequal := searched.address_ne decodes listed
    have next : (afterPasses entryPoints readByte maxInstructions count).pass readByte
        maxInstructions = afterPasses entryPoints readByte maxInstructions (count + 1) :=
      (Function.iterate_succ_apply' _ _ _).symm
    have new := @mem_of_decodes _ readByte maxInstructions addr decodes
    rw [next] at new
    have symmetric : Std.Symm fun one other : AnalyzedInstruction => ¬one.Overlaps other :=
      ⟨fun _ _ distinct overlap => distinct overlap.symm⟩
    have first := afterPasses_subset entryPoints readByte maxInstructions count listed
    have second := afterPasses_subset entryPoints readByte maxInstructions (count + 1) new
    refine List.Pairwise.forall apart first second (fun same => unequal ?_) overlap
    rw [same]
    rfl
  · intro clear
    unfold Apart
    rw [finalAnalysis_iterate]
    exact (@Transition.iterate_invariant CodeAnalysis (CodeAnalysis.pass readByte maxInstructions)
      (fun analysis => analysis.Searched (firstOccurrences entryPoints) readByte maxInstructions ∧
        analysis.Apart)
      (fun analysis => ∀ addr, analysis.Decodes maxInstructions addr →
        ¬analysis.Overruns readByte addr)
      (fun _ kept clear => ⟨kept.1.pass, kept.2.pass kept.1 clear⟩) _ _
      ⟨start_searched, List.Pairwise.nil⟩ (fun count _ => clear count)).2

end CodeAnalysis

/-- Conflicts are noticed exactly when no pass decodes an instruction that reaches the start of an
earlier one, or an address in an earlier one that runs past the last address. -/
theorem analyzeCodeMulti_conflicts_iff (entryPoints : List Word) (readByte : DisasmReadFn)
    (maxInstructions : Nat) :
    ConflictsNoticed entryPoints readByte
        (analyzeCodeMulti entryPoints readByte maxInstructions) ↔
      ∀ count addr,
        (CodeAnalysis.afterPasses entryPoints readByte maxInstructions count).Decodes
          maxInstructions addr →
            ¬(CodeAnalysis.afterPasses entryPoints readByte maxInstructions count).Overruns
              readByte addr := by
  have order := List.perm_insertionSort
    (fun a b : AnalyzedInstruction => a.address ≤ b.address)
    (finalAnalysis entryPoints readByte maxInstructions).instructions
  have reported : (analyzeCodeMulti entryPoints readByte maxInstructions).instructions.Pairwise
      (fun one other => ¬one.Overlaps other) ↔
        (finalAnalysis entryPoints readByte maxInstructions).Apart :=
    order.pairwise_iff fun distinct overlap => distinct overlap.symm
  rw [← CodeAnalysis.finalAnalysis_apart_iff, ← reported]
  constructor
  · exact ConflictsNoticed.apart
  · intro apart
    refine ⟨apart, fun whole one other first second unequal overlap => ?_⟩
    have search := (search_complete entryPoints readByte maxInstructions)
    rcases search.complete whole one first with ⟨instr, listed, here⟩ | ⟨conflict, listed, here⟩
    · rcases search.complete whole other second with
        ⟨next, known, there⟩ | ⟨conflict, listed, there⟩
      · have symmetric : Std.Symm fun one other : AnalyzedInstruction => ¬one.Overlaps other :=
          ⟨fun _ _ distinct overlap => distinct overlap.symm⟩
        rw [← here, ← there, ← search.decoded instr listed, ← search.decoded next known] at overlap
        refine absurd overlap (List.Pairwise.forall apart listed known fun same => unequal ?_)
        rw [← here, ← there, same]
      · exact ⟨conflict, listed, Or.inr there⟩
    · exact ⟨conflict, listed, Or.inl here⟩

/-- A `MVI` at 0 whose operand at 1 is a `HLT`. -/
def operandHalt : DisasmReadFn := fun addr => if addr = 0 then 0x06 else 0x76

/-- With entry points 1 and 0, the operand is decoded first, and the `MVI` over it. -/
theorem analyzeCodeMulti_operandHalt :
    ¬ConflictsNoticed [1, 0] operandHalt (analyzeCodeMulti [1, 0] operandHalt 10000) := by
  intro noticed
  have symmetric : Std.Symm fun one other : AnalyzedInstruction => ¬one.Overlaps other :=
    ⟨fun _ _ distinct overlap => distinct overlap.symm⟩
  have first : (disassemble 0 operandHalt).analyzed ∈
      (analyzeCodeMulti [1, 0] operandHalt 10000).instructions := by decide
  have second : (disassemble 1 operandHalt).analyzed ∈
      (analyzeCodeMulti [1, 0] operandHalt 10000).instructions := by decide
  have overlap : (disassemble 0 operandHalt).analyzed.Overlaps
      (disassemble 1 operandHalt).analyzed := ⟨1, by decide, by decide⟩
  exact List.Pairwise.forall noticed.apart first second (by decide) overlap

end VectorDebugger
