import VectorDebugger.Debugger.BreakpointSets

/-!
# The access log and the access map

Every recorded read and write is appended to a bounded log under a running number and counted in
its block of 256 bytes. `clearMemoryAccessLog` empties the log alone; `clearRuntimeAccessMap`
empties both and starts the numbers again.
-/

namespace VectorDebugger

/-- The kind of an access and its block. -/
abbrev BlockAccess := MemoryAccessType × Byte

/-- What happens to the recorded accesses. -/
inductive AccessCall
  /-- `onMemoryRead`. -/
  | read (virt phys : Nat) (stack : Bool) (value : Byte) (pc : Word)
  /-- `onMemoryWrite`. -/
  | write (virt phys : Nat) (stack : Bool) (value : Byte) (pc : Word)
  /-- `clearMemoryAccessLog`. -/
  | clearLog
  /-- `clearRuntimeAccessMap`. -/
  | clearMap
  /-- A single step says which instruction it is about to execute, or that it has ended. -/
  | announce (stepping : Bool) (base : Word) (length : Nat)

namespace Instrumentation

/-- `DebugBackend::clearMemoryAccessLog`. -/
def clearMemoryAccessLog (inst : Instrumentation) : Instrumentation :=
  { inst with runtimeAccessLog := inst.runtimeAccessLog.clear }

/-- One call. -/
def access (inst : Instrumentation) : AccessCall → Instrumentation
  | .read virt phys stack value pc => inst.onMemoryRead virt phys stack value pc
  | .write virt phys stack value pc => inst.onMemoryWrite virt phys stack value pc
  | .clearLog => inst.clearMemoryAccessLog
  | .clearMap => inst.clearRuntimeAccessMap
  | .announce stepping base length =>
    { inst with steppingInProgress := stepping, fetchBasePc := base, fetchRemaining := length }

/-- The accesses since the last `clearRuntimeAccessMap`, after one more call. -/
def noteAccess (inst : Instrumentation) (accesses : List BlockAccess) :
    AccessCall → List BlockAccess
  | .read virt _ stack value pc =>
    accesses ++ [((inst.detect virt stack value pc).readType, Word.high (BitVec.ofNat 16 virt))]
  | .write virt .. => accesses ++ [(.write, Word.high (BitVec.ofNat 16 virt))]
  | .clearMap => []
  | .clearLog | .announce .. => accesses

/-- The recording after some calls, with the accesses since the last `clearRuntimeAccessMap`. -/
def accessAll (calls : List AccessCall) (start : Instrumentation × List BlockAccess) :
    Instrumentation × List BlockAccess :=
  calls.foldl (fun now call => (now.1.access call, now.1.noteAccess now.2 call)) start

/-- The block that some accesses leave. -/
def countedBlock (accesses : List BlockAccess) (block : Byte) : RuntimeAccessBlock where
  read := decide (0 < accesses.count (.read, block))
  write := decide (0 < accesses.count (.write, block))
  fetch := decide (0 < accesses.count (.fetch, block))
  readCount := accesses.count (.read, block)
  writeCount := accesses.count (.write, block)
  fetchCount := accesses.count (.fetch, block)

/-- The kind and the block of a log entry. -/
def blockAccess (entry : RuntimeAccessLogEntry) : BlockAccess :=
  (entry.type, Word.high entry.address)

/-- Log and map count the accesses; the log holds the end of `entries`. -/
structure Counts (inst : Instrumentation) (accesses : List BlockAccess)
    (entries : List RuntimeAccessLogEntry) : Prop where
  enabled : inst.instrumentationEnabled = true
  log : inst.runtimeAccessLog.Holds entries
  fewer : entries.length ≤ inst.accessSequence
  numbers : entries.map (·.sequence) =
    List.range' (inst.accessSequence - entries.length + 1) entries.length
  kinds : entries.map blockAccess <:+ accesses
  map : inst.runtimeAccessMap = countedBlock accesses

/-- A read adds its access to its block. -/
theorem countedBlock_read (accesses : List BlockAccess) (block : Byte) (isFetch : Bool) :
    Function.update (countedBlock accesses) block
        (RuntimeAccessBlock.countRead (countedBlock accesses block) isFetch) =
      countedBlock (accesses ++ [(if isFetch then .fetch else .read, block)]) := by
  funext other
  by_cases same : other = block
  · subst same
    rw [Function.update_self]
    cases isFetch <;>
      simp [RuntimeAccessBlock.countRead, countedBlock, List.count_append]
  · rw [Function.update_of_ne same]
    cases isFetch <;>
      simp [countedBlock, List.count_append, Ne.symm same]

/-- So does a write. -/
theorem countedBlock_write (accesses : List BlockAccess) (block : Byte) :
    Function.update (countedBlock accesses) block
        { countedBlock accesses block with
          write := true, writeCount := (countedBlock accesses block).writeCount + 1 } =
      countedBlock (accesses ++ [(.write, block)]) := by
  funext other
  by_cases same : other = block
  · subst same
    rw [Function.update_self]
    simp [countedBlock, List.count_append]
  · rw [Function.update_of_ne same]
    simp [countedBlock, List.count_append, Ne.symm same]

variable {inst : Instrumentation} {accesses : List BlockAccess}
  {entries : List RuntimeAccessLogEntry}

/-- An access that is counted in its block and then logged. -/
theorem Counts.logAccess (counts : inst.Counts accesses entries) {counted : Instrumentation}
    {address : Word} {type : MemoryAccessType} {value : Byte}
    (enabled : counted.instrumentationEnabled = true)
    (log : counted.runtimeAccessLog = inst.runtimeAccessLog)
    (sequence : counted.accessSequence = inst.accessSequence)
    (map : counted.runtimeAccessMap = countedBlock (accesses ++ [(type, Word.high address)])) :
    ∃ logged, (counted.logAccess address type value).Counts
      (accesses ++ [(type, Word.high address)]) logged := by
  let entry : RuntimeAccessLogEntry :=
    { address, type, pc := counted.fetchBasePc, value, sequence := counted.accessSequence + 1 }
  have length : (entries ++ [entry]).length = entries.length + 1 := List.length_append
  refine ⟨entries ++ [entry], enabled, ?_, ?_, ?_, ?_, map⟩
  · show (counted.runtimeAccessLog.push entry).Holds _
    rw [log]
    exact counts.log.push entry
  · show (entries ++ [entry]).length ≤ counted.accessSequence + 1
    rw [length, sequence]
    exact Nat.add_le_add_right counts.fewer 1
  · show _ = List.range' (counted.accessSequence + 1 - (entries ++ [entry]).length + 1) _
    have fewer := counts.fewer
    have next : inst.accessSequence - entries.length + 1 + entries.length =
        inst.accessSequence + 1 := by omega
    rw [length, List.map_append, counts.numbers, sequence, Nat.add_sub_add_right,
      List.range'_1_concat, next, ← sequence]
    rfl
  · rw [List.map_append]
    obtain ⟨before, whole⟩ := counts.kinds
    refine ⟨before, ?_⟩
    rw [← List.append_assoc, whole]
    rfl

/-- Whatever is called, log and map go on counting the accesses. -/
theorem Counts.access (counts : inst.Counts accesses entries) (call : AccessCall) :
    ∃ entries, (inst.access call).Counts (inst.noteAccess accesses call) entries := by
  cases call with
  | read virt phys stack value pc =>
    have same : (inst.detect virt stack value pc).runtimeAccessMap = inst.runtimeAccessMap ∧
        (inst.detect virt stack value pc).runtimeAccessLog = inst.runtimeAccessLog ∧
          (inst.detect virt stack value pc).accessSequence = inst.accessSequence ∧
            (inst.detect virt stack value pc).instrumentationEnabled =
              inst.instrumentationEnabled := by
      unfold detect
      split <;> exact ⟨rfl, rfl, rfl, rfl⟩
    have read : inst.access (.read virt phys stack value pc) =
        (inst.detect virt stack value pc).recordRead virt phys stack value := by
      show inst.onMemoryRead virt phys stack value pc = _
      unfold onMemoryRead
      rw [counts.enabled]
      rfl
    rw [read]
    show ∃ entries, Counts _ (accesses ++ [((inst.detect virt stack value pc).readType, _)]) _
    generalize inst.detect virt stack value pc = begun at same
    obtain ⟨map, log, sequence, enabled⟩ := same
    refine counts.logAccess (enabled.trans counts.enabled) log sequence ?_
    show Function.update begun.runtimeAccessMap _ _ = _
    rw [map, counts.map, countedBlock_read]
    unfold readType
    simp only [decide_eq_true_eq]
  | write virt phys stack value pc =>
    have written : ∃ counted : Instrumentation,
        inst.access (.write virt phys stack value pc) =
          counted.logAccess (BitVec.ofNat 16 virt) .write value ∧
        counted.instrumentationEnabled = inst.instrumentationEnabled ∧
        counted.runtimeAccessLog = inst.runtimeAccessLog ∧
        counted.accessSequence = inst.accessSequence ∧
        counted.runtimeAccessMap = Function.update inst.runtimeAccessMap
          (Word.high (BitVec.ofNat 16 virt))
          { inst.runtimeAccessMap (Word.high (BitVec.ofNat 16 virt)) with
            write := true
            writeCount :=
              (inst.runtimeAccessMap (Word.high (BitVec.ofNat 16 virt))).writeCount + 1 } := by
      show ∃ counted : Instrumentation, inst.onMemoryWrite virt phys stack value pc = _ ∧ _
      unfold onMemoryWrite
      rw [counts.enabled]
      exact ⟨_, rfl, rfl, rfl, rfl, rfl⟩
    obtain ⟨counted, done, enabled, log, sequence, map⟩ := written
    rw [done]
    refine counts.logAccess (enabled.trans counts.enabled) log sequence ?_
    rw [map, counts.map, countedBlock_write]
  | clearLog =>
    exact ⟨[], counts.enabled, RingBuffer.holds_clear _ (by decide), Nat.zero_le _, rfl,
      List.nil_suffix, counts.map⟩
  | clearMap =>
    exact ⟨[], counts.enabled, RingBuffer.holds_clear _ (by decide), Nat.zero_le _, rfl,
      List.nil_suffix, rfl⟩
  | announce stepping base length =>
    exact ⟨entries, counts.enabled, counts.log, counts.fewer, counts.numbers, counts.kinds,
      counts.map⟩

/-- So they do in a row. -/
theorem Counts.accessAll (calls : List AccessCall) :
    ∀ {inst : Instrumentation} {accesses : List BlockAccess}
      {entries : List RuntimeAccessLogEntry}, inst.Counts accesses entries →
      ∃ logged, (accessAll calls (inst, accesses)).1.Counts
        (accessAll calls (inst, accesses)).2 logged := by
  induction calls with
  | nil => exact fun {_ _ entries} counts => ⟨entries, counts⟩
  | cons call calls inductionHypothesis =>
    intro inst accesses entries counts
    obtain ⟨logged, next⟩ := counts.access call
    exact inductionHypothesis next

/-- The recording of a new debugger has counted nothing. -/
theorem counts_init : init.Counts [] [] where
  enabled := rfl
  log := RingBuffer.holds_clear .empty (by decide)
  fewer := Nat.zero_le _
  numbers := rfl
  kinds := List.nil_suffix
  map := rfl

/-- The access log and the access map count the same accesses. The numbers in the log are
consecutive, and its entries are the last accesses; every block counts the accesses to it since the
last `clearRuntimeAccessMap`, by kind, with a flag for each count that is not zero; and
`clearMemoryAccessLog` changes none of that. -/
theorem accesses_counted (calls : List AccessCall) :
    let now := accessAll calls (init, [])
    (∃ first, now.1.runtimeAccessLog.snapshot.map (·.sequence) =
        List.range' first now.1.runtimeAccessLog.snapshot.length) ∧
      now.1.runtimeAccessLog.snapshot.map blockAccess <:+ now.2 ∧
      (∀ block, now.1.runtimeAccessMap block = countedBlock now.2 block) ∧
      now.1.clearMemoryAccessLog.runtimeAccessMap = now.1.runtimeAccessMap := by
  dsimp only
  obtain ⟨entries, counts⟩ := counts_init.accessAll calls
  generalize accessAll calls (init, []) = now at counts
  have held := counts.log.snapshot
  refine ⟨⟨now.1.accessSequence - entries.length + 1 + (entries.length - 50000), ?_⟩, ?_,
    fun block => congrFun counts.map block, rfl⟩
  · rw [held, List.map_drop, counts.numbers, List.drop_range', List.length_drop, Nat.mul_one]
  · rw [held, List.map_drop]
    exact (List.drop_suffix _ _).trans counts.kinds

end Instrumentation

end VectorDebugger
