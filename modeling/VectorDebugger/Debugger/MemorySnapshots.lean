import VectorDebugger.Debugger.AgentApi
import VectorDebugger.Library.Runs

/-!
# Differences of memory snapshots

The backend keeps snapshots of memory, each of a range inside it. `compareMemorySnapshots` goes
through two of them byte by byte and closes a range of changes when it meets an equal byte;
`diffMemorySnapshots` looks for the end of a range as soon as it meets its start, and collects the
bytes. On snapshots of one range both find the maximal runs of differing bytes.
-/

namespace VectorDebugger

open Runs

/-- `MemorySnapshotData`. -/
structure MemorySnapshotData where
  /-- `snapshot_id`. -/
  snapshotId : BitVec 32
  /-- `start_address`. -/
  startAddress : Word
  /-- `data`. -/
  data : List Byte
deriving DecidableEq, Repr

/-- The snapshots of `DebugBackend`. Each has a byte and ends inside memory. -/
structure MemorySnapshots where
  /-- `snapshots_`. -/
  snapshots : BitVec 32 → Option MemorySnapshotData
  /-- `nextSnapshotId_`. -/
  nextSnapshotId : BitVec 32
  /-- A snapshot has a byte and ends inside memory. -/
  inside : ∀ id snap, snapshots id = some snap →
    0 < snap.data.length ∧ snap.startAddress.toNat + snap.data.length ≤ 0x10000

/-- `DebugAdapter::readMemoryRaw`. -/
def DebugAdapter.readMemoryRaw {δ : Type} (target : DebugAdapter δ) (addr : Word) : Byte :=
  target.board.machine.memory.peek addr.toNat false

/-- `MemorySnapshotDiff::ChangedRange`. -/
structure ChangedRange where
  /-- `address`. -/
  address : Word
  /-- `size`. -/
  size : Nat
deriving DecidableEq, Repr

/-- The local state of `compareMemorySnapshots`. -/
structure CompareState where
  /-- `diff.changed_ranges`. -/
  changedRanges : List ChangedRange
  /-- `inRange`. -/
  inRange : Bool
  /-- `rangeStart`. -/
  rangeStart : Word
  /-- `rangeSize`. -/
  rangeSize : Nat

/-- One byte of `compareMemorySnapshots`. -/
def CompareState.step (a b : MemorySnapshotData) (state : CompareState) (i : Nat) :
    CompareState :=
  if a.data.getD i 0 ≠ b.data.getD i 0 then
    if !state.inRange then
      { state with
        rangeStart := a.startAddress + BitVec.ofNat 16 i, rangeSize := 1, inRange := true }
    else { state with rangeSize := state.rangeSize + 1 }
  else if state.inRange then
    { state with
      changedRanges := state.changedRanges ++ [⟨state.rangeStart, state.rangeSize⟩]
      inRange := false }
  else state

/-- Before the first byte. -/
def CompareState.init : CompareState where
  changedRanges := []
  inRange := false
  rangeStart := 0
  rangeSize := 0

/-- The ranges, with one that is still open. -/
def CompareState.close (state : CompareState) : List ChangedRange :=
  if state.inRange then state.changedRanges ++ [⟨state.rangeStart, state.rangeSize⟩]
  else state.changedRanges

namespace MemorySnapshots

/-- No snapshot. -/
def init : MemorySnapshots where
  snapshots := fun _ => none
  nextSnapshotId := 1
  inside := fun _ _ found => absurd found.symm (Option.some_ne_none _)

/-- `DebugBackend::createMemorySnapshot`, with the identifier; none when `resize` throws, as it
does for every size whose 64-bit sum with the start wraps. -/
def createMemorySnapshot (store : MemorySnapshots) (readMemoryRaw : Word → Byte) (start : Word)
    (size : BitVec 64) : MemorySnapshots × Option (BitVec 32) :=
  if absent : size = 0 ∨ start.setWidth 64 + size > 0x10000 then (store, some 0)
  else if fits : start.toNat + size.toNat ≤ 0x10000 then
    let id := store.nextSnapshotId
    let data := (List.range size.toNat).map fun i => readMemoryRaw (start + BitVec.ofNat 16 i)
    ({ snapshots := Function.update store.snapshots id
          (some { snapshotId := id, startAddress := start, data })
       nextSnapshotId := id + 1
       inside := by
        intro other snap found
        by_cases new : other = id
        · rw [new, Function.update_self] at found
          rw [← Option.some.inj found]
          have length : data.length = size.toNat := by
            rw [List.length_map, List.length_range]
          have positive : size.toNat ≠ 0 := fun zero =>
            absent (Or.inl (BitVec.eq_of_toNat_eq zero))
          dsimp only
          omega
        · rw [Function.update_of_ne new] at found
          exact store.inside other snap found },
      some id)
  else (store, none)

/-- `DebugBackend::getMemorySnapshot`: an empty one where there is none. -/
def getMemorySnapshot (store : MemorySnapshots) (id : BitVec 32) : MemorySnapshotData :=
  (store.snapshots id).getD { snapshotId := 0, startAddress := 0, data := [] }

/-- `DebugBackend::compareMemorySnapshots`. -/
def compareMemorySnapshots (store : MemorySnapshots) (idA idB : BitVec 32) : List ChangedRange :=
  match store.snapshots idA, store.snapshots idB with
  | some a, some b =>
    if a.startAddress ≠ b.startAddress ∨ a.data.length ≠ b.data.length then []
    else ((List.range a.data.length).foldl (CompareState.step a b) .init).close
  | _, _ => []

/-- `DebugBackend::deleteMemorySnapshot`, with its result. -/
def deleteMemorySnapshot (store : MemorySnapshots) (id : BitVec 32) : MemorySnapshots × Bool :=
  ({ store with
      snapshots := Function.update store.snapshots id none
      inside := by
        intro other snap found
        by_cases gone : other = id
        · rw [gone, Function.update_self] at found
          cases found
        · rw [Function.update_of_ne gone] at found
          exact store.inside other snap found },
    (store.snapshots id).isSome)

/-- `DebugBackend::invalidateAllSnapshots`. -/
def invalidateAllSnapshots (store : MemorySnapshots) : MemorySnapshots :=
  { init with nextSnapshotId := store.nextSnapshotId }

end MemorySnapshots

namespace AgentLimits

/-- `MAX_DIFF_CHANGED_RANGES`. -/
def maxDiffChangedRanges : Nat := 4096

/-- `MAX_DIFF_CHANGED_BYTES`. -/
def maxDiffChangedBytes : Nat := 32768

end AgentLimits

/-- `MemoryDiffRange`. -/
structure MemoryDiffRange where
  /-- `address`. -/
  address : Word
  /-- `oldBytes`. -/
  oldBytes : List Byte
  /-- `newBytes`. -/
  newBytes : List Byte
deriving DecidableEq, Repr

/-- `MemoryDiffResult`. -/
structure MemoryDiffResult where
  /-- `start`. -/
  start : Word
  /-- `length`. -/
  length : Nat
  /-- `changedBytes`. -/
  changedBytes : Nat
  /-- `ranges`. -/
  ranges : List MemoryDiffRange
deriving DecidableEq, Repr

/-- The range that `diffMemorySnapshots` is asked for, in two snapshots. -/
structure DiffWindow where
  /-- `snapA.data`. -/
  dataA : List Byte
  /-- `snapB.data`. -/
  dataB : List Byte
  /-- `offA`. -/
  offA : Nat
  /-- `offB`. -/
  offB : Nat
  /-- `start`. -/
  start : Word
  /-- `length`. -/
  length : Nat

namespace DiffWindow

/-- The inner loop of `diffMemorySnapshots`, with a bound on its passes: the old and new bytes
from `j` up to an equal byte. None where an index is out of bounds. -/
def changes (window : DiffWindow) : Nat → Nat → Option (List (Byte × Byte))
  | 0, _ => some []
  | fuel + 1, j =>
    if j < window.length then do
      let old ← window.dataA[window.offA + j]?
      let new ← window.dataB[window.offB + j]?
      if old ≠ new then
        let rest ← window.changes fuel (j + 1)
        return (old, new) :: rest
      else return []
    else return []

/-- The outer loop of `diffMemorySnapshots`, with a bound on its passes. None where an index is
out of bounds. -/
def ranges (window : DiffWindow) :
    Nat → Nat → List MemoryDiffRange → Nat → Option (AgentApiResult MemoryDiffResult)
  | 0, _, ranges, changedBytes =>
    some (.ok { start := window.start, length := window.length, changedBytes, ranges })
  | fuel + 1, i, ranges, changedBytes =>
    if i < window.length then do
      let a ← window.dataA[window.offA + i]?
      let b ← window.dataB[window.offB + i]?
      if a = b then window.ranges fuel (i + 1) ranges changedBytes
      else
        let rng ← window.changes (window.length - i) i
        let ranges := ranges ++ [{
          address := window.start + BitVec.ofNat 16 i
          oldBytes := rng.map (·.1)
          newBytes := rng.map (·.2) }]
        let changedBytes := changedBytes + rng.length
        if ranges.length > AgentLimits.maxDiffChangedRanges ∨
            changedBytes > AgentLimits.maxDiffChangedBytes then
          return .fail .limitExceeded ("diff exceeds limits (ranges 4096, bytes 32768); " ++
            "narrow the range or delete/replace byte values")
        else window.ranges fuel (i + rng.length) ranges changedBytes
    else
      return .ok { start := window.start, length := window.length, changedBytes, ranges }

end DiffWindow

/-- `covers`, for a snapshot; its sums have 32 bits. -/
def MemorySnapshotData.covers (snap : MemorySnapshotData) (start : Word) (length : BitVec 32) :
    Bool :=
  let sStart := snap.startAddress.setWidth 32
  let sEnd := sStart + BitVec.ofNat 32 snap.data.length
  start.setWidth 32 ≥ sStart && start.setWidth 32 + length ≤ sEnd

/-- `AgentApi::diffMemorySnapshots`; none where an index is out of bounds. The sums have 32
bits. -/
def AgentApi.diffMemorySnapshots (store : MemorySnapshots) (idA idB : BitVec 32) (start : Word)
    (length : BitVec 32) : Option (AgentApiResult MemoryDiffResult) :=
  if length = 0 ∨ start.setWidth 32 + length > 0x10000 then
    some (.fail .invalidRange "invalid diff range")
  else
    let snapA := store.getMemorySnapshot idA
    let snapB := store.getMemorySnapshot idB
    if snapA.data = [] ∨ snapB.data = [] then
      some (.fail .notFound "One or both snapshots not found or invalidated")
    else if !snapA.covers start length || !snapB.covers start length then
      some (.fail .invalidRange "requested range is not covered by both snapshots")
    else
      let window : DiffWindow :=
        { dataA := snapA.data
          dataB := snapB.data
          offA := (start.setWidth 32 - snapA.startAddress.setWidth 32 : BitVec 32).toNat
          offB := (start.setWidth 32 - snapB.startAddress.setWidth 32 : BitVec 32).toNat
          start
          length := length.toNat }
      window.ranges length.toNat 0 [] 0

/-! ### Comparing byte by byte -/

/-- The bytes at an offset differ. -/
def differs (a b : List Byte) (i : Nat) : Bool := a.getD i 0 != b.getD i 0

/-- The changed range of a run of offsets. -/
def changedRange (start : Word) (run : Nat × Nat) : ChangedRange :=
  ⟨start + BitVec.ofNat 16 run.1, run.2 - run.1⟩

/-- What the loop knows after some bytes. -/
inductive Compared (a b : MemorySnapshotData) (k : Nat) : CompareState → Prop
  /-- The last byte does not differ; the runs so far are closed. -/
  | closed (runs : List (Nat × Nat)) (rangeStart : Word) (rangeSize : Nat)
    (all : Maximal (differs a.data b.data) k runs)
    (bare : k = 0 ∨ differs a.data b.data (k - 1) = false) :
    Compared a b k ⟨runs.map (changedRange a.startAddress), false, rangeStart, rangeSize⟩
  /-- The last byte differs; the run that it ends is open. -/
  | opened (runs : List (Nat × Nat)) (lo : Nat)
    (all : Maximal (differs a.data b.data) k (runs ++ [(lo, k)])) :
    Compared a b k
      ⟨runs.map (changedRange a.startAddress), true, a.startAddress + BitVec.ofNat 16 lo, k - lo⟩

theorem Compared.step {a b : MemorySnapshotData} {k : Nat} {state : CompareState}
    (compared : Compared a b k state) : Compared a b (k + 1) (state.step a b k) := by
  have differs_iff : (a.data.getD k 0 ≠ b.data.getD k 0) ↔ differs a.data b.data k = true :=
    bne_iff_ne.symm
  unfold CompareState.step
  simp only [differs_iff]
  cases compared with
  | closed runs rangeStart rangeSize all bare =>
    cases changed : differs a.data b.data k with
    | true =>
      have one : k + 1 - k = 1 := Nat.add_sub_cancel_left k 1
      have opened := Compared.opened (a := a) runs k (Maximal.open' changed bare all)
      rw [one] at opened
      rw [if_pos rfl, if_pos (show (!false) = true from rfl)]
      exact opened
    | false =>
      rw [if_neg Bool.false_ne_true, if_neg Bool.false_ne_true]
      exact .closed runs rangeStart rangeSize (Maximal.pass changed all)
        (Or.inr (by rw [Nat.add_sub_cancel]; exact changed))
  | opened runs lo all =>
    have last := (all.each (lo, k) (List.mem_append_right _ (List.mem_singleton_self _))).2.nonempty
    cases changed : differs a.data b.data k with
    | true =>
      have more : k - lo + 1 = k + 1 - lo := by
        dsimp only at last
        omega
      rw [if_pos rfl, if_neg (show ¬ (!true) = true by decide)]
      dsimp only
      rw [more]
      exact .opened runs lo (Maximal.extend changed all)
    | false =>
      rw [if_neg Bool.false_ne_true, if_pos rfl]
      have ranges : runs.map (changedRange a.startAddress) ++
          [⟨a.startAddress + BitVec.ofNat 16 lo, k - lo⟩] =
            (runs ++ [(lo, k)]).map (changedRange a.startAddress) := by
        rw [List.map_append]
        rfl
      dsimp only
      rw [ranges]
      exact .closed _ _ _ (Maximal.pass changed all)
        (Or.inr (by rw [Nat.add_sub_cancel]; exact changed))

theorem compared_foldl (a b : MemorySnapshotData) (k : Nat) :
    Compared a b k ((List.range k).foldl (CompareState.step a b) .init) := by
  induction k with
  | zero => exact .closed [] 0 0 Maximal.zero (Or.inl rfl)
  | succ k inductionHypothesis =>
    rw [List.range_succ, List.foldl_append]
    exact inductionHypothesis.step

theorem Compared.close {a b : MemorySnapshotData} {k : Nat} {state : CompareState}
    (compared : Compared a b k state) : ∃ runs, Maximal (differs a.data b.data) k runs ∧
      state.close = runs.map (changedRange a.startAddress) := by
  cases compared with
  | closed runs rangeStart rangeSize all bare => exact ⟨runs, all, rfl⟩
  | opened runs lo all =>
    refine ⟨_, all, ?_⟩
    rw [List.map_append]
    rfl

/-! ### Looking for the end of a range -/

namespace DiffWindow

/-- The window lies inside both snapshots. -/
structure Inside (window : DiffWindow) : Prop where
  /-- Inside the first. -/
  first : window.offA + window.length ≤ window.dataA.length
  /-- Inside the second. -/
  second : window.offB + window.length ≤ window.dataB.length

/-- The bytes at an offset of the window. -/
def bytes (window : DiffWindow) (i : Nat) : Byte × Byte :=
  (window.dataA.getD (window.offA + i) 0, window.dataB.getD (window.offB + i) 0)

/-- The bytes at an offset of the window differ. -/
def changed (window : DiffWindow) (i : Nat) : Bool := (window.bytes i).1 != (window.bytes i).2

/-- The entry of a run of offsets. -/
def entry (window : DiffWindow) (run : Nat × Nat) : MemoryDiffRange where
  address := window.start + BitVec.ofNat 16 run.1
  oldBytes := (List.range' run.1 (run.2 - run.1)).map fun i => (window.bytes i).1
  newBytes := (List.range' run.1 (run.2 - run.1)).map fun i => (window.bytes i).2

/-- The number of bytes in runs. -/
def bytesIn (runs : List (Nat × Nat)) : Nat := (runs.map fun run => run.2 - run.1).sum

/-- The result with these ranges, or the error when there is too much in them. -/
def outcome (window : DiffWindow) (ranges : List MemoryDiffRange) (changedBytes : Nat) :
    AgentApiResult MemoryDiffResult :=
  if ranges.length > AgentLimits.maxDiffChangedRanges ∨
      changedBytes > AgentLimits.maxDiffChangedBytes then
    .fail .limitExceeded ("diff exceeds limits (ranges 4096, bytes 32768); " ++
      "narrow the range or delete/replace byte values")
  else .ok { start := window.start, length := window.length, changedBytes, ranges }

variable {window : DiffWindow}

theorem Inside.lookup (inside : window.Inside) {i : Nat} (low : i < window.length) :
    window.dataA[window.offA + i]? = some (window.bytes i).1 ∧
      window.dataB[window.offB + i]? = some (window.bytes i).2 := by
  have first := inside.first
  have second := inside.second
  unfold bytes
  rw [List.getD_eq_getElem?_getD, List.getD_eq_getElem?_getD, List.getElem?_eq_getElem (by omega),
    List.getElem?_eq_getElem (by omega)]
  exact ⟨rfl, rfl⟩

/-- The inner loop collects the bytes up to the end of the run. -/
theorem changes_eq (inside : window.Inside) (fuel : Nat) : ∀ {j : Nat}, window.length - j ≤ fuel →
    window.changes fuel j =
      some
        ((List.range' j (endFrom window.changed window.length fuel j - j)).map window.bytes) := by
  induction fuel with
  | zero =>
    intro j _
    unfold changes endFrom
    rw [Nat.sub_self]
    rfl
  | succ fuel inductionHypothesis =>
    intro j enough
    unfold changes endFrom
    by_cases low : j < window.length
    · obtain ⟨old, new⟩ := inside.lookup low
      rw [if_pos low, old, new]
      cases differ : window.changed j with
      | true =>
        have rest := @inductionHypothesis (j + 1) (by omega)
        have longer := (@endFrom_spec window.changed window.length fuel (j + 1) (by omega)
          (by omega)).1
        have count : endFrom window.changed window.length fuel (j + 1) - j =
            endFrom window.changed window.length fuel (j + 1) - (j + 1) + 1 := by omega
        rw [if_pos (by rw [Bool.and_eq_true, decide_eq_true_eq]; exact ⟨low, rfl⟩), count,
          List.range'_succ, List.map_cons]
        show (if (window.bytes j).1 ≠ (window.bytes j).2 then _ else _) = _
        rw [if_pos (bne_iff_ne.mp differ), rest]
        rfl
      | false =>
        rw [if_neg (by rw [Bool.and_false]; exact Bool.false_ne_true), Nat.sub_self]
        show (if (window.bytes j).1 ≠ (window.bytes j).2 then _ else _) = _
        rw [if_neg (fun differs => by
          have has : window.changed j = true := bne_iff_ne.mpr differs
          rw [differ] at has
          cases has)]
        rfl
    · have ended : ¬ (decide (j < window.length) && window.changed j) = true := by
        rw [Bool.and_eq_true, decide_eq_true_eq]
        exact fun both => low both.1
      rw [if_neg low, if_neg ended, Nat.sub_self]
      rfl

/-- The outer loop adds the entries of the runs that are left. -/
theorem ranges_eq (inside : window.Inside) (fuel : Nat) :
    ∀ {i : Nat} (ranges : List MemoryDiffRange) (changedBytes : Nat), window.length - i ≤ fuel →
      ranges.length ≤ AgentLimits.maxDiffChangedRanges →
        changedBytes ≤ AgentLimits.maxDiffChangedBytes →
          window.ranges fuel i ranges changedBytes =
            some (window.outcome
              (ranges ++ (scan window.changed window.length fuel i).map window.entry)
              (changedBytes + bytesIn (scan window.changed window.length fuel i))) := by
  have done : ∀ (ranges : List MemoryDiffRange) (changedBytes : Nat),
      ranges.length ≤ AgentLimits.maxDiffChangedRanges →
        changedBytes ≤ AgentLimits.maxDiffChangedBytes →
          some (Except.ok
              { start := window.start, length := window.length, changedBytes, ranges }) =
            some (window.outcome (ranges ++ ([] : List (Nat × Nat)).map window.entry)
              (changedBytes + bytesIn [])) := by
    intro ranges changedBytes few small
    have none' : bytesIn [] = 0 := rfl
    rw [List.map_nil, List.append_nil, none', Nat.add_zero]
    unfold outcome
    rw [if_neg (by omega)]
  induction fuel with
  | zero => exact fun ranges changedBytes _ few small => done ranges changedBytes few small
  | succ fuel inductionHypothesis =>
    intro i ranges changedBytes enough few small
    conv_lhs => unfold DiffWindow.ranges
    unfold scan
    by_cases low : i < window.length
    · obtain ⟨old, new⟩ := inside.lookup low
      rw [if_pos low, if_pos low, old, new]
      show (if (window.bytes i).1 = (window.bytes i).2 then _ else _) = _
      cases differ : window.changed i with
      | false =>
        have same : (window.bytes i).1 = (window.bytes i).2 := by
          by_contra differs
          have has : window.changed i = true := bne_iff_ne.mpr differs
          rw [differ] at has
          cases has
        rw [if_pos same, if_neg Bool.false_ne_true]
        exact inductionHypothesis ranges changedBytes (by omega) few small
      | true =>
        have longer : i < endFrom window.changed window.length (window.length - i) i :=
          lt_endFrom low (Nat.le_refl _) differ
        set stop := endFrom window.changed window.length (window.length - i) i with stopping
        set rest := scan window.changed window.length fuel stop with resting
        have run : window.changes (window.length - i) i =
            some ((List.range' i (stop - i)).map window.bytes) :=
          changes_eq inside _ (Nat.le_refl _)
        have count : ((List.range' i (stop - i)).map window.bytes).length = stop - i := by
          rw [List.length_map, List.length_range']
        have range : ({ address := window.start + BitVec.ofNat 16 i
                        oldBytes := ((List.range' i (stop - i)).map window.bytes).map (·.1)
                        newBytes := ((List.range' i (stop - i)).map window.bytes).map (·.2) } :
            MemoryDiffRange) = window.entry (i, stop) := by
          rw [List.map_map, List.map_map]
          rfl
        have total : changedBytes + bytesIn ((i, stop) :: rest) =
            changedBytes + (stop - i) + bytesIn rest := by
          unfold bytesIn
          rw [List.map_cons, List.sum_cons]
          omega
        have onward : i + (stop - i) = stop := by omega
        rw [if_neg (bne_iff_ne.mp differ), if_pos rfl, run]
        show (if (ranges ++ [({ address := window.start + BitVec.ofNat 16 i
                                oldBytes := ((List.range' i (stop - i)).map window.bytes).map (·.1)
                                newBytes := ((List.range' i (stop - i)).map window.bytes).map
                                  (·.2) } : MemoryDiffRange)]).length > _ ∨
              changedBytes + ((List.range' i (stop - i)).map window.bytes).length > _ then _
            else _) = _
        rw [range, count, List.map_cons, total, List.append_cons ranges _ (rest.map window.entry)]
        by_cases exceeded : (ranges ++ [window.entry (i, stop)]).length >
            AgentLimits.maxDiffChangedRanges ∨
              changedBytes + (stop - i) > AgentLimits.maxDiffChangedBytes
        · have beyond : (ranges ++ [window.entry (i, stop)] ++ rest.map window.entry).length >
              AgentLimits.maxDiffChangedRanges ∨
                changedBytes + (stop - i) + bytesIn rest > AgentLimits.maxDiffChangedBytes := by
            rw [List.length_append]
            omega
          rw [if_pos exceeded]
          unfold outcome
          rw [if_pos beyond]
          rfl
        · rw [if_neg exceeded, onward]
          exact inductionHypothesis _ _ (by omega) (by omega) (by omega)
    · rw [if_neg low, if_neg low]
      exact done ranges changedBytes few small

end DiffWindow

/-! ### Snapshots of one range -/

/-- Bytes looked up one by one are a part of the list. -/
theorem map_getD_range' (bytes : List Byte) {lo count : Nat} (fits : lo + count ≤ bytes.length) :
    (List.range' lo count).map (fun i => bytes.getD i 0) = (bytes.drop lo).take count := by
  apply List.ext_getElem
  · rw [List.length_map, List.length_range', List.length_take, List.length_drop]
    omega
  · intro i low high
    rw [List.length_map, List.length_range'] at low
    rw [List.getElem_map, List.getElem_range', List.getElem_take, List.getElem_drop,
      List.getD_eq_getElem _ _ (by omega)]
    congr 1
    omega

/-- The range of a run of offsets, with the bytes of both snapshots. -/
def diffRange (a b : MemorySnapshotData) (run : Nat × Nat) : MemoryDiffRange where
  address := a.startAddress + BitVec.ofNat 16 run.1
  oldBytes := (a.data.drop run.1).take (run.2 - run.1)
  newBytes := (b.data.drop run.1).take (run.2 - run.1)

/-- A window on two snapshots of its own range passes the checks. -/
theorem diffMemorySnapshots_whole {store : MemorySnapshots} {idA idB : BitVec 32}
    {a b : MemorySnapshotData} (foundA : store.snapshots idA = some a)
    (foundB : store.snapshots idB = some b) (start : a.startAddress = b.startAddress)
    (length : a.data.length = b.data.length) :
    AgentApi.diffMemorySnapshots store idA idB a.startAddress (BitVec.ofNat 32 a.data.length) =
      DiffWindow.ranges ⟨a.data, b.data, 0, 0, a.startAddress, a.data.length⟩ a.data.length 0 []
        0 := by
  obtain ⟨some', fits⟩ := store.inside idA a foundA
  have size : (BitVec.ofNat 32 a.data.length).toNat = a.data.length := by
    rw [BitVec.toNat_ofNat]
    omega
  have sum : (a.startAddress.setWidth 32 + BitVec.ofNat 32 a.data.length).toNat =
      a.startAddress.toNat + a.data.length := by
    rw [BitVec.toNat_add, BitVec.toNat_setWidth, size]
    omega
  have valid : ¬ (BitVec.ofNat 32 a.data.length = 0 ∨
      a.startAddress.setWidth 32 + BitVec.ofNat 32 a.data.length > 0x10000) := by
    rintro (zero | beyond)
    · have none' := congrArg BitVec.toNat zero
      rw [size] at none'
      exact absurd none' (Nat.ne_of_gt some')
    · rw [gt_iff_lt, BitVec.lt_def, sum] at beyond
      exact absurd fits (Nat.not_le.mpr beyond)
  have snapA : store.getMemorySnapshot idA = a := by
    unfold MemorySnapshots.getMemorySnapshot
    rw [foundA, Option.getD_some]
  have snapB : store.getMemorySnapshot idB = b := by
    unfold MemorySnapshots.getMemorySnapshot
    rw [foundB, Option.getD_some]
  have present : ¬ (a.data = [] ∨ b.data = []) := by
    rintro (empty | empty)
    · rw [empty] at some'
      exact absurd some' (Nat.lt_irrefl 0)
    · rw [length, empty] at some'
      exact absurd some' (Nat.lt_irrefl 0)
  have covered : a.covers a.startAddress (BitVec.ofNat 32 a.data.length) = true ∧
      b.covers a.startAddress (BitVec.ofNat 32 a.data.length) = true := by
    unfold MemorySnapshotData.covers
    rw [← start, ← length]
    simp
  unfold AgentApi.diffMemorySnapshots
  rw [if_neg valid]
  dsimp only
  rw [snapA, snapB, if_neg present, covered.1, covered.2, ← start, BitVec.sub_self, size]
  rfl

/-- The runs of differing bytes of two snapshots of one range: the backend returns their ranges, and
the interface their ranges with the old and new bytes and the number of differing bytes, unless
that is more than the limits allow. -/
theorem memoryDiffs_exact {store : MemorySnapshots} {idA idB : BitVec 32}
    {a b : MemorySnapshotData} (foundA : store.snapshots idA = some a)
    (foundB : store.snapshots idB = some b) (start : a.startAddress = b.startAddress)
    (length : a.data.length = b.data.length) :
    ∃ runs, Maximal (differs a.data b.data) a.data.length runs ∧
      (∀ run ∈ runs, (a.startAddress + BitVec.ofNat 16 run.1).toNat =
        a.startAddress.toNat + run.1) ∧
      store.compareMemorySnapshots idA idB = runs.map (changedRange a.startAddress) ∧
      AgentApi.diffMemorySnapshots store idA idB a.startAddress (BitVec.ofNat 32 a.data.length) =
        some (if runs.length > AgentLimits.maxDiffChangedRanges ∨
            (List.range a.data.length).countP (differs a.data b.data) >
              AgentLimits.maxDiffChangedBytes then
          .fail .limitExceeded ("diff exceeds limits (ranges 4096, bytes 32768); " ++
            "narrow the range or delete/replace byte values")
        else .ok { start := a.startAddress
                   length := a.data.length
                   changedBytes := (List.range a.data.length).countP (differs a.data b.data)
                   ranges := runs.map (diffRange a b) }) := by
  obtain ⟨some', fits⟩ := store.inside idA a foundA
  set window : DiffWindow := ⟨a.data, b.data, 0, 0, a.startAddress, a.data.length⟩ with viewing
  have changed : window.changed = differs a.data b.data := by
    funext i
    unfold DiffWindow.changed DiffWindow.bytes differs
    dsimp only [viewing]
    rw [Nat.zero_add]
  have inside : window.Inside :=
    ⟨Nat.le_of_eq (Nat.zero_add _), Nat.le_of_eq ((Nat.zero_add _).trans length)⟩
  have all : Maximal (differs a.data b.data) a.data.length
      (scan (differs a.data b.data) a.data.length a.data.length 0) :=
    scan_maximal (Nat.le_of_eq (Nat.sub_zero _)) (Or.inl rfl)
  set runs := scan (differs a.data b.data) a.data.length a.data.length 0 with scanning
  have compared : store.compareMemorySnapshots idA idB =
      runs.map (changedRange a.startAddress) := by
    obtain ⟨found, others, closed⟩ := (compared_foldl a b a.data.length).close
    unfold MemorySnapshots.compareMemorySnapshots
    rw [foundA, foundB]
    dsimp only
    rw [if_neg (not_or.mpr ⟨not_not.mpr start, not_not.mpr length⟩), closed, others.unique all]
  have entries : runs.map window.entry = runs.map (diffRange a b) := by
    refine List.map_congr_left fun run listed => ?_
    have spec := (all.each run listed).2
    have some' := spec.nonempty
    have bound := spec.bounded
    unfold DiffWindow.entry diffRange DiffWindow.bytes
    rw [← map_getD_range' a.data (by omega), ← map_getD_range' b.data (by omega)]
    simp only [viewing, Nat.zero_add]
  have count : DiffWindow.bytesIn runs =
      (List.range a.data.length).countP (differs a.data b.data) := by
    unfold DiffWindow.bytesIn
    rw [all.sum_lengths, Nat.sub_zero, List.range_eq_range']
  have result := DiffWindow.ranges_eq inside a.data.length (i := 0) [] 0
    (Nat.le_of_eq (Nat.sub_zero _)) (Nat.zero_le _) (Nat.zero_le _)
  have whole : window.length = a.data.length := rfl
  rw [List.nil_append, Nat.zero_add, changed, whole, ← scanning, entries, count] at result
  refine ⟨runs, all, fun run listed => ?_, compared, ?_⟩
  · have spec := (all.each run listed).2
    have some' := spec.nonempty
    have bound := spec.bounded
    rw [BitVec.toNat_add, BitVec.toNat_ofNat]
    omega
  · rw [diffMemorySnapshots_whole foundA foundB start length, ← viewing, result]
    unfold DiffWindow.outcome
    rw [List.length_map]

/-- Two snapshots of the last two bytes of memory, of which the last differs. -/
def lastByteChanged : MemorySnapshots :=
  ((MemorySnapshots.init.createMemorySnapshot (fun _ => 0) 0xfffe 2).1.createMemorySnapshot
    (fun addr => if addr = 0xffff then 1 else 0) 0xfffe 2).1

theorem memoryDiffs_exact_lastByte :
    ∃ runs : List (Nat × Nat),
      lastByteChanged.compareMemorySnapshots 1 2 = runs.map (changedRange 0xfffe) := by
  obtain ⟨runs, -, -, compared, -⟩ := @memoryDiffs_exact lastByteChanged 1 2
    ⟨1, 0xfffe, [0, 0]⟩ ⟨2, 0xfffe, [0, 1]⟩ (by decide) (by decide) rfl rfl
  exact ⟨runs, compared⟩

end VectorDebugger
