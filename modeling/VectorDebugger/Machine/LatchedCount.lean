import VectorDebugger.Machine.SquareWave

/-!
# Latched counts

A counter with two-byte access is read and written byte by byte, and one toggle says which byte is
next in both directions. A latch holds the value for the reads that follow, and leaves the toggle.
-/

namespace VectorDebugger.CounterUnit

/-- The counter is programmed for two-byte access. -/
structure TwoByte (ctr : CounterUnit) : Prop where
  access : ctr.latchMode = 3
  toggle : ctr.writeState < 2

/-- The word that the value of a counter is read as. -/
def readWord (ctr : CounterUnit) : Word :=
  let value := BitVec.ofInt 16 ctr.value
  if ctr.bcd then BitVec.ofNat 16 (tobcd 4 value.toNat) else value

/-- What a latch command and two reads answer, with ticks in between. -/
def latchedReads (ctr : CounterUnit) (before between : Nat) : Byte × Byte :=
  let first := (tick^[before] ctr.latch).readValue
  let second := (tick^[between] first.1).readValue
  (first.2, second.2)

/-- The next write is taken as the low byte of a load. -/
def TakesLow (ctr : CounterUnit) : Prop := ∀ w8, (ctr.writeValue w8).writeLsb = w8

/-- The next read returns the low byte, whatever value is latched. -/
def ReturnsLow (ctr : CounterUnit) : Prop :=
  ∀ value, ({ ctr with latchValue := value } : CounterUnit).readValue.2 =
    ({ ctr with latchValue := value } : CounterUnit).shownValue.low

/-- A latched count is read whole, and reads and writes have their bytes to themselves. -/
structure ReadsWhole (ctr : CounterUnit) : Prop where
  latched : ∀ before between,
    ctr.latchedReads before between = (ctr.latch.readWord.low, ctr.latch.readWord.high)
  reads : ctr.readValue.1.TakesLow ↔ ctr.TakesLow
  writes : ∀ w8, (ctr.writeValue w8).ReturnsLow ↔ ctr.ReturnsLow

/-- What a tick leaves as it is. -/
structure Alike (ctr other : CounterUnit) : Prop where
  latchValue : other.latchValue = ctr.latchValue
  writeState : other.writeState = ctr.writeState
  latchMode : other.latchMode = ctr.latchMode
  bcd : other.bcd = ctr.bcd
  modeInt : other.modeInt = ctr.modeInt
  writeLsb : other.writeLsb = ctr.writeLsb
  loadvalue : other.loadvalue = ctr.loadvalue
  load : other.load = true → ctr.load = true

variable {ctr other third : CounterUnit}

theorem Alike.trans (first : ctr.Alike other) (second : other.Alike third) : ctr.Alike third :=
  ⟨second.latchValue.trans first.latchValue, second.writeState.trans first.writeState,
    second.latchMode.trans first.latchMode, second.bcd.trans first.bcd,
    second.modeInt.trans first.modeInt, second.writeLsb.trans first.writeLsb,
    second.loadvalue.trans first.loadvalue, fun load => first.load (second.load load)⟩

theorem Alike.refl (ctr : CounterUnit) : ctr.Alike ctr :=
  ⟨rfl, rfl, rfl, rfl, rfl, rfl, rfl, id⟩

theorem begin_alike (ctr : CounterUnit) : ctr.Alike ctr.begin := by
  unfold begin
  split
  · exact ⟨rfl, rfl, rfl, rfl, rfl, rfl, rfl, id⟩
  · exact .refl ctr

theorem countTerminal_alike (ctr : CounterUnit) : ctr.Alike ctr.countTerminal.1 := by
  unfold countTerminal
  dsimp only
  split_ifs <;> exact ⟨rfl, rfl, rfl, rfl, rfl, rfl, rfl, id⟩

theorem countOneShot_alike (ctr : CounterUnit) : ctr.Alike ctr.countOneShot := by
  unfold countOneShot
  dsimp only
  split_ifs <;> exact ⟨rfl, rfl, rfl, rfl, rfl, rfl, rfl, id⟩

theorem countRate_alike (ctr : CounterUnit) : ctr.Alike ctr.countRate := by
  unfold countRate
  dsimp only
  split
  · exact ctr.begin_alike.trans ⟨rfl, rfl, rfl, rfl, rfl, rfl, rfl, id⟩
  · exact ctr.begin_alike

theorem countSquare_alike (ctr : CounterUnit) : ctr.Alike ctr.countSquare := by
  unfold countSquare
  dsimp only
  by_cases enabled : ctr.begin.enabled = true
  · rw [if_pos enabled]
    split_ifs <;> exact ctr.begin_alike.trans ⟨rfl, rfl, rfl, rfl, rfl, rfl, rfl, id⟩
  · rw [if_neg enabled]
    exact ctr.begin_alike

/-- The end of a tick that counted. -/
theorem counted_alike (ctr : CounterUnit) : ctr.Alike { ctr with load := false } :=
  ⟨rfl, rfl, rfl, rfl, rfl, rfl, rfl, nofun⟩

/-- A tick leaves the latched value, the toggle and the load, in every mode. -/
theorem tick_alike (ctr : CounterUnit) : ctr.Alike ctr.tick := by
  unfold tick count
  split
  · exact ⟨rfl, rfl, rfl, rfl, rfl, rfl, rfl, id⟩
  · split
    · exact .refl ctr
    · dsimp only
      split
      · exact ctr.countTerminal_alike.trans (counted_alike _)
      · exact ctr.countOneShot_alike.trans (counted_alike _)
      · exact ctr.countRate_alike.trans (counted_alike _)
      · exact ctr.countSquare_alike.trans (counted_alike _)
      · exact counted_alike ctr

theorem iterate_alike (ctr : CounterUnit) (t : Nat) : ctr.Alike (tick^[t] ctr) := by
  induction t with
  | zero => exact .refl ctr
  | succ t inductionHypothesis =>
    rw [Function.iterate_succ_apply']
    exact inductionHypothesis.trans (tick_alike _)

/-- Counters that are alike show the same latched value. -/
theorem Alike.shownValue (alike : ctr.Alike other) (latched : ctr.latchValue ≠ -1) :
    other.shownValue = ctr.shownValue := by
  unfold CounterUnit.shownValue
  rw [alike.latchValue, alike.bcd, if_pos latched, if_pos latched]

/-- The latch command leaves the toggle and the access mode. -/
theorem latch_access (ctr : CounterUnit) :
    ctr.latch.latchMode = ctr.latchMode ∧ ctr.latch.writeState = ctr.writeState :=
  ⟨ctr.tick_alike.latchMode, ctr.tick_alike.writeState⟩

/-- A latched value other than the mark of none is what is read. -/
theorem latch_shownValue (marked : ctr.latch.value ≠ -1) :
    ctr.latch.shownValue = ctr.latch.readWord := by
  unfold shownValue readWord
  have latched : ctr.latch.latchValue = ctr.latch.value := rfl
  rw [latched, if_pos marked]

/-- The first read of two. -/
theorem readValue_first (access : ctr.latchMode = 3) (first : ctr.writeState = 0) :
    ctr.readValue = ({ ctr with writeState := 1 }, ctr.shownValue.low) := by
  unfold readValue
  rw [access, first]
  rfl

/-- The second read of two. -/
theorem readValue_second (access : ctr.latchMode = 3) (second : ctr.writeState = 1) :
    ctr.readValue = ({ ctr with latchValue := -1, writeState := 0 }, ctr.shownValue.high) := by
  unfold readValue
  rw [access, second]
  rfl

/-- A latch at the start of a pair of reads is read whole. -/
theorem latched_of_start (access : ctr.latchMode = 3) (start : ctr.writeState = 0)
    (marked : ctr.latch.value ≠ -1) (before between : Nat) :
    ctr.latchedReads before between = (ctr.latch.readWord.low, ctr.latch.readWord.high) := by
  have latched : ctr.latch.latchValue ≠ -1 := marked
  have waited := iterate_alike ctr.latch before
  have first := readValue_first (waited.latchMode.trans (ctr.latch_access.1.trans access))
    (waited.writeState.trans (ctr.latch_access.2.trans start))
  have between' := iterate_alike
    ({ tick^[before] ctr.latch with writeState := 1 } : CounterUnit) between
  have second := readValue_second (between'.latchMode.trans
    (waited.latchMode.trans (ctr.latch_access.1.trans access))) between'.writeState
  have held := (waited.shownValue latched).trans (latch_shownValue marked)
  have still :
      ({ tick^[before] ctr.latch with writeState := 1 } : CounterUnit).latchValue ≠ -1 := by
    show (tick^[before] ctr.latch).latchValue ≠ -1
    rw [waited.latchValue]
    exact latched
  have shown := (between'.shownValue still).trans held
  unfold latchedReads
  dsimp only
  rw [first, second, held, shown]

theorem TwoByte.cases (two : ctr.TwoByte) : ctr.writeState = 0 ∨ ctr.writeState = 1 := by
  have toggle := two.toggle
  omega

/-- A read turns the toggle over. -/
theorem TwoByte.readValue (two : ctr.TwoByte) :
    ctr.readValue.1.TwoByte ∧ (ctr.readValue.1.writeState = 0 ↔ ¬ ctr.writeState = 0) := by
  rcases two.cases with first | second
  · rw [readValue_first two.access first, first]
    exact ⟨⟨two.access, Nat.one_lt_two⟩, iff_of_false Nat.one_ne_zero (not_not.mpr rfl)⟩
  · rw [readValue_second two.access second, second]
    exact ⟨⟨two.access, Nat.two_pos⟩, iff_of_true rfl Nat.one_ne_zero⟩

/-- What a write in two-byte access does beside the load. -/
theorem TwoByte.writeValue (two : ctr.TwoByte) (w8 : Byte) :
    (ctr.writeValue w8).TwoByte ∧
      ((ctr.writeValue w8).writeState = 0 ↔ ¬ ctr.writeState = 0) ∧
      (ctr.writeValue w8).writeLsb = if ctr.writeState = 0 then w8 else ctr.writeLsb := by
  rcases two.cases with first | second
  · have access : (ctr.writeValue w8).latchMode = 3 := by
      by_cases load : ctr.load = true
      · simp [CounterUnit.writeValue, two.access, first, load]
      · simp [CounterUnit.writeValue, two.access, first, load]
    have next : (ctr.writeValue w8).writeState = 1 ∧ (ctr.writeValue w8).writeLsb = w8 := by
      by_cases load : ctr.load = true
      · simp [CounterUnit.writeValue, two.access, first, load]
      · simp [CounterUnit.writeValue, two.access, first, load]
    exact ⟨⟨access, by omega⟩, by omega, next.2.trans (if_pos first).symm⟩
  · have access : (ctr.writeValue w8).latchMode = 3 := by
      simp [CounterUnit.writeValue, two.access, second]
    have next : (ctr.writeValue w8).writeState = 0 ∧
        (ctr.writeValue w8).writeLsb = ctr.writeLsb := by
      simp [CounterUnit.writeValue, two.access, second]
    exact ⟨⟨access, by omega⟩, by omega, next.2.trans (if_neg (by omega)).symm⟩

/-- The toggle says how the next write is taken. -/
theorem TwoByte.takesLow_iff (two : ctr.TwoByte) : ctr.TakesLow ↔ ctr.writeState = 0 := by
  constructor
  · intro takes
    by_contra second
    have stored := (two.writeValue (ctr.writeLsb + 1)).2.2
    rw [takes, if_neg second] at stored
    exact absurd stored (by simp)
  · intro first w8
    have stored := (two.writeValue w8).2.2
    rw [if_pos first] at stored
    exact stored

/-- The toggle says which byte the next read returns. -/
theorem TwoByte.returnsLow_iff (two : ctr.TwoByte) : ctr.ReturnsLow ↔ ctr.writeState = 0 := by
  rcases two.cases with first | second
  · refine iff_of_true ?_ first
    intro value
    have read : ({ ctr with latchValue := value } : CounterUnit).readValue = _ :=
      readValue_first two.access first
    rw [read]
  · refine iff_of_false ?_ (by omega)
    intro returns
    have one := returns 1
    have read : ({ ctr with latchValue := 1 } : CounterUnit).readValue = _ :=
      readValue_second two.access second
    rw [read] at one
    have shown : ({ ctr with latchValue := 1 } : CounterUnit).shownValue = 1 := by
      have digit : BitVec.ofNat 16 (tobcd 4 (BitVec.ofInt 16 1).toNat) = 1 := by decide
      unfold shownValue
      cases ctr.bcd
      · rfl
      · exact digit
    change (CounterUnit.shownValue { ctr with latchValue := 1 }).high = _ at one
    rw [shown] at one
    exact absurd one (by decide)

/-- With one toggle for both directions no counter reads whole: a read always changes how the next
write is taken, and a write which byte the next read returns. A latch at the start of a pair of
reads is read whole, unless its value is the mark of none. -/
theorem readsWhole_never (ctr : CounterUnit) (two : ctr.TwoByte) :
    ¬ ctr.ReadsWhole ∧ ¬ (ctr.readValue.1.TakesLow ↔ ctr.TakesLow) ∧
      (∀ w8, ¬ ((ctr.writeValue w8).ReturnsLow ↔ ctr.ReturnsLow)) ∧
      (ctr.writeState = 0 → ctr.latch.value ≠ -1 → ∀ before between,
        ctr.latchedReads before between = (ctr.latch.readWord.low, ctr.latch.readWord.high)) := by
  have reads : ¬ (ctr.readValue.1.TakesLow ↔ ctr.TakesLow) := by
    rw [two.readValue.1.takesLow_iff, two.takesLow_iff, two.readValue.2]
    exact not_iff_self
  have writes : ∀ w8, ¬ ((ctr.writeValue w8).ReturnsLow ↔ ctr.ReturnsLow) := by
    intro w8
    rw [(two.writeValue w8).1.returnsLow_iff, two.returnsLow_iff, (two.writeValue w8).2.1]
    exact not_iff_self
  exact ⟨fun whole => reads whole.reads, reads, writes, latched_of_start two.access⟩

/-- A counter as a control word leaves it. -/
theorem readsWhole_never_fresh :
    ¬ (CounterUnit.init.setMode 0 3 false).ReadsWhole :=
  (readsWhole_never (CounterUnit.init.setMode 0 3 false) ⟨rfl, by decide⟩).1

/-- A counter at 1234h whose low byte was read once without a latch. -/
def halfRead : CounterUnit :=
  { CounterUnit.init.setMode 0 3 false with value := 0x1234, delay := 2, writeState := 1 }

/-- A latch after one read answers the high byte first. -/
theorem halfRead_not_readsWhole : ¬ ∀ ctr : CounterUnit, ctr.TwoByte → ctr.ReadsWhole := by
  intro whole
  have reads := (whole halfRead ⟨rfl, by decide⟩).latched 0 0
  exact absurd reads (by decide)

end VectorDebugger.CounterUnit
