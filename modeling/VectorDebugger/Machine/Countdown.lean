import VectorDebugger.Machine.SquareWave

/-!
# Counting down

A counter in mode 0 counts a load down once and then raises its output for good, and one in mode 2
counts it down again and again. Both start three cycles after the load was written, whatever the
counter did before. A load of zero stands for the whole span, but in mode 0 its end is not noticed.
-/

namespace VectorDebugger.CounterUnit

/-- The value that is left after some cycles, where what follows the start is repeated. -/
def countdown (start period t : Nat) : Nat :=
  if t = 0 ∨ t < start then start - t else period - (t - start) % period

theorem mod_succ {period : Nat} (positive : 0 < period) (n : Nat) :
    (n + 1) % period = if n % period + 1 = period then 0 else n % period + 1 := by
  have small := Nat.mod_lt n positive
  rw [← Nat.mod_add_mod]
  split
  case isTrue last => rw [last, Nat.mod_self]
  case isFalse more => exact Nat.mod_eq_of_lt (by omega)

theorem countdown_low {start t : Nat} (period : Nat) (low : t = 0 ∨ t < start) :
    countdown start period t = start - t :=
  if_pos low

theorem countdown_high {start t : Nat} (period : Nat) (high : ¬ (t = 0 ∨ t < start)) :
    countdown start period t = period - (t - start) % period :=
  if_neg high

/-- A cycle takes one off the value, and adds the period when nothing is left. -/
theorem countdown_succ {start period : Nat} (positive : 0 < period)
    (long : start = 0 → 2 ≤ period) (t : Nat) :
    (countdown start period (t + 1) : Int) =
      if (countdown start period t : Int) - 1 ≤ 0 then (countdown start period t : Int) - 1 + period
      else (countdown start period t : Int) - 1 := by
  by_cases before : t + 1 < start
  · rw [countdown_low period (.inr before), countdown_low period (.inr (by omega)),
      if_neg (by omega)]
    omega
  rw [countdown_high period (show ¬ (t + 1 = 0 ∨ t + 1 < start) by omega)]
  by_cases last : t < start
  · have ends : start = t + 1 := by omega
    rw [countdown_low period (.inr last), ends, Nat.sub_self, Nat.zero_mod, if_pos (by omega)]
    omega
  have next : t + 1 - start = t - start + 1 := by omega
  rw [next, mod_succ positive]
  by_cases first : t = 0
  · have zero : start = 0 := by omega
    have two := long zero
    rw [countdown_low period (.inl first), first, zero, Nat.zero_mod, if_neg (by omega),
      if_pos (by omega)]
    omega
  · have small := Nat.mod_lt (t - start) positive
    rw [countdown_high period (by omega)]
    split
    case isTrue ends =>
      rw [if_pos (by omega)]
      omega
    case isFalse more =>
      rw [if_neg (by omega)]
      omega

/-- The cycles that a load waits. -/
theorem iterate_delay {ctr : CounterUnit} {wait : Nat} (waits : ctr.delay = wait) :
    tick^[wait] ctr = { ctr with delay := 0 } := by
  induction wait generalizing ctr with
  | zero =>
    show ctr = _
    rw [← waits]
  | succ wait inductionHypothesis =>
    have first := @tick_idle ctr (.inl (by omega))
    rw [Function.iterate_succ_apply, first, inductionHypothesis (by
      show ctr.delay - 1 = wait
      omega)]

/-- What a byte that completes a load leaves as it was, and the cycles that the load waits. -/
theorem writeValue_complete {ctr : CounterUnit} {w8 : Byte}
    (complete : (ctr.writeValue w8).load = true) :
    (ctr.writeValue w8).modeInt = ctr.modeInt ∧ (ctr.writeValue w8).enabled = ctr.enabled ∧
      (ctr.writeValue w8).out = ctr.out ∧
      (ctr.modeInt = 0 ∨ ctr.modeInt = 2 ∧ ctr.enabled = false →
        (ctr.writeValue w8).delay = 3) := by
  obtain ⟨written, kept, whole⟩ : ∃ written : CounterUnit,
      (written.modeInt = ctr.modeInt ∧ written.enabled = ctr.enabled ∧ written.out = ctr.out) ∧
        ctr.writeValue w8 =
          if written.load then
            { written with
              loadvalue := if written.bcd then frombcd written.loadvalue else written.loadvalue
              delay := written.loadDelay }
          else written := by
    refine ⟨_, ?_, rfl⟩
    split
    · split
      · exact ⟨rfl, rfl, rfl⟩
      · exact ⟨rfl, rfl, rfl⟩
      · exact ⟨rfl, rfl, rfl⟩
    · split
      · exact ⟨rfl, rfl, rfl⟩
      · split
        · exact ⟨rfl, rfl, rfl⟩
        · exact ⟨rfl, rfl, rfl⟩
  rw [whole] at complete ⊢
  by_cases load : written.load = true
  · rw [if_pos load]
    refine ⟨kept.1, kept.2.1, kept.2.2, fun first => ?_⟩
    show written.loadDelay = 3
    unfold loadDelay
    rcases first with zero | ⟨two, off⟩
    · rw [kept.1, zero]
      rfl
    · rw [kept.1, two, kept.2.1, off]
      rfl
  · rw [if_neg load] at complete
    exact absurd complete load

/-! ## Terminal count -/

section Terminal

variable {ctr : CounterUnit} (mode : ctr.modeInt = 0) (now : ctr.delay = 0)

include mode now

theorem tick_load (load : ctr.load = true) :
    ctr.tick = ({ ctr with
      value := ctr.loadvalue.toNat, enabled := true, armed := true, out := 0, load := false } :
        CounterUnit).tick := by
  by_cases small : ctr.loadvalue.toNat ≤ 1
  · simp [tick, count, countTerminal, mode, now, load, span, small]
  · simp [tick, count, countTerminal, mode, now, load, small]

variable (enabled : ctr.enabled = true) (unloaded : ctr.load = false)

include enabled unloaded

theorem tick_more (more : ¬ ctr.value - 1 ≤ 0) :
    ctr.tick = { ctr with value := ctr.value - 1 } := by
  simp [tick, count, countTerminal, mode, now, enabled, unloaded, more]

theorem tick_armed (ends : ctr.value - 1 ≤ 0) (armed : ctr.armed = true) :
    ctr.tick =
      { ctr with
        out := if ctr.value ≠ 0 then 1 else ctr.out
        armed := false
        value := ctr.value - 1 + ctr.span } := by
  simp [tick, count, countTerminal, mode, now, enabled, unloaded, ends, armed, span]

theorem tick_spent (ends : ctr.value - 1 ≤ 0) (armed : ctr.armed = false) :
    ctr.tick = { ctr with value := ctr.value - 1 + ctr.span } := by
  simp [tick, count, countTerminal, mode, now, enabled, unloaded, ends, armed, span]

end Terminal

/-- The number of values that a counter runs through. -/
def cycle (bcd : Bool) : Nat := if bcd then 10000 else 0x10000

/-- A counter in mode 0, some cycles after it took its load. -/
structure Terminal (ctr : CounterUnit) (bcd : Bool) (start t : Nat) : Prop where
  mode : ctr.modeInt = 0
  now : ctr.delay = 0
  enabled : ctr.enabled = true
  unloaded : ctr.load = false
  digits : ctr.bcd = bcd
  armed : ctr.armed = decide (t = 0 ∨ t < start)
  out : ctr.out = if 0 < start ∧ start ≤ t then 1 else 0
  value : ctr.value = countdown start (cycle bcd) t

theorem span_cycle {ctr : CounterUnit} {bcd : Bool} (digits : ctr.bcd = bcd) :
    ctr.span = cycle bcd := by
  unfold span cycle
  rw [digits]
  cases bcd <;> rfl

theorem cycle_long (bcd : Bool) : 2 ≤ cycle bcd := by
  cases bcd <;> decide

/-- A cycle of mode 0. -/
theorem Terminal.tick {ctr : CounterUnit} {bcd : Bool} {start t : Nat}
    (counts : ctr.Terminal bcd start t) : ctr.tick.Terminal bcd start (t + 1) := by
  obtain ⟨mode, now, enabled, unloaded, digits, armed, out, value⟩ := counts
  have long := cycle_long bcd
  have next := @countdown_succ start (cycle bcd) (by omega) (fun _ => long) t
  rw [← value] at next
  have span := span_cycle digits
  by_cases ends : ctr.value - 1 ≤ 0
  · rw [if_pos ends] at next
    by_cases on : t = 0 ∨ t < start
    · have left : ctr.value = (start - t : Nat) := by
        rw [value, countdown_low _ on]
      rw [tick_armed mode now enabled unloaded ends (by rw [armed, decide_eq_true on])]
      refine ⟨mode, now, enabled, unloaded, digits, ?_, ?_, ?_⟩
      · show false = _
        exact (decide_eq_false (by omega)).symm
      · show (if ctr.value ≠ 0 then 1 else ctr.out) = _
        by_cases nothing : ctr.value = 0
        · rw [if_neg (not_not.mpr nothing), out, if_neg (by omega), if_neg (by omega)]
        · rw [if_pos nothing, if_pos (by omega)]
      · show ctr.value - 1 + ctr.span = _
        rw [span, next]
    · rw [tick_spent mode now enabled unloaded ends (by rw [armed, decide_eq_false on])]
      refine ⟨mode, now, enabled, unloaded, digits, ?_, ?_, ?_⟩
      · show ctr.armed = _
        rw [armed]
        exact decide_eq_decide.mpr (by omega)
      · show ctr.out = _
        rw [out]
        exact if_congr (by omega) rfl rfl
      · show ctr.value - 1 + ctr.span = _
        rw [span, next]
  · rw [if_neg ends] at next
    rw [tick_more mode now enabled unloaded ends]
    have apart : t = 0 ∨ t < start → t + 1 < start := by
      intro on
      have left : ctr.value = (start - t : Nat) := by
        rw [value, countdown_low _ on]
      omega
    refine ⟨mode, now, enabled, unloaded, digits, ?_, ?_, next.symm⟩
    · show ctr.armed = _
      rw [armed]
      exact decide_eq_decide.mpr ⟨fun on => .inr (apart on), fun on => .inr (by omega)⟩
    · show ctr.out = _
      rw [out]
      refine if_congr ⟨fun high => ⟨high.1, by omega⟩, fun high => ⟨high.1, ?_⟩⟩ rfl rfl
      by_contra low
      have later := apart (.inr (by omega))
      omega

/-- A load of mode 0, from the cycle on that takes it. -/
theorem terminal_iterate {ctr : CounterUnit} (mode : ctr.modeInt = 0) (now : ctr.delay = 0)
    (load : ctr.load = true) (t : Nat) :
    (tick^[t + 1] ctr).Terminal ctr.bcd ctr.loadvalue.toNat (t + 1) := by
  have start : ({ ctr with
      value := ctr.loadvalue.toNat, enabled := true, armed := true, out := 0, load := false } :
        CounterUnit).Terminal ctr.bcd ctr.loadvalue.toNat 0 := by
    refine ⟨mode, now, rfl, rfl, rfl, rfl, ?_, ?_⟩
    · exact (if_neg (by omega)).symm
    · rw [countdown_low _ (.inl rfl)]
      rfl
  induction t with
  | zero =>
    show ctr.tick.Terminal _ _ 1
    rw [tick_load mode now load]
    exact start.tick
  | succ t inductionHypothesis =>
    rw [Function.iterate_succ_apply']
    exact inductionHypothesis.tick

/-- In mode 0 a byte that completes a load, at any time, starts the count three cycles later. The
output stays low up to the end of the count and is high from then on, for as long as nothing is
written; after a load of zero it stays low. The value goes on through the whole span. -/
theorem terminal_count {ctr : CounterUnit} {w8 : Byte} (mode : ctr.modeInt = 0)
    (complete : (ctr.writeValue w8).load = true) {t : Nat} (later : 0 < t) :
    (tick^[3 + t] (ctr.writeValue w8)).out =
        (if 0 < (ctr.writeValue w8).loadvalue.toNat ∧ (ctr.writeValue w8).loadvalue.toNat ≤ t
          then 1 else 0) ∧
      (tick^[3 + t] (ctr.writeValue w8)).value =
        countdown (ctr.writeValue w8).loadvalue.toNat (cycle (ctr.writeValue w8).bcd) t := by
  obtain ⟨kept, -, -, waits⟩ := writeValue_complete complete
  obtain ⟨t, rfl⟩ := Nat.exists_eq_succ_of_ne_zero (Nat.ne_of_gt later)
  rw [Nat.add_comm, Function.iterate_add_apply, iterate_delay (waits (.inl mode))]
  have counts := @terminal_iterate { ctr.writeValue w8 with delay := 0 } (kept.trans mode) rfl
    complete t
  exact ⟨counts.out, counts.value⟩

/-- Two ticks, in the mode and the access that they need. -/
theorem terminal_count_two :
    (tick^[3 + 2] ((CounterUnit.init.setMode 0 1 false).writeValue 2)).out =
        (if 0 < ((CounterUnit.init.setMode 0 1 false).writeValue 2).loadvalue.toNat ∧
            ((CounterUnit.init.setMode 0 1 false).writeValue 2).loadvalue.toNat ≤ 2
          then 1 else 0) ∧
      (tick^[3 + 2] ((CounterUnit.init.setMode 0 1 false).writeValue 2)).value =
        countdown ((CounterUnit.init.setMode 0 1 false).writeValue 2).loadvalue.toNat
          (cycle ((CounterUnit.init.setMode 0 1 false).writeValue 2).bcd) 2 :=
  terminal_count rfl rfl (by decide)

/-! ## Rate generator -/

/-- A counter in mode 2, some cycles after it took its load. -/
structure Rate (ctr : CounterUnit) (start period t : Nat) : Prop where
  mode : ctr.modeInt = 2
  now : ctr.delay = 0
  enabled : ctr.enabled = true
  reload : ctr.reload = period
  value : ctr.value = countdown start period t

/-- A cycle of mode 2. -/
theorem Rate.tick {ctr : CounterUnit} {start period t : Nat} (positive : 0 < period)
    (long : start = 0 → 2 ≤ period) (counts : ctr.Rate start period t) :
    ctr.tick.Rate start period (t + 1) ∧ ctr.tick.out = ctr.out := by
  obtain ⟨mode, now, enabled, reload, value⟩ := counts
  have next := countdown_succ positive long t
  rw [← value, ← reload] at next
  have ticked : ctr.tick =
      { ctr with
        value := if ctr.value - 1 ≤ 0 then ctr.value - 1 + ctr.reload else ctr.value - 1
        load := false } := by
    simp [CounterUnit.tick, count, countRate, begin, mode, now, enabled]
  rw [ticked]
  exact ⟨⟨mode, now, enabled, reload, next.symm⟩, rfl⟩

/-- The first cycle of mode 2 takes the load. -/
theorem tick_rate {ctr : CounterUnit} (mode : ctr.modeInt = 2) (now : ctr.delay = 0)
    (idle : ctr.enabled = false) (load : ctr.load = true) :
    ctr.tick =
      ({ ctr with value := ctr.loadvalue.toNat, enabled := true } : CounterUnit).tick := by
  simp [CounterUnit.tick, count, countRate, begin, mode, now, idle, load, reload, span]

/-- The period of mode 2. -/
def ratePeriod (ctr : CounterUnit) : Nat :=
  if ctr.loadvalue = 0 then cycle ctr.bcd else ctr.loadvalue.toNat

theorem reload_ratePeriod (ctr : CounterUnit) : ctr.reload = ctr.ratePeriod := by
  unfold CounterUnit.reload ratePeriod
  split
  · exact span_cycle rfl
  · rfl

theorem ratePeriod_start (ctr : CounterUnit) :
    0 < ctr.ratePeriod ∧ (ctr.loadvalue.toNat = 0 → 2 ≤ ctr.ratePeriod) ∧
      (ctr.loadvalue.toNat = 0 ∨ ctr.loadvalue.toNat = ctr.ratePeriod) := by
  unfold ratePeriod
  have long := cycle_long ctr.bcd
  split
  case isTrue zero =>
    rw [zero]
    exact ⟨by omega, fun _ => long, .inl rfl⟩
  case isFalse some' =>
    have positive : ctr.loadvalue.toNat ≠ 0 := fun none => some' (BitVec.eq_of_toNat_eq none)
    exact ⟨by omega, fun none => absurd none positive, .inr rfl⟩

/-- What starts with the period, or with nothing, is the period's own countdown. -/
theorem countdown_period {start period t : Nat} (same : start = 0 ∨ start = period)
    (later : 0 < t) : countdown start period t = period - t % period := by
  rcases same with rfl | rfl
  · rw [countdown_high _ (by omega), Nat.sub_zero]
  · by_cases before : t < start
    · rw [countdown_low _ (.inr before), Nat.mod_eq_of_lt before]
    · rw [countdown_high _ (by omega), ← Nat.mod_eq_sub_mod (not_lt.mp before)]

theorem rate_iterate {ctr : CounterUnit} (mode : ctr.modeInt = 2) (now : ctr.delay = 0)
    (idle : ctr.enabled = false) (load : ctr.load = true) (t : Nat) :
    (tick^[t + 1] ctr).Rate ctr.loadvalue.toNat ctr.ratePeriod (t + 1) ∧
      (tick^[t + 1] ctr).out = ctr.out := by
  obtain ⟨positive, long, -⟩ := ctr.ratePeriod_start
  have start : ({ ctr with value := ctr.loadvalue.toNat, enabled := true } : CounterUnit).Rate
      ctr.loadvalue.toNat ctr.ratePeriod 0 := by
    refine ⟨mode, now, rfl, ctr.reload_ratePeriod, ?_⟩
    rw [countdown_low _ (.inl rfl)]
    rfl
  induction t with
  | zero =>
    show ctr.tick.Rate _ _ 1 ∧ ctr.tick.out = _
    rw [tick_rate mode now idle load]
    exact start.tick positive long
  | succ t inductionHypothesis =>
    rw [Function.iterate_succ_apply']
    have next := inductionHypothesis.1.tick positive long
    exact ⟨next.1, next.2.trans inductionHypothesis.2⟩

/-- In mode 2 a byte that completes the first load starts the count three cycles later. From then on
the value runs from the load down to one, over and over, and the output stays as it is. -/
theorem rate_generator {ctr : CounterUnit} {w8 : Byte} (mode : ctr.modeInt = 2)
    (idle : ctr.enabled = false) (complete : (ctr.writeValue w8).load = true) {t : Nat}
    (later : 0 < t) :
    (tick^[3 + t] (ctr.writeValue w8)).value =
        ((ctr.writeValue w8).ratePeriod - t % (ctr.writeValue w8).ratePeriod : Nat) ∧
      (tick^[3 + t] (ctr.writeValue w8)).out = ctr.out := by
  obtain ⟨kept, off, same, waits⟩ := writeValue_complete complete
  obtain ⟨t, rfl⟩ := Nat.exists_eq_succ_of_ne_zero (Nat.ne_of_gt later)
  rw [Nat.add_comm, Function.iterate_add_apply, iterate_delay (waits (.inr ⟨mode, idle⟩))]
  have counts := @rate_iterate { ctr.writeValue w8 with delay := 0 } (kept.trans mode) rfl
    (off.trans idle) complete t
  refine ⟨counts.1.value.trans ?_, counts.2.trans same⟩
  exact congrArg Nat.cast (countdown_period (ctr.writeValue w8).ratePeriod_start.2.2 later)

/-- A period of three ticks. -/
theorem rate_generator_three :
    (tick^[3 + 7] ((CounterUnit.init.setMode 2 1 false).writeValue 3)).value =
        (((CounterUnit.init.setMode 2 1 false).writeValue 3).ratePeriod -
          7 % ((CounterUnit.init.setMode 2 1 false).writeValue 3).ratePeriod : Nat) ∧
      (tick^[3 + 7] ((CounterUnit.init.setMode 2 1 false).writeValue 3)).out =
        (CounterUnit.init.setMode 2 1 false).out :=
  rate_generator rfl rfl rfl (by decide)

end VectorDebugger.CounterUnit
