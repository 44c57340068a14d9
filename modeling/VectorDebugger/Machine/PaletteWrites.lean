import VectorDebugger.Machine.PortWrites

/-!
# Palette writes

The colour table is programmed at the pixel where an `OUT` commits a colour, eight clocks of the
beam before the latch itself is committed. A write to port `0Ch` is taken from the latch at that
pixel; a write to the ports `0Dh..0Fh` only becomes a waiting colour when the latch is committed,
and programs the table during the next `OUT`, whatever that one writes.
-/

namespace VectorDebugger

namespace Board

variable {δ : Type} [Chips δ]

/-- An `OUT` programs the colour table once, at once: the entry shown at its commit pixel takes
the colour of its value, the debugger's copy holds the value, and nothing is left for later. -/
structure ProgramsAtOnce (board : Board δ) (updateScreen : Bool) : Prop where
  /-- One entry changes, to the colour of the value. -/
  palette : (board.singleStep updateScreen).palette =
    board.palette.commit δ (board.paletteIndex updateScreen) board.machine.outWrite.2
  /-- The raw byte of that entry is the value. -/
  raw : (board.singleStep updateScreen).palette.raw (board.paletteIndex updateScreen) =
    board.machine.outWrite.2
  /-- Nothing waits for a later `OUT`. -/
  waits : (board.singleStep updateScreen).machine.io.palettebyte = none

/-- The colours after an `OUT`. -/
theorem out_palette (board : Board δ) (updateScreen : Bool) (out : board.machine.opcode = 0xd3) :
    (board.singleStep updateScreen).palette =
      match board.machine.next.io.commitPalette.1 with
      | none => board.palette
      | some w8 => board.palette.commit δ (board.paletteIndex updateScreen) w8 := by
  rw [(board.singleStep_pictured updateScreen).2.1,
    (board.singleStep_out updateScreen out).1.palette]
  rfl

/-- With no colour waiting, an `OUT` to port `0Ch` programs the table at once. -/
theorem programsAtOnce_of_idle (board : Board δ) (updateScreen : Bool)
    (out : board.machine.opcode = 0xd3) (idle : board.machine.io.palettebyte = none)
    (first : board.machine.outWrite.1 = 0x0c) : board.ProgramsAtOnce updateScreen := by
  obtain ⟨waiting, latched, -⟩ := board.machine.next_latch
  rw [if_pos out] at latched
  have idleNext : board.machine.next.io.palettebyte = none := waiting.trans idle
  have latchedNext : board.machine.next.io.outport =
      some (0x0c, board.machine.outWrite.2) := by
    rw [latched, ← first]
  have palette := board.out_palette updateScreen out
  rw [Io.commitPalette_latched idleNext latchedNext] at palette
  have direct : ¬ DelayedPort board.machine.outWrite.1 := fun delayed => delayed.2 first
  have waits := (board.out_of_idle updateScreen out idle).2.1
  rw [if_neg direct] at waits
  refine ⟨palette, ?_, waits⟩
  rw [palette]
  exact Function.update_self ..

/-- With no colour waiting, an `OUT` to any other port leaves the colours alone. -/
theorem palette_of_other (board : Board δ) (updateScreen : Bool)
    (out : board.machine.opcode = 0xd3) (idle : board.machine.io.palettebyte = none)
    (other : board.machine.outWrite.1 ≠ 0x0c) :
    (board.singleStep updateScreen).palette = board.palette := by
  obtain ⟨waiting, latched, -⟩ := board.machine.next_latch
  rw [if_pos out] at latched
  have idleNext : board.machine.next.io.palettebyte = none := waiting.trans idle
  have away : ∀ w8, board.machine.next.io.outport ≠ some (0x0c, w8) := by
    intro w8 same
    rw [latched, Option.some.injEq] at same
    exact other (congrArg Prod.fst same)
  rw [board.out_palette updateScreen out, Io.commitPalette_other idleNext away]

/-- A run of `OUT`s: each with the board it started from; between them, anything that leaves the
waiting colour alone. -/
inductive PaletteStep : Board δ → Option (Board δ × Bool) → Board δ → Prop
  /-- An `OUT`. -/
  | out (board : Board δ) (updateScreen : Bool) (out : board.machine.opcode = 0xd3) :
    PaletteStep board (some (board, updateScreen)) (board.singleStep updateScreen)
  /-- Another instruction. -/
  | other (board : Board δ) (updateScreen : Bool) (other : board.machine.opcode ≠ 0xd3) :
    PaletteStep board none (board.singleStep updateScreen)
  /-- Anything else: interrupts, the frame, debugger writes. -/
  | elsewhere (board after : Board δ)
      (kept : after.machine.io.palettebyte = board.machine.io.palettebyte) :
    PaletteStep board none after

/-- What an `OUT` should do to the colours: program them at once through the palette ports, and
leave them alone through any other. -/
def PaletteSound (started : Board δ × Bool) : Prop :=
  (PalettePort started.1.machine.outWrite.1 → started.1.ProgramsAtOnce started.2) ∧
    (¬ PalettePort started.1.machine.outWrite.1 →
      (started.1.singleStep started.2).palette = started.1.palette)

/-- From a state with no colour waiting, every `OUT` of a run programs the colour table once, at
once, exactly when none addresses the ports `0Dh..0Fh`. -/
theorem palette_writes_iff {start final : Board δ} {labels : List (Option (Board δ × Bool))}
    (run : Transition.Run PaletteStep start labels final)
    (idle : start.machine.io.palettebyte = none) :
    (∀ started, some started ∈ labels → PaletteSound started) ↔
      ∀ started, some started ∈ labels → ¬ DelayedPort started.1.machine.outWrite.1 := by
  induction run with
  | nil state =>
    exact iff_of_true (fun started listed => absurd listed List.not_mem_nil)
      (fun started listed => absurd listed List.not_mem_nil)
  | cons step rest inductionHypothesis =>
    rename_i board middle final label labels
    have skip : ∀ property : Board δ × Bool → Prop,
        (∀ started, some started ∈ none :: labels → property started) ↔
          ∀ started, some started ∈ labels → property started := by
      intro property
      simp only [List.mem_cons, reduceCtorEq, false_or]
    cases step with
    | other updateScreen other =>
      rw [skip, skip]
      exact inductionHypothesis ((board.latch_of_other updateScreen other).2.trans idle)
    | elsewhere after kept =>
      rw [skip, skip]
      exact inductionHypothesis (kept.trans idle)
    | out updateScreen out =>
      have take : ∀ property : Board δ × Bool → Prop,
          (∀ started, some started ∈ some (board, updateScreen) :: labels → property started) ↔
            property (board, updateScreen) ∧
              ∀ started, some started ∈ labels → property started := by
        intro property
        simp only [List.mem_cons, Option.some.injEq, forall_eq_or_imp]
      have waits := (board.out_of_idle updateScreen out idle).2.1
      rw [take, take]
      by_cases delayed : DelayedPort board.machine.outWrite.1
      · rw [if_pos delayed] at waits
        refine iff_of_false (fun sound => ?_) (fun direct => direct.1 delayed)
        have programs := sound.1.1 delayed.1
        cases waits.symm.trans programs.waits
      · rw [if_neg delayed] at waits
        have sound : PaletteSound (board, updateScreen) := by
          by_cases first : board.machine.outWrite.1 = 0x0c
          · refine ⟨fun _ => board.programsAtOnce_of_idle updateScreen out idle first, ?_⟩
            intro other
            exact absurd (show PalettePort 0x0c by decide) (by rw [← first]; exact other)
          · exact ⟨fun colour => absurd ⟨colour, first⟩ delayed,
              fun _ => board.palette_of_other updateScreen out idle first⟩
        rw [and_iff_right sound, and_iff_right delayed]
        exact inductionHypothesis waits

/-- A program that writes `v` to a palette port twice. -/
def paletteProgram (port : Byte) : Board Unit :=
  { powerOn () [] with
    machine := { Machine.powerOn () [] with
      memory := (((Memory.init.write 0 0xd3 false).write 1 port false).write 2 0xd3 false).write 3
        port false
      cpu := { (Machine.powerOn () []).cpu with a := 0x2a } } }

/-- Through port `0Ch` its first write programs the table. -/
theorem palette_writes_powerOn :
    PaletteSound (paletteProgram 0x0c, true) := by
  have out : (paletteProgram 0x0c).machine.opcode = 0xd3 := by decide
  refine (palette_writes_iff (.cons (.out (paletteProgram 0x0c) true out) (.nil _)) rfl).mpr ?_
    (paletteProgram 0x0c, true) List.mem_cons_self
  intro started listed
  simp only [List.mem_cons, Option.some.injEq, List.not_mem_nil, or_false] at listed
  rw [listed]
  decide

/-- Through port `0Dh` it changes no colour, and the second write shows the colour of the first. -/
theorem palette_write_waits :
    ((paletteProgram 0x0d).singleStep true).palette.raw 0 = 0 ∧
      ((paletteProgram 0x0d).singleStep true).machine.io.palettebyte = some 0x2a ∧
      (((paletteProgram 0x0d).singleStep true).singleStep true).palette.raw 0 = 0x2a := by
  decide +kernel

end Board

end VectorDebugger
