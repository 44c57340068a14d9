import VectorDebugger.Machine.Serialize

/-!
# Malformed state files

A state file is meant to be refused without harm unless it is a sequence of complete chunks. Here
is what `Board::deserialize` does with every list of bytes.
-/

namespace VectorDebugger

/-- The contents of a chunk hold what its reader consumes. -/
def ChunkId.Enough (id : ChunkId) (body : List Byte) : Prop :=
  match id with
  | .memory =>
    ∃ banks data, body.drop 4 = banks :: data ∧ 65536 * banks.toNat ≤ data.length
  | .io => 73 ≤ body.length
  | .cpu => 26 ≤ body.length
  | .board => 3 ≤ body.length

/-- A sequence of complete chunks with known signatures, each with what its reader consumes. -/
inductive WellFormed : List Byte → Prop
  | nil : WellFormed []
  | chunk {it : List Byte} {chunk : Chunk} (taken : takeChunk it = some chunk) (id : ChunkId)
    (known : ChunkId.ofSignature chunk.signature = some id)
    (complete : chunk.size ≤ chunk.begin'.length)
    (enough : id.Enough (chunk.begin'.take chunk.size))
    (later : WellFormed (chunk.begin'.drop chunk.size)) : WellFormed it

/-- The headers of empty chunks, and then that of a chunk with an unknown signature. -/
inductive RefusedAtOnce : List Byte → Prop
  | unknown {it : List Byte} {chunk : Chunk} (taken : takeChunk it = some chunk)
    (unknown : ChunkId.ofSignature chunk.signature = none) (filled : chunk.size ≠ 0) :
    RefusedAtOnce it
  | skip {it : List Byte} {chunk : Chunk} (taken : takeChunk it = some chunk)
    (empty : chunk.size = 0) (later : RefusedAtOnce chunk.begin') : RefusedAtOnce it

theorem ChunkId.Enough.filled {id : ChunkId} {body : List Byte} (enough : id.Enough body) :
    body.length ≠ 0 := by
  cases id with
  | memory =>
    obtain ⟨banks, data, there, _⟩ := enough
    intro none'
    rw [List.length_eq_zero_iff.mp none'] at there
    exact nomatch there
  | io =>
    have long : 73 ≤ body.length := enough
    omega
  | cpu =>
    have long : 26 ≤ body.length := enough
    omega
  | board =>
    have long : 3 ≤ body.length := enough
    omega

namespace Board

variable {δ : Type}

/-- A reader of a complete chunk with enough in it succeeds. -/
theorem restore_isSome (board : Board δ) {id : ChunkId} {begin' : List Byte} {size : Nat}
    (complete : size ≤ begin'.length) (enough : id.Enough (begin'.take size)) :
    (board.restore id begin' size).isSome = true := by
  have taken : (begin'.take size).length = size := List.length_take_of_le complete
  cases id with
  | memory =>
    obtain ⟨banks, data, there, bound⟩ := enough
    have long : 5 ≤ begin'.length := by
      have five := congrArg List.length there
      rw [List.length_drop, taken, List.length_cons] at five
      omega
    match begin', long with
    | s :: m :: p :: q :: n :: rest, _ =>
      have filled : 5 ≤ size := by
        have five := congrArg List.length there
        rw [List.length_drop, taken, List.length_cons] at five
        omega
      obtain ⟨left, rfl⟩ := Nat.exists_eq_add_of_le' filled
      simp only [List.take_succ_cons, List.drop_succ_cons, List.drop_zero, List.cons.injEq] at there
      obtain ⟨rfl, rfl⟩ := there
      rw [List.length_take] at bound
      unfold restore Memory.deserialize
      simp only [List.length_cons] at complete ⊢
      rw [if_pos]
      · rfl
      · refine ⟨?_, ?_, ?_⟩ <;> omega
  | io =>
    have long : 73 ≤ (begin'.take size).length := enough
    have left : 9 ≤ (begin'.drop 64).length := by
      rw [List.length_drop]
      omega
    unfold restore
    dsimp only
    generalize begin'.drop 64 = rest at left
    match rest, left with
    | _ :: _ :: _ :: _ :: _ :: _ :: _ :: _ :: _ :: _, _ => rfl
  | cpu =>
    have long : 26 ≤ (begin'.take size).length := enough
    have left : ¬begin'.length < 26 := by omega
    unfold restore I8080.deserialize
    dsimp only
    rw [if_neg left]
    rfl
  | board =>
    have long : 3 ≤ (begin'.take size).length := enough
    have left : 3 ≤ begin'.length := by omega
    unfold restore deserializeSelf
    dsimp only
    match begin', left with
    | _ :: _ :: _ :: _, _ => rfl

/-- What happens at a position before the end. -/
theorem deserialize_take (board : Board δ) {it : List Byte} {chunk : Chunk}
    (taken : takeChunk it = some chunk) :
    board.deserialize it =
      if chunk.size = 0 then board.deserialize chunk.begin'
      else
        match ChunkId.ofSignature chunk.signature with
        | none => some (board, false)
        | some id =>
          (board.restore id chunk.begin' chunk.size).bind fun restored =>
            if chunk.begin'.length < chunk.size then none
            else restored.deserialize (chunk.begin'.drop chunk.size) := by
  have inside : it ≠ [] := by
    intro none'
    rw [none'] at taken
    cases taken
  rw [deserialize, if_neg inside]
  split
  · rename_i missing
    rw [missing] at taken
    cases taken
  · rename_i other found
    obtain rfl := Option.some.inj (found.symm.trans taken)
    by_cases empty : other.size = 0
    · rw [if_pos empty, if_pos empty]
    · rw [if_neg empty, if_neg empty]
      cases ChunkId.ofSignature other.signature with
      | none => rfl
      | some id =>
        dsimp only
        cases board.restore id other.begin' other.size with
        | none => rfl
        | some restored => rfl

theorem deserialize_nil (board : Board δ) : board.deserialize [] = some (board, true) := by
  rw [deserialize, if_pos rfl]

theorem deserialize_short (board : Board δ) {it : List Byte} (inside : it ≠ [])
    (short : takeChunk it = none) : board.deserialize it = none := by
  rw [deserialize, if_neg inside]
  split
  · rfl
  · rename_i chunk found
    rw [short] at found
    cases found

/-- A well-formed file is read inside its bounds. -/
theorem deserialize_of_wellFormed {it : List Byte} (formed : WellFormed it) (board : Board δ) :
    (board.deserialize it).isSome = true := by
  induction formed generalizing board with
  | nil =>
    rw [deserialize_nil]
    rfl
  | @chunk it chunk taken id known complete enough later inductionHypothesis =>
    have filled : chunk.size ≠ 0 := by
      have length := enough.filled
      rw [List.length_take_of_le complete] at length
      exact length
    obtain ⟨restored, read⟩ := Option.isSome_iff_exists.mp (board.restore_isSome complete enough)
    rw [deserialize_take board taken, if_neg filled, known]
    dsimp only
    rw [read, Option.bind_some, if_neg (Nat.not_lt.mpr complete)]
    exact inductionHypothesis restored

/-- A file that is refused at once leaves the board alone. -/
theorem deserialize_of_refusedAtOnce {it : List Byte} (refused : RefusedAtOnce it)
    (board : Board δ) : board.deserialize it = some (board, false) := by
  induction refused with
  | unknown taken unknown filled => rw [deserialize_take board taken, if_neg filled, unknown]
  | skip taken empty later inductionHypothesis =>
    rw [deserialize_take board taken, if_pos empty]
    exact inductionHypothesis

/-- Two boards that have in common what a reader restores, as far as one cell of it shows. -/
def Common (id : ChunkId) (board other : Board δ) : Prop :=
  match id with
  | .memory => board.machine.memory.modeStack = other.machine.memory.modeStack
  | .io => board.machine.io.cw = other.machine.io.cw
  | .cpu => board.machine.cpu.a = other.machine.cpu.a
  | .board => board.irqCarry = other.irqCarry

/-- Whether a reader succeeds depends on the file alone. What it restores is common to both boards
then, and what they had in common before still is. -/
theorem restore_common (board other : Board δ) (id : ChunkId) (begin' : List Byte) (size : Nat) :
    (board.restore id begin' size = none ∧ other.restore id begin' size = none) ∨
      ∃ restored restored', board.restore id begin' size = some restored ∧
        other.restore id begin' size = some restored' ∧ Common id restored restored' ∧
          ∀ known, Common known board other → Common known restored restored' := by
  cases id with
  | memory =>
    unfold restore Memory.deserialize
    dsimp only
    split
    · split
      · refine Or.inr ⟨_, _, rfl, rfl, rfl, fun known common => ?_⟩
        cases known with
        | memory => rfl
        | _ => exact common
      · exact Or.inl ⟨rfl, rfl⟩
    · exact Or.inl ⟨rfl, rfl⟩
  | io =>
    unfold restore Io.deserialize
    dsimp only
    split
    · refine Or.inr ⟨_, _, rfl, rfl, rfl, fun known common => ?_⟩
      cases known with
      | io => rfl
      | _ => exact common
    · exact Or.inl ⟨rfl, rfl⟩
  | cpu =>
    unfold restore
    dsimp only
    cases I8080.deserialize begin' with
    | none => exact Or.inl ⟨rfl, rfl⟩
    | some cpu =>
      refine Or.inr ⟨_, _, rfl, rfl, rfl, fun known common => ?_⟩
      cases known with
      | cpu => rfl
      | _ => exact common
  | board =>
    unfold restore deserializeSelf
    dsimp only
    split
    · refine Or.inr ⟨_, _, rfl, rfl, rfl, fun known common => ?_⟩
      cases known with
      | board => rfl
      | _ => exact common
    · exact Or.inl ⟨rfl, rfl⟩

/-- What two boards have in common they have in common after reading a file. -/
theorem deserialize_common (known : ChunkId) (it : List Byte) :
    ∀ board other : Board δ, Common known board other → ∀ after after' result result',
      board.deserialize it = some (after, result) →
        other.deserialize it = some (after', result') → Common known after after' := by
  induction length : it.length using Nat.strongRecOn generalizing it with
  | ind count inductionHypothesis =>
    intro board other common after after' result result' read read'
    by_cases ended : it = []
    · rw [ended, deserialize_nil] at read read'
      obtain ⟨rfl, _⟩ := Prod.mk.inj (Option.some.inj read)
      obtain ⟨rfl, _⟩ := Prod.mk.inj (Option.some.inj read')
      exact common
    · cases taken : takeChunk it with
      | none =>
        rw [deserialize_short board ended taken] at read
        exact nomatch read
      | some chunk =>
        have shorter := length_of_takeChunk taken
        rw [deserialize_take _ taken] at read read'
        by_cases empty : chunk.size = 0
        · rw [if_pos empty] at read read'
          exact inductionHypothesis _ (by omega) chunk.begin' rfl board other common _ _ _ _ read
            read'
        · rw [if_neg empty] at read read'
          cases id : ChunkId.ofSignature chunk.signature with
          | none =>
            rw [id] at read read'
            obtain ⟨rfl, _⟩ := Prod.mk.inj (Option.some.inj read)
            obtain ⟨rfl, _⟩ := Prod.mk.inj (Option.some.inj read')
            exact common
          | some id' =>
            rw [id] at read read'
            dsimp only at read read'
            rcases restore_common board other id' chunk.begin' chunk.size with
              ⟨fails, _⟩ | ⟨restored, restored', first, second, _, kept⟩
            · rw [fails] at read
              exact nomatch read
            · rw [first, Option.bind_some] at read
              rw [second, Option.bind_some] at read'
              split at read
              · exact nomatch read
              · rename_i complete
                rw [if_neg complete] at read'
                refine inductionHypothesis _ ?_ (chunk.begin'.drop chunk.size) rfl restored
                  restored' (kept known common) _ _ _ _ read read'
                rw [List.length_drop]
                omega

/-- For every kind of chunk there are boards that differ in what its reader restores. -/
theorem exists_not_common (chips : δ) (id : ChunkId) :
    ∃ board other : Board δ, ¬Common id board other := by
  let board := powerOn chips []
  cases id with
  | memory =>
    exact ⟨board, { board with machine := { board.machine with
      memory := { board.machine.memory with modeStack := true } } }, nofun⟩
  | io =>
    exact ⟨board, { board with machine := { board.machine with
      io := { board.machine.io with cw := 0 } } },
        fun same => absurd (show (0x08 : Byte) = 0 from same) (by decide)⟩
  | cpu =>
    exact ⟨board, { board with machine := { board.machine with
      cpu := { board.machine.cpu with a := 1 } } },
        fun same => absurd (show (0 : Byte) = 1 from same) (by decide)⟩
  | board => exact ⟨board, { board with irqCarry := true }, nofun⟩

/-- A file that leaves every board alone is refused at once. -/
theorem refusedAtOnce_of_unchanged (chips : δ) (it : List Byte)
    (unchanged : ∀ board : Board δ, board.deserialize it = some (board, false)) :
    RefusedAtOnce it := by
  induction length : it.length using Nat.strongRecOn generalizing it with
  | ind count inductionHypothesis =>
    by_cases ended : it = []
    · have accepted := unchanged (powerOn chips [])
      rw [ended, deserialize_nil] at accepted
      exact nomatch (Prod.mk.inj (Option.some.inj accepted)).2
    · cases taken : takeChunk it with
      | none =>
        have refused := unchanged (powerOn chips [])
        rw [deserialize_short _ ended taken] at refused
        exact nomatch refused
      | some chunk =>
        have shorter := length_of_takeChunk taken
        by_cases empty : chunk.size = 0
        · refine .skip taken empty (inductionHypothesis _ (by omega) chunk.begin' ?_ rfl)
          intro board
          rw [← unchanged board, deserialize_take board taken, if_pos empty]
        · cases known : ChunkId.ofSignature chunk.signature with
          | none => exact .unknown taken known empty
          | some id =>
            obtain ⟨board, other, apart⟩ := exists_not_common chips id
            have read := unchanged board
            have read' := unchanged other
            rw [deserialize_take _ taken, if_neg empty, known] at read read'
            dsimp only at read read'
            rcases restore_common board other id chunk.begin' chunk.size with
              ⟨fails, _⟩ | ⟨restored, restored', first, second, common, _⟩
            · rw [fails] at read
              exact nomatch read
            · rw [first, Option.bind_some] at read
              rw [second, Option.bind_some] at read'
              split at read
              · exact nomatch read
              · rename_i complete
                rw [if_neg complete] at read'
                exact absurd (deserialize_common id _ restored restored' common _ _ _ _ read read')
                  apart

/-- The file is read inside its bounds, and is refused without a change unless it is well-formed. -/
def ReadCleanly (board : Board δ) (it : List Byte) : Prop :=
  (board.deserialize it).isSome = true ∧
    (¬WellFormed it → board.deserialize it = some (board, false))

/-- The files that every board reads cleanly: the well-formed ones, and those that are refused at
once. -/
theorem readCleanly_iff (chips : δ) (it : List Byte) :
    (∀ board : Board δ, board.ReadCleanly it) ↔ WellFormed it ∨ RefusedAtOnce it := by
  constructor
  · intro clean
    by_cases formed : WellFormed it
    · exact Or.inl formed
    · exact Or.inr (refusedAtOnce_of_unchanged chips it fun board => (clean board).2 formed)
  · rintro (formed | refused) board
    · exact ⟨deserialize_of_wellFormed formed board, fun malformed => absurd formed malformed⟩
    · have outcome := deserialize_of_refusedAtOnce refused board
      refine ⟨?_, fun _ => outcome⟩
      rw [outcome]
      rfl

/-- The chunk of the interrupt lines, all set, before the header of an unknown chunk. -/
def linesFile : List Byte := insertChunk .board [1, 1, 1] ++ [0, 0, 0, 0, 1, 0, 0, 0]

/-- A header that is cut off is read past the end, and a chunk before an unknown one is restored
although the file is refused. -/
theorem truncated_read_outside :
    ¬(powerOn () []).ReadCleanly [0xca] ∧ ¬(powerOn () []).ReadCleanly linesFile := by
  constructor
  · intro clean
    have outcome := deserialize_short (powerOn () []) (List.cons_ne_nil 0xca []) rfl
    have read := clean.1
    rw [outcome] at read
    exact nomatch read
  · have first : takeChunk linesFile =
        some
          { signature := 0xfecababe, size := 3,
            begin' := [1, 1, 1, 0, 0, 0, 0, 1, 0, 0, 0] } := by
      decide
    have second : takeChunk [0, 0, 0, 0, 1, 0, 0, 0] =
        some { signature := 0, size := 1, begin' := [] } := by decide
    have malformed : ¬WellFormed linesFile := by
      intro formed
      cases formed with
      | chunk taken id known complete enough later =>
        obtain rfl := Option.some.inj (first.symm.trans taken)
        cases later with
        | chunk taken' id' known' =>
          obtain rfl := Option.some.inj (second.symm.trans taken')
          exact nomatch known'
    intro clean
    have outcome := clean.2 malformed
    rw [deserialize_take _ first, if_neg (by decide)] at outcome
    dsimp only at outcome
    have restored : (powerOn () []).restore .board [1, 1, 1, 0, 0, 0, 0, 1, 0, 0, 0] 3 =
        some { powerOn () [] with
          machine := { (powerOn () []).machine with inte := true, irq := true }
          irqCarry := true } := rfl
    have known : ChunkId.ofSignature 0xfecababe = some .board := by decide
    rw [known] at outcome
    dsimp only at outcome
    rw [restored, Option.bind_some, if_neg (by decide)] at outcome
    have left : [1, 1, 1, 0, 0, 0, 0, 1, 0, 0, 0].drop 3 = ([0, 0, 0, 0, 1, 0, 0, 0] : List Byte) :=
      rfl
    rw [left, deserialize_take _ second, if_neg (by decide)] at outcome
    have carried := congrArg (fun read => read.map fun pair => pair.1.irqCarry) outcome
    exact absurd carried (by decide)

end Board

end VectorDebugger
