import VectorDebugger.Debugger.GdbServer

/-!
# What the remote debugger may ask

A packet that was cut out is answered when its numbers are there and small enough: the handlers
catch a field that is no number, but neither one that is missing nor one that is too large, and
the length of a request decides whether the reply fits. Together with the shape of a packet this
tells for all bytes of one read whether they are answered.
-/

namespace VectorDebugger

namespace Gdb

/-! ### The numbers -/

/-- The body ends with an answer that fits, or in the exception that the handlers catch. -/
def Answered {σ : Type} (body : Except Fault (Session σ × Text)) : Prop :=
  body = .error .invalidArgument ∨ ∃ after text, body = .ok (after, text) ∧ text.length ≤ 4090

section Answers

variable {σ : Type} {session : Session σ}

theorem answered_ok (after : Session σ) (text : Text) :
    Answered (.ok (after, text)) ↔ text.length ≤ 4090 := by
  constructor
  · rintro (wrong | ⟨_, _, same, fits⟩)
    · cases wrong
    · cases same
      exact fits
  · intro fits
    exact .inr ⟨after, text, rfl, fits⟩

theorem answered_fault {fault : Fault} (uncaught : fault ≠ .invalidArgument) :
    ¬Answered (.error fault : Except Fault (Session σ × Text)) := by
  rintro (same | ⟨_, _, wrong, _⟩)
  · cases same
    exact uncaught rfl
  · cases wrong

/-- After the `catch` there is an answer in both cases. -/
theorem catchInvalid_iff (body : Except Fault (Session σ × Text)) :
    (∃ after text, catchInvalid session body = .ok (after, text) ∧ text.length ≤ 4090) ↔
      Answered body := by
  cases body with
  | ok answer => exact ⟨.inr, fun answered => by
      obtain wrong | fits := answered
      · cases wrong
      · exact fits⟩
  | error fault =>
    cases fault with
    | invalidArgument => exact ⟨fun _ => .inl rfl, fun _ => ⟨session, stdError, rfl, by decide⟩⟩
    | _ =>
      constructor
      · rintro ⟨_, _, wrong, _⟩
        cases wrong
      · intro answered
        exact absurd answered (answered_fault (fun same => by cases same))

/-- The next field is there, and it is no number or one that fits. -/
theorem answered_field (parts : List Text) (k : Nat) (base : Base)
    (body : BitVec 32 → Except Fault (Session σ × Text)) :
    Answered (at' parts k >>= fun part => stoul base part >>= body) ↔
      ∃ part, parts[k]? = some part ∧ (stoul base part = .error .invalidArgument ∨
        ∃ value, stoul base part = .ok value ∧ Answered (body value)) := by
  unfold at'
  cases field : parts[k]? with
  | none =>
    constructor
    · intro answered
      exact absurd answered (answered_fault (fun same => by cases same))
    · rintro ⟨_, wrong, _⟩
      cases wrong
  | some part =>
    change Answered (stoul base part >>= body) ↔ _
    cases number : stoul base part with
    | ok value =>
      change Answered (body value) ↔ _
      constructor
      · intro answered
        exact ⟨part, rfl, .inr ⟨value, number, answered⟩⟩
      · rintro ⟨_, same, wrong | ⟨other, found, answered⟩⟩
        · cases same
          rw [number] at wrong
          cases wrong
        · cases same
          rw [number] at found
          cases found
          exact answered
    | error fault =>
      change Answered (.error fault) ↔ _
      constructor
      · rintro (same | ⟨_, _, wrong, _⟩)
        · cases same
          exact ⟨part, rfl, .inl number⟩
        · cases wrong
      · rintro ⟨_, same, caught | ⟨_, found, _⟩⟩
        · cases same
          rw [number] at caught
          cases caught
          exact .inl rfl
        · cases same
          rw [number] at found
          cases found

/-- A chain of two numbers is answered when the fields are there and what follows is answered for
the numbers. -/
theorem pair_iff (parts : List Text) (Rest : BitVec 32 → BitVec 32 → Prop) :
    (∃ one, parts[0]? = some one ∧ (stoul .hexadecimal one = .error .invalidArgument ∨
      ∃ first, stoul .hexadecimal one = .ok first ∧
        ∃ two, parts[1]? = some two ∧ (stoul .hexadecimal two = .error .invalidArgument ∨
          ∃ second, stoul .hexadecimal two = .ok second ∧ Rest first second))) ↔
      Numbers [.hexadecimal, .hexadecimal] parts ∧
        ∀ first second, Pair parts first second → Rest first second := by
  constructor
  · rintro ⟨one, here, caught | ⟨first, found, two, there, caught | ⟨second, found', rest⟩⟩⟩
    · cases parts with
      | nil => cases here
      | cons head parts =>
        cases here
        refine ⟨.inl caught, ?_⟩
        rintro _ _ ⟨_, _, _, same, wrong, _⟩
        cases same
        rw [caught] at wrong
        cases wrong
    · match parts, here, there with
      | [], here, _ => cases here
      | [_], _, there => cases there
      | _ :: _ :: _, here, there =>
        cases here
        cases there
        refine ⟨.inr ⟨⟨first, found⟩, .inl caught⟩, ?_⟩
        rintro _ _ ⟨_, _, _, same, _, wrong⟩
        cases same
        rw [caught] at wrong
        cases wrong
    · match parts, here, there with
      | [], here, _ => cases here
      | [_], _, there => cases there
      | _ :: _ :: _, here, there =>
        cases here
        cases there
        refine ⟨.inr ⟨⟨first, found⟩, .inr ⟨⟨second, found'⟩, trivial⟩⟩, ?_⟩
        rintro _ _ ⟨_, _, _, same, number, number'⟩
        cases same
        rw [found] at number
        rw [found'] at number'
        cases number
        cases number'
        exact rest
  · rintro ⟨numbers, rest⟩
    match parts, numbers with
    | one :: parts, .inl caught => exact ⟨one, rfl, .inl caught⟩
    | [_], .inr ⟨_, wrong⟩ => cases wrong
    | one :: two :: parts, .inr ⟨⟨first, found⟩, .inl caught⟩ =>
      exact ⟨one, rfl, .inr ⟨first, found, two, rfl, .inl caught⟩⟩
    | one :: two :: parts, .inr ⟨⟨first, found⟩, .inr ⟨⟨second, found'⟩, _⟩⟩ =>
      exact ⟨one, rfl, .inr ⟨first, found, two, rfl, .inr ⟨second, found',
        rest first second ⟨one, two, parts, rfl, found, found'⟩⟩⟩⟩

/-- A chain of three numbers is answered when the fields are there. -/
theorem triple_iff (parts : List Text) :
    (∃ one, parts[0]? = some one ∧ (stoul .decimal one = .error .invalidArgument ∨
      ∃ first, stoul .decimal one = .ok first ∧
        ∃ two, parts[1]? = some two ∧ (stoul .hexadecimal two = .error .invalidArgument ∨
          ∃ second, stoul .hexadecimal two = .ok second ∧
            ∃ three, parts[2]? = some three ∧ (stoul .decimal three = .error .invalidArgument ∨
              ∃ third, stoul .decimal three = .ok third)))) ↔
      Numbers [.decimal, .hexadecimal, .decimal] parts := by
  constructor
  · rintro ⟨one, here, caught | ⟨first, found, two, there, caught |
      ⟨second, found', three, last, caught | ⟨third, found''⟩⟩⟩⟩
    · cases parts with
      | nil => cases here
      | cons head parts =>
        cases here
        exact .inl caught
    · match parts, here, there with
      | [], here, _ => cases here
      | [_], _, there => cases there
      | _ :: _ :: _, here, there =>
        cases here
        cases there
        exact .inr ⟨⟨first, found⟩, .inl caught⟩
    · match parts, here, there, last with
      | [], here, _, _ => cases here
      | [_], _, there, _ => cases there
      | [_, _], _, _, last => cases last
      | _ :: _ :: _ :: _, here, there, last =>
        cases here
        cases there
        cases last
        exact .inr ⟨⟨first, found⟩, .inr ⟨⟨second, found'⟩, .inl caught⟩⟩
    · match parts, here, there, last with
      | [], here, _, _ => cases here
      | [_], _, there, _ => cases there
      | [_, _], _, _, last => cases last
      | _ :: _ :: _ :: _, here, there, last =>
        cases here
        cases there
        cases last
        exact .inr ⟨⟨first, found⟩, .inr ⟨⟨second, found'⟩, .inr ⟨⟨third, found''⟩, trivial⟩⟩⟩
  · intro numbers
    match parts, numbers with
    | one :: parts, .inl caught => exact ⟨one, rfl, .inl caught⟩
    | [_], .inr ⟨_, wrong⟩ => cases wrong
    | one :: two :: parts, .inr ⟨⟨first, found⟩, .inl caught⟩ =>
      exact ⟨one, rfl, .inr ⟨first, found, two, rfl, .inl caught⟩⟩
    | [_, _], .inr ⟨_, .inr ⟨_, wrong⟩⟩ => cases wrong
    | one :: two :: three :: parts, .inr ⟨⟨first, found⟩, .inr ⟨⟨second, found'⟩, .inl caught⟩⟩ =>
      exact ⟨one, rfl, .inr ⟨first, found, two, rfl, .inr ⟨second, found', three, rfl,
        .inl caught⟩⟩⟩
    | one :: two :: three :: parts,
        .inr ⟨⟨first, found⟩, .inr ⟨⟨second, found'⟩, .inr ⟨⟨third, found''⟩, _⟩⟩⟩ =>
      exact ⟨one, rfl, .inr ⟨first, found, two, rfl, .inr ⟨second, found', three, rfl,
        .inr ⟨third, found''⟩⟩⟩⟩

/-! ### The handlers -/

variable (target : Target σ)

theorem hexByte_length (b : Byte) : (hexByte b).length = 2 := by
  unfold hexByte lowerText
  rw [List.length_map, fmtHex_length]

theorem readLoop_length (count : Nat) : ∀ (addr : BitVec 32) (board : σ),
    (readLoop target count addr board).2.length = 2 * count := by
  induction count with
  | zero => exact fun _ _ => rfl
  | succ count inductionHypothesis =>
    intro addr board
    unfold readLoop
    dsimp only
    rw [List.length_append, hexByte_length, inductionHypothesis]
    omega

/-- Memory is read without a fault and the reply fits for one to 2045 bytes that end below
`2^31`. -/
theorem answered_readMemoryOf (addr len : BitVec 32) :
    Answered (readMemoryOf target addr len session.board >>= fun read =>
      .ok ({ session with board := read.1 }, read.2)) ↔
      1 ≤ len.toInt ∧ len.toInt ≤ 2045 ∧ addr.toInt + len.toInt < 2 ^ 31 := by
  unfold readMemoryOf
  by_cases wild : len.toInt ≤ 0 ∨ 2 ^ 31 ≤ len.toInt * 2 + 1 ∨ 2 ^ 31 ≤ addr.toInt + len.toInt
  · rw [if_pos wild]
    constructor
    · intro answered
      exact absurd answered (answered_fault (fun same => by cases same))
    · omega
  · rw [if_neg wild]
    change Answered (.ok (_, (readLoop target len.toInt.toNat addr session.board).2)) ↔ _
    rw [answered_ok, readLoop_length]
    omega

theorem readMemory_iff (params : Text) :
    (∃ after text, readMemory target session params = .ok (after, text) ∧ text.length ≤ 4090) ↔
      Readable (params.splitOnP (· == 0x2c)) := by
  unfold readMemory Readable
  dsimp only
  rw [catchInvalid_iff, answered_field]
  simp only [answered_field, answered_readMemoryOf]
  exact pair_iff _ _

theorem hexValue_lt {c : Byte} {digit : Nat} (found : hexValue c = some digit) : digit < 16 := by
  unfold hexValue at found
  split at found
  · rename_i inside
    have upto : c.toNat ≤ 0x39 := inside.2
    cases found
    omega
  · split at found
    · rename_i inside
      have upto : c.toNat ≤ 0x46 := inside.2
      cases found
      omega
    · split at found
      · rename_i inside
        have upto : c.toNat ≤ 0x66 := inside.2
        cases found
        omega
      · cases found

theorem scanDigits_lt (s : Text) : ∀ (value : Nat) (given : Bool) {result : Nat},
    scanDigits value given s = some result → result < (value + 1) * 16 ^ s.length := by
  induction s with
  | nil =>
    intro value given result found
    unfold scanDigits at found
    split at found
    · cases found
      rw [List.length_nil, Nat.pow_zero]
      omega
    · cases found
  | cons c s inductionHypothesis =>
    intro value given result found
    have positive : 0 < 16 ^ s.length := Nat.pow_pos (by decide)
    have size : 16 ^ (c :: s).length = 16 * 16 ^ s.length := by
      rw [List.length_cons, Nat.pow_succ, Nat.mul_comm]
    rw [size]
    unfold scanDigits at found
    cases digit : hexValue c with
    | none =>
      rw [digit] at found
      dsimp only at found
      split at found
      · cases found
        nlinarith
      · cases found
    | some d =>
      rw [digit] at found
      have below := hexValue_lt digit
      have rest := inductionHypothesis _ _ found
      nlinarith

/-- Two digits are no number, or one that fits. -/
theorem stoul_pair (high low : Byte) : stoul .hexadecimal [high, low] = .error .invalidArgument ∨
    ∃ value, stoul .hexadecimal [high, low] = .ok value := by
  unfold stoul
  dsimp only
  have shorter := (@List.dropWhile_suffix _ [high, low] isSpace).length_le
  generalize [high, low].dropWhile isSpace = solid at shorter ⊢
  have digitsShort : (if (solid.head? == some 0x2d || solid.head? == some 0x2b) = true
      then solid.tail else solid).length ≤ 2 := by
    split
    · rw [List.length_tail]
      exact (Nat.sub_le _ _).trans shorter
    · exact shorter
  generalize (if (solid.head? == some 0x2d || solid.head? == some 0x2b) = true
    then solid.tail else solid) = digits at digitsShort ⊢
  cases number : scanNumber .hexadecimal digits with
  | none => exact .inl rfl
  | some value =>
    have bound : value < 2 ^ 64 := by
      have scanned : scanDigits 0 (digits.head? == some 0x30) (skipPrefix digits) = some value :=
        number
      have cut : (skipPrefix digits).length ≤ 2 := by
        unfold skipPrefix
        split
        · split
          · rename_i rest _
            rw [List.length_cons, List.length_cons] at digitsShort
            omega
          · exact digitsShort
        · exact digitsShort
      have small := scanDigits_lt _ _ _ scanned
      have power : 16 ^ (skipPrefix digits).length ≤ 16 ^ 2 := Nat.pow_le_pow_right (by decide) cut
      omega
    dsimp only
    rw [if_neg (by omega)]
    exact .inr ⟨_, rfl⟩

/-- The loop runs into no address that is not an `int`. -/
theorem writeLoop_iff (addr : BitVec 32) (count : Nat) : ∀ (i : Nat) (text : Text)
    (session : Session σ), addr.toInt + i ≤ 2 ^ 31 →
      (Answered (writeLoop target addr count i text session) ↔
        addr.toInt + i + min count (goodPairs text) ≤ 2 ^ 31) := by
  have ok : ∀ session : Session σ, Answered (.ok (session, stdOk)) := fun session =>
    (answered_ok session stdOk).mpr (by decide)
  induction count with
  | zero =>
    intro i text session below
    unfold writeLoop
    rw [Nat.zero_min]
    exact ⟨fun _ => by omega, fun _ => ok session⟩
  | succ count inductionHypothesis =>
    intro i text session below
    match text with
    | [] => exact ⟨fun _ => by unfold goodPairs; omega, fun _ => ok session⟩
    | [_] => exact ⟨fun _ => by unfold goodPairs; omega, fun _ => ok session⟩
    | high :: low :: rest =>
      unfold writeLoop goodPairs
      obtain caught | ⟨value, number⟩ := stoul_pair high low
      · rw [caught]
        dsimp only
        exact ⟨fun _ => by omega, fun _ => (answered_ok session stdError).mpr (by decide)⟩
      · rw [number]
        dsimp only
        by_cases beyond : 2 ^ 31 ≤ addr.toInt + i
        · rw [if_pos beyond]
          constructor
          · intro answered
            exact absurd answered (answered_fault (fun same => by cases same))
          · intro fits
            omega
        · rw [if_neg beyond, inductionHypothesis (i + 1) rest _ (by omega)]
          omega

theorem writeMemory_iff (params : Text) :
    (∃ after text, writeMemory target session params = .ok (after, text) ∧ text.length ≤ 4090) ↔
      Writable (params.splitOnP fun c => c == 0x2c || c == 0x3a) := by
  unfold writeMemory Writable
  dsimp only
  rw [catchInvalid_iff, answered_field]
  simp only [answered_field]
  generalize params.splitOnP (fun c => c == 0x2c || c == 0x3a) = parts
  have data : ∀ addr len : BitVec 32,
      Answered (if 0 < len.toInt then at' parts 2 >>= fun third =>
          writeLoop target addr len.toInt.toNat 0 (third.takeWhile (· ≠ 0)) session
        else .ok (session, stdOk)) ↔ (0 < len.toInt → ∃ third, parts[2]? = some third ∧
          addr.toInt + min len.toInt.toNat (goodPairs (third.takeWhile (· ≠ 0))) ≤ 2 ^ 31) := by
    intro addr len
    have start : addr.toInt + (0 : Nat) ≤ 2 ^ 31 := by
      have below := @BitVec.toInt_lt 32 addr
      omega
    by_cases positive : 0 < len.toInt
    · rw [if_pos positive]
      unfold at'
      cases third : parts[2]? with
      | none =>
        constructor
        · intro answered
          exact absurd answered (answered_fault (fun same => by cases same))
        · intro enough
          obtain ⟨_, wrong, _⟩ := enough positive
          cases wrong
      | some part =>
        have loop := writeLoop_iff target addr len.toInt.toNat 0 (part.takeWhile (· ≠ 0)) session
          start
        constructor
        · intro answered _
          refine ⟨part, rfl, ?_⟩
          have fits := loop.mp answered
          omega
        · intro enough
          obtain ⟨_, same, fits⟩ := enough positive
          cases same
          apply loop.mpr
          omega
    · rw [if_neg positive]
      exact ⟨fun _ wrong => absurd wrong positive,
        fun _ => (answered_ok session stdOk).mpr (by decide)⟩
  simp only [data]
  exact pair_iff _ _

theorem changeBreakpoint_iff (change : σ → BitVec 32 → BitVec 32 → BitVec 32 → σ)
    (params : Text) :
    (∃ after text, changeBreakpoint change session params = .ok (after, text) ∧
        text.length ≤ 4090) ↔
      Numbers [.decimal, .hexadecimal, .decimal] (params.splitOnP (· == 0x2c)) := by
  unfold changeBreakpoint
  dsimp only
  rw [catchInvalid_iff, answered_field]
  simp only [answered_field]
  have known : ∀ type addr kind : BitVec 32,
      Answered (if knownType type = true then
          .ok ({ session with board := change session.board type addr kind }, stdOk)
        else .ok (session, [])) ↔ True := by
    intro type addr kind
    split
    · exact ⟨fun _ => trivial, fun _ => (answered_ok _ stdOk).mpr (by decide)⟩
    · exact ⟨fun _ => trivial, fun _ => (answered_ok session []).mpr (by decide)⟩
  simp only [known, and_true]
  exact triple_iff _

theorem readRegisters_length (cpu : I8080) : (readRegisters cpu).length = 52 := by
  unfold readRegisters
  simp only [List.length_append, hexByte_length]
  rfl

theorem generalResponse_length (params : Text) : (generalResponse params).length ≤ 4090 := by
  unfold generalResponse
  split
  · decide
  · split
    · decide
    · split
      · decide
      · split
        · decide
        · decide

/-- A command is answered without a fault, in a text that leaves room for its frame. -/
theorem response_iff (packet : GdbPacket) :
    (∃ after text, response target session packet = .ok (after, text) ∧ text.length ≤ 4090) ↔
      Answerable packet.command packet.params := by
  have plain : ∀ (after : Session σ) (text : Text), text.length ≤ 4090 →
      ((∃ after' text', (Except.ok (after, text) : Except Fault (Session σ × Text)) =
        .ok (after', text') ∧ text'.length ≤ 4090) ↔ True) :=
    fun after text fits => ⟨fun _ => trivial, fun _ => ⟨after, text, rfl, fits⟩⟩
  have choose : ∀ {p : Prop} [Decidable p] {one other : Except Fault (Session σ × Text)},
      ((∃ after text, one = .ok (after, text) ∧ text.length ≤ 4090) ↔ True) →
      ((∃ after text, other = .ok (after, text) ∧ text.length ≤ 4090) ↔ True) →
      ((∃ after text, (if p then one else other) = .ok (after, text) ∧ text.length ≤ 4090) ↔
        True) := by
    intro p _ one other first second
    split
    · exact first
    · exact second
  unfold response Answerable
  obtain ⟨command, params, crc⟩ := packet
  dsimp only
  by_cases write : command = 0x47
  · rw [write]
    simp only [↓reduceIte]
    constructor
    · rintro ⟨_, _, wrong, _⟩
      cases wrong
    · exact False.elim
  · rw [if_neg write, if_neg write]
    by_cases read : command = 0x6d
    · rw [read]
      exact readMemory_iff target params
    · rw [if_neg read, if_neg read]
      by_cases store : command = 0x4d
      · rw [store]
        exact writeMemory_iff target params
      · rw [if_neg store, if_neg store]
        by_cases insert : command = 0x5a
        · rw [insert]
          exact changeBreakpoint_iff _ params
        · rw [if_neg insert]
          by_cases remove : command = 0x7a
          · rw [remove]
            exact changeBreakpoint_iff _ params
          · rw [if_neg remove, if_neg (not_or.mpr ⟨insert, remove⟩)]
            have registers := (readRegisters_length (target.cpu session.board)).trans_le
              (by decide : 52 ≤ 4090)
            have general := generalResponse_length params
            exact choose (plain _ _ (by decide)) (choose (plain _ _ (by decide))
              (choose (plain _ _ (by decide)) (choose (plain _ _ general)
                (choose (plain _ _ (by decide)) (choose (plain _ _ (by decide))
                  (choose (plain _ _ registers) (choose (plain _ _ (by decide))
                    (choose (plain _ _ (by decide)) (plain _ _ (by decide))))))))))

theorem framed_length (text : Text) : (framed text).length + 1 ≤ maxLength ↔
    text.length ≤ 4090 := by
  unfold framed maxLength calcCrc
  by_cases ignored : text = stdIgnore
  · rw [if_pos ignored, ignored]
    decide
  · rw [if_neg ignored]
    simp only [List.length_append, hexByte_length]
    have opening : (ascii "+$").length = 2 := by decide
    have closing : (ascii "#").length = 1 := by decide
    omega

/-- For every board and all bytes of one read: they are answered without a fault in a reply that
fits into the buffer exactly if they hold a well formed packet. -/
theorem handled_iff (data : Text) : Handled target session data ↔ WellFormed data := by
  have answered (packet : GdbPacket) : (∃ after reply,
      formatResponse target session packet = .ok (after, reply) ∧
        reply.length + 1 ≤ maxLength) ↔ Answerable packet.command packet.params := by
    rw [← @response_iff σ session target packet]
    unfold formatResponse
    constructor
    · rintro ⟨after, reply, answers, fits⟩
      cases body : response target session packet with
      | error fault =>
        rw [body] at answers
        cases answers
      | ok answer =>
        rw [body] at answers
        cases answers
        exact ⟨answer.1, answer.2, rfl, (framed_length answer.2).mp fits⟩
    · rintro ⟨after, text, body, fits⟩
      rw [body]
      exact ⟨after, framed text, rfl, (framed_length text).mpr fits⟩
  unfold Handled handleRead WellFormed
  constructor
  · rintro ⟨after, reply, answers, fits⟩
    cases made : GdbPacket.make data with
    | error fault =>
      rw [made] at answers
      cases answers
    | ok packet =>
      rw [made] at answers
      obtain ⟨lead, rest, whole, all, plain, notHash, free, enough, _⟩ := make_iff.mp made
      exact ⟨lead, packet.command, packet.params, rest, whole, all, plain, notHash, free, enough,
        (answered packet).mp ⟨after, reply, answers, fits⟩⟩
  · rintro ⟨lead, command, params, rest, whole, all, plain, notHash, free, enough, answerable⟩
    have made : GdbPacket.make data = .ok ⟨command, params, rest.take 2⟩ :=
      make_iff.mpr ⟨lead, rest, whole, all, plain, notHash, free, enough, rfl⟩
    rw [made]
    exact (answered ⟨command, params, rest.take 2⟩).mpr answerable

end Answers

/-- A board without memory, of which nothing is asked. -/
def still : Target Unit where
  debuggerBreak := id
  debuggerContinue := id
  debuggerDetached := id
  singleStep := id
  cpu := fun _ =>
    { flags := { carry := false, parity := false, halfCarry := false, zero := false, sign := false }
      a := 0, f := 0, b := 0, c := 0, d := 0, e := 0, h := 0, l := 0, sp := 0, pc := 0
      iff := false, eiPending := 0, cpuCycles := 0 }
  readByte := fun board _ => (0, board)
  writeMemoryByte := fun board _ _ => board
  insertBreakpoint := fun board _ _ _ => board
  removeBreakpoint := fun board _ _ _ => board

theorem not_handled_of_fault {session : Session Unit} {data : Text} {fault : Fault}
    (failed : (handleRead still session data).map (·.2) = .error fault) :
    ¬Handled still session data := by
  rintro ⟨after, reply, answers, _⟩
  rw [answers] at failed
  cases failed

/-- What is received fits the buffer and is not handled. -/
def Mishandled (data : List Byte) : Prop :=
  0 < data.length ∧ data.length ≤ maxLength ∧ ¬Handled still ⟨(), false⟩ data

/-- A request for 2046 bytes is answered in a text that leaves no room for its frame. -/
theorem not_handled_long : ¬Handled still ⟨(), false⟩ (ascii "$m0,7fe#2f") := by
  rintro ⟨after, reply, answers, fits⟩
  have made : GdbPacket.make (ascii "$m0,7fe#2f") =
      .ok ⟨0x6d, ascii "0,7fe", ascii "2f"⟩ := rfl
  have parts : (ascii "0,7fe").splitOnP (· == 0x2c) = [ascii "0", ascii "7fe"] := by
    decide
  have formatted : formatResponse still ⟨(), false⟩ ⟨0x6d, ascii "0,7fe", ascii "2f"⟩ =
      .ok (after, reply) := by
    rw [← answers]
    unfold handleRead
    rw [made]
    rfl
  unfold formatResponse at formatted
  cases body : response still ⟨(), false⟩ ⟨0x6d, ascii "0,7fe", ascii "2f"⟩ with
  | error fault =>
    rw [body] at formatted
    cases formatted
  | ok answer =>
    rw [body] at formatted
    obtain ⟨-, rfl⟩ := Prod.mk.inj (Except.ok.inj formatted)
    have readable : Readable ((ascii "0,7fe").splitOnP (· == 0x2c)) :=
      (response_iff still ⟨0x6d, ascii "0,7fe", ascii "2f"⟩).mp
        ⟨_, _, body, (framed_length _).mp fits⟩
    rw [parts] at readable
    exact absurd (readable.2 0 2046 ⟨_, _, [], rfl, rfl, rfl⟩).2.1 (by decide)

/-- The byte that `gdb` sends to interrupt the program and the acknowledgement of a reply are read
past their end; an empty packet and requests for memory without a length and with a number of 17
digits end in exceptions; the reply to a request for 2046 bytes does not fit. -/
theorem not_handled_interrupt :
    Mishandled [0x03] ∧ Mishandled (ascii "+") ∧ Mishandled (ascii "$#00") ∧
      Mishandled (ascii "$m0#9d") ∧ Mishandled (ascii "$m10000000000000000,1#9b") ∧
      Mishandled (ascii "$m0,7fe#2f") := by
  refine ⟨⟨by decide, by decide, @not_handled_of_fault _ _ .outside rfl⟩,
    ⟨by decide, by decide, @not_handled_of_fault _ _ .outside rfl⟩,
    ⟨by decide, by decide, @not_handled_of_fault _ _ .lengthError rfl⟩,
    ⟨by decide, by decide, @not_handled_of_fault _ _ .outOfRange (by decide)⟩,
    ⟨by decide, by decide, @not_handled_of_fault _ _ .outOfRange (by decide)⟩,
    ⟨by decide, by decide, not_handled_long⟩⟩

end Gdb

end VectorDebugger
