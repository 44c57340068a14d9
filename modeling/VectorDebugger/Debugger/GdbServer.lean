import VectorDebugger.Debugger.Spelling
import VectorDebugger.Machine.Cpu

/-!
# The server for the remote debugger

`GdbPacket` cuts a packet out of the bytes of one read, and `format_response` answers it in the same
buffer. Both trust the sender. A byte that is read outside the received ones, an exception that
nobody catches and undefined behaviour are faults here; what a packet has to look like to be
answered without a fault, in a reply that fits, is said of its bytes.
-/

namespace VectorDebugger

namespace Gdb

/-- What can go wrong. -/
inductive Fault
  /-- A byte outside the received data is read. -/
  | outside
  /-- `std::length_error`. -/
  | lengthError
  /-- `std::out_of_range`. -/
  | outOfRange
  /-- `std::invalid_argument`. -/
  | invalidArgument
  /-- Undefined behaviour of the language. -/
  | undefined
deriving DecidableEq, Repr

/-! ### Cutting a packet out -/

/-- `$` and `+`, which are skipped. -/
def isLead (c : Byte) : Bool := c == 0x24 || c == 0x2b

/-- The first loop of `GdbPacket`, on the bytes that are left. It looks at a byte before it tests
whether there is one, so that the test for the end of the data is never reached in time. -/
def skipLead : Text → Except Fault Text
  | [] => .error .outside
  | c :: rest => if isLead c then skipLead rest else .ok (c :: rest)

/-- The second loop: the bytes before `#` and those after it. -/
def untilHash : Text → Except Fault (Text × Text)
  | [] => .error .outside
  | c :: rest =>
    if c = 0x23 then .ok ([], rest)
    else (untilHash rest).map fun parts => (c :: parts.1, parts.2)

/-- `GdbPacket`. -/
structure GdbPacket where
  /-- `command`. -/
  command : Byte
  /-- `params`. -/
  params : Text
  /-- `crc`. -/
  crc : Text
deriving DecidableEq, Repr

/-- The constructor of `GdbPacket`. Without a byte before `#`, `plen - 1` is the largest size. -/
def GdbPacket.make (data : Text) : Except Fault GdbPacket := do
  let rest ← skipLead data
  let parts ← untilHash rest
  match parts.1 with
  | [] => .error .lengthError
  | command :: params =>
    if parts.2.length < 2 then .error .outside
    else .ok { command, params, crc := parts.2.take 2 }

/-- The format `%02x`. -/
def hexByte (b : Byte) : Text := lowerText (Disassembler.fmtHex b.toNat 2)

/-- `GdbPacket::calc_crc`. -/
def calcCrc (s : Text) : Text := hexByte (s.foldl (fun crc c => crc + c) 0)

/-! ### Numbers in a packet -/

/-- The base of a number. -/
inductive Base
  | decimal | hexadecimal
deriving DecidableEq, Repr

/-- The decimal digits at the front of a text. -/
def scanDecimal : Nat → Bool → Text → Option Nat
  | value, given, [] => if given then some value else none
  | value, given, c :: rest =>
    if 0x30 ≤ c ∧ c ≤ 0x39 then scanDecimal (10 * value + (c.toNat - 0x30)) true rest
    else if given then some value else none

/-- The digits of `strtoul` in a base. -/
def scanNumber : Base → Text → Option Nat
  | .decimal, text => scanDecimal 0 false text
  | .hexadecimal, text => scanUnsigned text

/-- `std::stoul`, to the 32 bits that an `int` keeps. -/
def stoul (base : Base) (text : Text) : Except Fault (BitVec 32) :=
  let solid := text.dropWhile isSpace
  let negative := solid.head? == some 0x2d
  let digits := if negative || solid.head? == some 0x2b then solid.tail else solid
  match scanNumber base digits with
  | none => .error .invalidArgument
  | some value =>
    if 2 ^ 64 ≤ value then .error .outOfRange
    else .ok (if negative then -BitVec.ofNat 32 value else BitVec.ofNat 32 value)

/-- `parts.at`. -/
def at' (parts : List Text) (k : Nat) : Except Fault Text :=
  match parts[k]? with
  | none => .error .outOfRange
  | some part => .ok part

/-! ### Answers -/

/-- `STD_OK`. -/
def stdOk : Text := ascii "OK"

/-- `STD_INTERRUPT`. -/
def stdInterrupt : Text := ascii "T05"

/-- `STD_ERROR`. -/
def stdError : Text := ascii "E00"

/-- `STD_IGNORE`. -/
def stdIgnore : Text := ascii "------------------"

/-- What the session asks of the board; what these functions do to the machine is modelled with
it. -/
structure Target (σ : Type) where
  /-- `debugger_break`. -/
  debuggerBreak : σ → σ
  /-- `debugger_continue`. -/
  debuggerContinue : σ → σ
  /-- `debugger_detached`. -/
  debuggerDetached : σ → σ
  /-- `single_step(true)`. -/
  singleStep : σ → σ
  /-- The registers. -/
  cpu : σ → I8080
  /-- `memory.read(addr, false)`, with its listener. -/
  readByte : σ → BitVec 32 → Byte × σ
  /-- `write_memory_byte`. -/
  writeMemoryByte : σ → BitVec 32 → Byte → σ
  /-- `insert_breakpoint` for a known type. -/
  insertBreakpoint : σ → BitVec 32 → BitVec 32 → BitVec 32 → σ
  /-- `remove_breakpoint` for a known type. -/
  removeBreakpoint : σ → BitVec 32 → BitVec 32 → BitVec 32 → σ

/-- The board and `closing`. -/
structure Session (σ : Type) where
  /-- `board`. -/
  board : σ
  /-- `closing`. -/
  closing : Bool

/-- `Board::read_registers`. -/
def readRegisters (cpu : I8080) : Text :=
  hexByte cpu.a ++ hexByte cpu.f ++ hexByte cpu.c ++ hexByte cpu.b ++ hexByte cpu.e ++
    hexByte cpu.d ++ hexByte cpu.l ++ hexByte cpu.h ++ ascii "00000000" ++
    hexByte (cpu.sp.setWidth 8) ++ hexByte ((cpu.sp >>> 8).setWidth 8) ++
    ascii "00000000000000000000" ++ hexByte (cpu.pc.setWidth 8) ++
    hexByte ((cpu.pc >>> 8).setWidth 8)

section Session

variable {σ : Type} (target : Target σ)

/-- The loop of `Board::read_memory`. -/
def readLoop : Nat → BitVec 32 → σ → σ × Text
  | 0, _, board => (board, [])
  | count + 1, addr, board =>
    let read := target.readByte board addr
    let rest := readLoop count (addr + 1) read.2
    (rest.1, hexByte read.1 ++ rest.2)

/-- `Board::read_memory`. The size of its buffer and the end of its loop are `int` sums; a buffer
that nothing is written to is no string. -/
def readMemoryOf (start count : BitVec 32) (board : σ) : Except Fault (σ × Text) :=
  if count.toInt ≤ 0 ∨ 2 ^ 31 ≤ count.toInt * 2 + 1 ∨ 2 ^ 31 ≤ start.toInt + count.toInt then
    .error .undefined
  else .ok (readLoop target count.toInt.toNat start board)

/-- `catch (invalid_argument&)`; the board stays as it was. -/
def catchInvalid (session : Session σ) (body : Except Fault (Session σ × Text)) :
    Except Fault (Session σ × Text) :=
  match body with
  | .error .invalidArgument => .ok (session, stdError)
  | other => other

/-- `general_response`. -/
def generalResponse (params : Text) : Text :=
  if ascii "Supported" <+: params then ascii "PacketSize=4000"
  else if params = ascii "C" then []
  else if params = ascii "Attached" then ascii "1"
  else if params = ascii "TStatus" then []
  else stdOk

/-- `read_memory`. -/
def readMemory (session : Session σ) (params : Text) : Except Fault (Session σ × Text) :=
  let parts := params.splitOnP (· == 0x2c)
  catchInvalid session do
    let first ← at' parts 0
    let addr ← stoul .hexadecimal first
    let second ← at' parts 1
    let len ← stoul .hexadecimal second
    let read ← readMemoryOf target addr len session.board
    .ok ({ session with board := read.1 }, read.2)

/-- The loop of `write_memory`. What is written stays written when a later byte is no number; the
address of a byte is an `int` sum. -/
def writeLoop (addr : BitVec 32) :
    Nat → Nat → Text → Session σ → Except Fault (Session σ × Text)
  | count + 1, i, high :: low :: rest, session =>
    match stoul .hexadecimal [high, low] with
    | .ok bytt =>
      if 2 ^ 31 ≤ addr.toInt + i then .error .undefined
      else
        writeLoop addr count (i + 1) rest
          { session with
            board := target.writeMemoryByte session.board (addr + BitVec.ofNat 32 i)
              (bytt.setWidth 8) }
    | .error .invalidArgument => .ok (session, stdError)
    | .error fault => .error fault
  | _, _, _, session => .ok (session, stdOk)

/-- `write_memory`. -/
def writeMemory (session : Session σ) (params : Text) : Except Fault (Session σ × Text) :=
  let parts := params.splitOnP fun c => c == 0x2c || c == 0x3a
  catchInvalid session do
    let first ← at' parts 0
    let addr ← stoul .hexadecimal first
    let second ← at' parts 1
    let len ← stoul .hexadecimal second
    if 0 < len.toInt then
      let third ← at' parts 2
      writeLoop target addr len.toInt.toNat 0 (third.takeWhile (· ≠ 0)) session
    else .ok (session, stdOk)

/-- `write_registers`. The string that `get_params` returns is gone when its bytes are read. -/
def writeRegisters (_session : Session σ) (_params : Text) : Except Fault (Session σ × Text) :=
  .error .undefined

/-- The types of breakpoints that the board knows. -/
def knownType (type : BitVec 32) : Bool := type.toNat ≤ 4

/-- `insert_breakpoint` and `remove_breakpoint`, with what they do to the board. -/
def changeBreakpoint (change : σ → BitVec 32 → BitVec 32 → BitVec 32 → σ) (session : Session σ)
    (params : Text) : Except Fault (Session σ × Text) :=
  let parts := params.splitOnP (· == 0x2c)
  catchInvalid session do
    let first ← at' parts 0
    let type ← stoul .decimal first
    let second ← at' parts 1
    let addr ← stoul .hexadecimal second
    let third ← at' parts 2
    let kind ← stoul .decimal third
    if knownType type then
      .ok ({ session with board := change session.board type addr kind }, stdOk)
    else .ok (session, [])

/-- `insert_breakpoint`. -/
def insertBreakpoint (session : Session σ) (params : Text) : Except Fault (Session σ × Text) :=
  changeBreakpoint target.insertBreakpoint session params

/-- `remove_breakpoint`. -/
def removeBreakpoint (session : Session σ) (params : Text) : Except Fault (Session σ × Text) :=
  changeBreakpoint target.removeBreakpoint session params

/-- The `switch` of `format_response`. -/
def response (session : Session σ) (packet : GdbPacket) : Except Fault (Session σ × Text) :=
  if packet.command = 0 then .ok (session, stdIgnore)
  else if packet.command = 3 then
    .ok ({ session with board := target.debuggerBreak session.board }, stdInterrupt)
  else if packet.command = 0x63 then
    .ok ({ session with board := target.debuggerContinue session.board }, stdIgnore)
  else if packet.command = 0x71 then .ok (session, generalResponse packet.params)
  else if packet.command = 0x48 then .ok (session, stdOk)
  else if packet.command = 0x3f then .ok (session, ascii "S05")
  else if packet.command = 0x67 then .ok (session, readRegisters (target.cpu session.board))
  else if packet.command = 0x47 then writeRegisters session packet.params
  else if packet.command = 0x6d then readMemory target session packet.params
  else if packet.command = 0x4d then writeMemory target session packet.params
  else if packet.command = 0x5a then insertBreakpoint target session packet.params
  else if packet.command = 0x7a then removeBreakpoint target session packet.params
  else if packet.command = 0x73 then
    .ok ({ session with board := target.singleStep session.board }, ascii "T05")
  else if packet.command = 0x44 then
    .ok ({ board := target.debuggerDetached session.board, closing := true }, stdOk)
  else .ok (session, [])

/-- What `format_response` puts into the buffer. -/
def framed (response : Text) : Text :=
  if response = stdIgnore then ascii "+"
  else ascii "+$" ++ response ++ ascii "#" ++ calcCrc response

/-- `format_response`. -/
def formatResponse (session : Session σ) (packet : GdbPacket) : Except Fault (Session σ × Text) :=
  (response target session packet).map fun answer => (answer.1, framed answer.2)

/-- `handle_read`, for the bytes of one read. -/
def handleRead (session : Session σ) (data : Text) : Except Fault (Session σ × Text) := do
  let packet ← GdbPacket.make data
  formatResponse target session packet

/-- `max_length`. -/
def maxLength : Nat := 4096

/-- The bytes are answered without a fault, and the reply fits into the buffer with the zero at its
end. -/
def Handled (session : Session σ) (data : Text) : Prop :=
  ∃ after reply, handleRead target session data = .ok (after, reply) ∧
    reply.length + 1 ≤ maxLength

end Session

/-! ### What a packet has to look like -/

/-- The fields up to the first that is no number are there, and their numbers are below `2^64`. -/
def Numbers : List Base → List Text → Prop
  | [], _ => True
  | _ :: _, [] => False
  | base :: bases, part :: parts =>
    stoul base part = .error .invalidArgument ∨
      (∃ value, stoul base part = .ok value) ∧ Numbers bases parts

/-- The first two fields are these numbers. -/
def Pair (parts : List Text) (first second : BitVec 32) : Prop :=
  ∃ one two rest, parts = one :: two :: rest ∧ stoul .hexadecimal one = .ok first ∧
    stoul .hexadecimal two = .ok second

/-- A request to read memory that can be answered: the length is positive, the reply fits, and the
end is an `int`. -/
def Readable (parts : List Text) : Prop :=
  Numbers [.hexadecimal, .hexadecimal] parts ∧ ∀ addr len, Pair parts addr len →
    1 ≤ len.toInt ∧ len.toInt ≤ 2045 ∧ addr.toInt + len.toInt < 2 ^ 31

/-- How many pairs at the front of a text are numbers. -/
def goodPairs : Text → Nat
  | high :: low :: rest =>
    match stoul .hexadecimal [high, low] with
    | .ok _ => goodPairs rest + 1
    | .error _ => 0
  | _ => 0

/-- A request to write memory that can be answered: a positive length has data, and the bytes that
are written end at `2^31` at most. -/
def Writable (parts : List Text) : Prop :=
  Numbers [.hexadecimal, .hexadecimal] parts ∧ ∀ addr len, Pair parts addr len →
    0 < len.toInt → ∃ third, parts[2]? = some third ∧
      addr.toInt + min len.toInt.toNat (goodPairs (third.takeWhile (· ≠ 0))) ≤ 2 ^ 31

/-- The command and its parameters can be answered. -/
def Answerable (command : Byte) (params : Text) : Prop :=
  if command = 0x47 then False
  else if command = 0x6d then Readable (params.splitOnP (· == 0x2c))
  else if command = 0x4d then Writable (params.splitOnP fun c => c == 0x2c || c == 0x3a)
  else if command = 0x5a ∨ command = 0x7a then
    Numbers [.decimal, .hexadecimal, .decimal] (params.splitOnP (· == 0x2c))
  else True

/-- After any number of `$` and `+` the data holds a command and its parameters, `#` and two more
bytes at least, and the command can be answered. -/
def WellFormed (data : Text) : Prop :=
  ∃ lead command params rest, data = lead ++ command :: (params ++ 0x23 :: rest) ∧
    (∀ c ∈ lead, isLead c = true) ∧ isLead command = false ∧ command ≠ 0x23 ∧
    0x23 ∉ params ∧ 2 ≤ rest.length ∧ Answerable command params

/-! ### The packet -/

theorem skipLead_iff {s rest : Text} : skipLead s = .ok rest ↔
    ∃ lead, s = lead ++ rest ∧ (∀ c ∈ lead, isLead c = true) ∧
      ∃ command more, rest = command :: more ∧ isLead command = false := by
  induction s with
  | nil =>
    unfold skipLead
    constructor
    · intro wrong
      cases wrong
    · rintro ⟨lead, whole, _, command, more, rfl, _⟩
      exact absurd whole.symm (List.append_ne_nil_of_right_ne_nil _ (List.cons_ne_nil _ _))
  | cons c s inductionHypothesis =>
    unfold skipLead
    by_cases leads : isLead c = true
    · rw [if_pos leads, inductionHypothesis]
      constructor
      · rintro ⟨lead, rfl, all, command⟩
        exact ⟨c :: lead, rfl, List.forall_mem_cons.mpr ⟨leads, all⟩, command⟩
      · rintro ⟨lead, whole, all, command, more, rfl, plain⟩
        cases lead with
        | nil =>
          obtain ⟨rfl, _⟩ := List.cons.inj whole
          rw [plain] at leads
          cases leads
        | cons first lead =>
          obtain ⟨_, same⟩ := List.cons.inj whole
          exact ⟨lead, same, (List.forall_mem_cons.mp all).2, command, more, rfl, plain⟩
    · rw [if_neg leads]
      constructor
      · intro same
        cases same
        exact ⟨[], rfl, List.forall_mem_nil _, c, s, rfl, Bool.eq_false_iff.mpr leads⟩
      · rintro ⟨lead, whole, all, _⟩
        cases lead with
        | nil => rw [whole, List.nil_append]
        | cons first lead =>
          obtain ⟨rfl, _⟩ := List.cons.inj whole
          exact absurd (all c List.mem_cons_self) leads

theorem untilHash_iff {s before after : Text} : untilHash s = .ok (before, after) ↔
    s = before ++ 0x23 :: after ∧ 0x23 ∉ before := by
  induction s generalizing before with
  | nil =>
    unfold untilHash
    constructor
    · intro wrong
      cases wrong
    · rintro ⟨whole, _⟩
      exact absurd whole.symm (List.append_ne_nil_of_right_ne_nil _ (List.cons_ne_nil _ _))
  | cons c s inductionHypothesis =>
    unfold untilHash
    by_cases hash : c = 0x23
    · rw [if_pos hash]
      constructor
      · intro same
        cases same
        rw [hash]
        exact ⟨rfl, List.not_mem_nil⟩
      · rintro ⟨whole, free⟩
        cases before with
        | nil =>
          obtain ⟨_, rfl⟩ := List.cons.inj whole
          rfl
        | cons first before =>
          obtain ⟨rfl, _⟩ := List.cons.inj whole
          rw [hash] at free
          exact absurd List.mem_cons_self free
    · rw [if_neg hash]
      constructor
      · intro same
        cases found : untilHash s with
        | error fault =>
          rw [found] at same
          cases same
        | ok parts =>
          rw [found] at same
          cases same
          obtain ⟨rfl, free⟩ := inductionHypothesis.mp found
          refine ⟨rfl, ?_⟩
          intro listed
          obtain here | later := List.mem_cons.mp listed
          · exact hash here.symm
          · exact free later
      · rintro ⟨whole, free⟩
        cases before with
        | nil =>
          obtain ⟨same, _⟩ := List.cons.inj whole
          exact absurd same hash
        | cons first before =>
          obtain ⟨rfl, same⟩ := List.cons.inj whole
          have rest := inductionHypothesis.mpr
            ⟨same, fun listed => free (List.mem_cons_of_mem _ listed)⟩
          rw [rest]
          rfl

/-- The data that a packet can be cut out of. -/
theorem make_iff {data : Text} {packet : GdbPacket} : GdbPacket.make data = .ok packet ↔
    ∃ lead rest, data = lead ++ packet.command :: (packet.params ++ 0x23 :: rest) ∧
      (∀ c ∈ lead, isLead c = true) ∧ isLead packet.command = false ∧ packet.command ≠ 0x23 ∧
      0x23 ∉ packet.params ∧ 2 ≤ rest.length ∧ packet.crc = rest.take 2 := by
  unfold GdbPacket.make
  constructor
  · intro made
    cases skipped : skipLead data with
    | error fault =>
      rw [skipped] at made
      cases made
    | ok body =>
      rw [skipped] at made
      obtain ⟨lead, whole, all, command, more, start, plain⟩ := skipLead_iff.mp skipped
      cases found : untilHash body with
      | error fault =>
        change (untilHash body >>= _) = _ at made
        rw [found] at made
        cases made
      | ok parts =>
        change (untilHash body >>= _) = _ at made
        rw [found] at made
        obtain ⟨before, after⟩ := parts
        obtain ⟨split, free⟩ := untilHash_iff.mp found
        cases before with
        | nil => cases made
        | cons first params =>
          change (if after.length < 2 then _ else _) = _ at made
          by_cases short : after.length < 2
          · rw [if_pos short] at made
            cases made
          · rw [if_neg short] at made
            cases made
            rw [start] at split
            obtain ⟨rfl, _⟩ := List.cons.inj split
            refine ⟨lead, after, ?_, all, plain, ?_, ?_, by omega, rfl⟩
            · rw [whole, start, split]
              rfl
            · intro hash
              have same : command = 0x23 := hash
              rw [same] at free
              exact free List.mem_cons_self
            · intro listed
              exact free (List.mem_cons_of_mem _ listed)
  · rintro ⟨lead, rest, whole, all, plain, notHash, free, enough, crc⟩
    have skipped : skipLead data = .ok (packet.command :: (packet.params ++ 0x23 :: rest)) :=
      skipLead_iff.mpr ⟨lead, whole, all, _, _, rfl, plain⟩
    have found : untilHash (packet.command :: (packet.params ++ 0x23 :: rest)) =
        .ok (packet.command :: packet.params, rest) := by
      apply untilHash_iff.mpr
      refine ⟨rfl, ?_⟩
      intro listed
      obtain here | later := List.mem_cons.mp listed
      · exact notHash here.symm
      · exact free later
    rw [skipped]
    change (untilHash _ >>= _) = _
    rw [found]
    change (if rest.length < 2 then _ else _) = _
    rw [if_neg (by omega), ← crc]

end Gdb

end VectorDebugger
