import Mathlib.Data.List.Induction
import Mathlib.Data.List.TakeWhile
import Mathlib.Data.Nat.Bitwise
import VectorDebugger.Machine.Board

/-!
# Watchpoints

`Board` keeps its watchpoints in one list and watches through four callbacks: two of the memory
and two of the ports. Every call that changes the list clears the callbacks and installs those that
the list asks for, the first of a kind that is met. Which accesses then break, and which other
callbacks are lost, depends on the whole list and its order.
-/

namespace VectorDebugger

/-- `Watchpoint::wptype`. -/
inductive WatchType
  | write | read | access
deriving DecidableEq, Repr

/-- `Watchpoint`. -/
structure Watchpoint where
  /-- `addr`. -/
  addr : BitVec 32
  /-- `length`. -/
  length : BitVec 32
  /-- `type`. -/
  type : WatchType
deriving DecidableEq, Repr

namespace Watchpoint

/-- The range test of `check_watchpoint`; the end of the range wraps. -/
def Covers (w : Watchpoint) (addr : BitVec 32) : Prop := w.addr ≤ addr ∧ addr < w.addr + w.length

instance (w : Watchpoint) (addr : BitVec 32) : Decidable (w.Covers addr) :=
  inferInstanceAs (Decidable (_ ∧ _))

/-- A watchpoint for accesses of a kind. -/
def Kind (w : Watchpoint) (how : WatchType) : Prop := w.type = .access ∨ w.type = how

instance (w : Watchpoint) (how : WatchType) : Decidable (w.Kind how) :=
  inferInstanceAs (Decidable (_ ∨ _))

/-- `iospace`, of the start of the range. -/
def iospace (w : Watchpoint) : Bool := w.addr &&& 0x80000000 != 0

end Watchpoint

/-- What is installed in a callback: someone else's function, or one of the four checks. -/
inductive Listener
  | other (id : Nat)
  | check_wp_read
  | check_wp_write
  | check_wp_ioread
  | check_wp_iowrite
deriving DecidableEq, Repr

/-- The callbacks of memory and ports. -/
structure Listeners where
  /-- `Memory::onread`. -/
  memoryOnread : Option Listener
  /-- `Memory::onwrite`. -/
  memoryOnwrite : Option Listener
  /-- `IO::onread`. -/
  ioOnread : Option Listener
  /-- `IO::onwrite`. -/
  ioOnwrite : Option Listener
deriving DecidableEq, Repr

namespace Listeners

/-- No callback. -/
def none : Listeners :=
  { memoryOnread := .none, memoryOnwrite := .none, ioOnread := .none, ioOnwrite := .none }

/-- The first half of the loop of `refresh_watchpoint_listeners`. -/
def refreshWrite (listeners : Listeners) (w : Watchpoint) : Listeners :=
  if listeners.memoryOnwrite = .none ∧ w.Kind .write then
    if w.iospace then { listeners with ioOnwrite := some .check_wp_iowrite }
    else { listeners with memoryOnwrite := some .check_wp_write }
  else listeners

/-- The second half. The check for reads of memory goes into the callback for writes. -/
def refreshRead (listeners : Listeners) (w : Watchpoint) : Listeners :=
  if listeners.memoryOnread = .none ∧ w.Kind .read then
    if w.iospace then { listeners with ioOnread := some .check_wp_ioread }
    else { listeners with memoryOnwrite := some .check_wp_read }
  else listeners

/-- The loop of `Board::refresh_watchpoint_listeners`. -/
def refresh (watchpoints : List Watchpoint) : Listeners :=
  watchpoints.foldl (fun listeners w => (listeners.refreshWrite w).refreshRead w) none

end Listeners

/-- A byte read or written by the processor. The argument of the memory functions is not masked: it
is one past the last address for the second byte of a word at FFFFh. -/
inductive BusAccess
  | memoryRead (addr : Fin 0x10001)
  | memoryWrite (addr : Fin 0x10001)
  | ioRead (port : Byte)
  | ioWrite (port : Byte)
deriving DecidableEq, Repr

namespace BusAccess

/-- The watched address of a byte of memory. -/
def memoryAddress (addr : Nat) : BitVec 32 := BitVec.ofNat 32 addr

/-- The watched address of a port. -/
def ioAddress (port : Byte) : BitVec 32 := 0x80000000 ||| port.setWidth 32

/-- The address that is accessed. -/
def address : BusAccess → BitVec 32
  | memoryRead addr => memoryAddress (addr.val % 0x10000)
  | memoryWrite addr => memoryAddress (addr.val % 0x10000)
  | ioRead port => ioAddress port
  | ioWrite port => ioAddress port

/-- How it is accessed. -/
def how : BusAccess → WatchType
  | memoryRead _ => .read
  | memoryWrite _ => .write
  | ioRead _ => .read
  | ioWrite _ => .write

end BusAccess

/-- `Board`, as far as it watches accesses. -/
structure WatchBoard where
  /-- `memory_watchpoints`. -/
  memoryWatchpoints : List Watchpoint
  /-- The callbacks. -/
  listeners : Listeners
deriving DecidableEq, Repr

/-- A call of `insert_breakpoint` or `remove_breakpoint` with one of the types 2, 3 and 4. -/
inductive WatchCall
  | insertBreakpoint (type : WatchType) (addr kind : BitVec 32)
  | removeBreakpoint (type : WatchType) (addr kind : BitVec 32)
deriving DecidableEq, Repr

namespace WatchBoard

/-- A board without watchpoints, with the callbacks that others have installed. -/
def init (memoryOnread memoryOnwrite ioOnread ioOnwrite : Option Nat) : WatchBoard where
  memoryWatchpoints := []
  listeners :=
    { memoryOnread := memoryOnread.map .other, memoryOnwrite := memoryOnwrite.map .other
      ioOnread := ioOnread.map .other, ioOnwrite := ioOnwrite.map .other }

/-- The watchpoints, with the callbacks that they ask for. -/
def watching (watchpoints : List Watchpoint) : WatchBoard :=
  { memoryWatchpoints := watchpoints, listeners := .refresh watchpoints }

/-- `insert_breakpoint` and `remove_breakpoint`. -/
def call (board : WatchBoard) : WatchCall → WatchBoard
  | .insertBreakpoint type addr kind =>
    watching (board.memoryWatchpoints ++ [{ addr, length := kind, type }])
  | .removeBreakpoint type addr kind =>
    watching (board.memoryWatchpoints.filter (· ≠ { addr, length := kind, type }))

/-- `Board::check_watchpoint`, and whether it breaks. -/
def checkWatchpoint (board : WatchBoard) (addr : BitVec 32) (how : WatchType) : Bool :=
  board.memoryWatchpoints.any fun item => item.Kind how && item.Covers addr

/-- The callback that an access runs, and its argument. Reading the timer returns before the
callback. -/
def listener (board : WatchBoard) : BusAccess → Option Listener × BitVec 32
  | .memoryRead addr => (board.listeners.memoryOnread, BitVec.ofNat 32 addr)
  | .memoryWrite addr => (board.listeners.memoryOnwrite, BitVec.ofNat 32 addr)
  | .ioRead port =>
    (if 0x08 ≤ port ∧ port ≤ 0x0b then none else board.listeners.ioOnread, port.setWidth 32)
  | .ioWrite port => (board.listeners.ioOnwrite, port.setWidth 32)

/-- An access breaks. -/
def breaks (board : WatchBoard) (access : BusAccess) : Bool :=
  match board.listener access with
  | (some .check_wp_read, addr) => board.checkWatchpoint addr .read
  | (some .check_wp_write, addr) => board.checkWatchpoint addr .write
  | (some .check_wp_ioread, addr) => board.checkWatchpoint (0x80000000 ||| addr) .read
  | (some .check_wp_iowrite, addr) => board.checkWatchpoint (0x80000000 ||| addr) .write
  | _ => false

/-- The callback of someone else that an access runs. -/
def heard (board : WatchBoard) (access : BusAccess) : Option Nat :=
  match board.listener access with
  | (some (.other id), _) => some id
  | _ => none

/-- A watchpoint for accesses of a kind covers the address. -/
def Watched (watchpoints : List Watchpoint) (how : WatchType) (addr : BitVec 32) : Prop :=
  ∃ w ∈ watchpoints, w.Kind how ∧ w.Covers addr

instance (watchpoints : List Watchpoint) (how : WatchType) (addr : BitVec 32) :
    Decidable (Watched watchpoints how addr) :=
  inferInstanceAs (Decidable (∃ w ∈ watchpoints, w.Kind how ∧ w.Covers addr))

theorem checkWatchpoint_iff (board : WatchBoard) (addr : BitVec 32) (how : WatchType) :
    board.checkWatchpoint addr how = true ↔ Watched board.memoryWatchpoints how addr := by
  unfold checkWatchpoint Watched
  simp

/-! ### The callbacks that a list asks for -/

/-- A read or access watchpoint that starts in memory. -/
def ReadsMemory (watchpoints : List Watchpoint) : Prop :=
  ∃ w ∈ watchpoints, w.Kind .read ∧ w.iospace = false

/-- A write or access watchpoint that starts in memory. -/
def WritesMemory (watchpoints : List Watchpoint) : Prop :=
  ∃ w ∈ watchpoints, w.Kind .write ∧ w.iospace = false

/-- A read or access watchpoint that starts in the ports. -/
def ReadsIo (watchpoints : List Watchpoint) : Prop :=
  ∃ w ∈ watchpoints, w.Kind .read ∧ w.iospace = true

/-- A write or access watchpoint that starts in the ports, before all that start in memory. -/
def WritesIo (watchpoints : List Watchpoint) : Prop :=
  ∃ w ∈ watchpoints.takeWhile (·.iospace), w.Kind .write

instance (watchpoints : List Watchpoint) : Decidable (ReadsMemory watchpoints) :=
  inferInstanceAs (Decidable (∃ w ∈ watchpoints, w.Kind .read ∧ w.iospace = false))

instance (watchpoints : List Watchpoint) : Decidable (WritesMemory watchpoints) :=
  inferInstanceAs (Decidable (∃ w ∈ watchpoints, w.Kind .write ∧ w.iospace = false))

instance (watchpoints : List Watchpoint) : Decidable (ReadsIo watchpoints) :=
  inferInstanceAs (Decidable (∃ w ∈ watchpoints, w.Kind .read ∧ w.iospace = true))

instance (watchpoints : List Watchpoint) : Decidable (WritesIo watchpoints) :=
  inferInstanceAs (Decidable (∃ w ∈ watchpoints.takeWhile (·.iospace), w.Kind .write))

/-- The callbacks after a prefix of the list. -/
structure Asked (watchpoints : List Watchpoint) (listeners : Listeners) : Prop where
  /-- Reads of memory are never watched. -/
  memoryOnread : listeners.memoryOnread = none
  /-- Writes are watched for the last half that applied. -/
  memoryOnwrite : listeners.memoryOnwrite =
    if ReadsMemory watchpoints then some .check_wp_read
    else if WritesMemory watchpoints then some .check_wp_write else none
  /-- Reads of ports. -/
  ioOnread : listeners.ioOnread = if ReadsIo watchpoints then some .check_wp_ioread else none
  /-- Writes of ports, as long as writes of memory are not watched. -/
  ioOnwrite : listeners.ioOnwrite = if WritesIo watchpoints then some .check_wp_iowrite else none

/-- While writes of memory are not watched, every watchpoint starts in the ports. -/
theorem Asked.all_iospace {watchpoints : List Watchpoint} {listeners : Listeners}
    (asked : Asked watchpoints listeners) :
    listeners.memoryOnwrite = none ↔ ∀ w ∈ watchpoints, w.iospace = true := by
  have kind : ∀ w : Watchpoint, w.Kind .read ∨ w.Kind .write := by
    intro w
    unfold Watchpoint.Kind
    cases w.type <;> simp
  rw [asked.memoryOnwrite]
  constructor
  · intro unwatched w listed
    by_contra inMemory
    have starts : w.iospace = false := Bool.not_eq_true _ ▸ inMemory
    rcases kind w with reads | writes
    · rw [if_pos ⟨w, listed, reads, starts⟩] at unwatched
      exact nomatch unwatched
    · by_cases read : ReadsMemory watchpoints
      · rw [if_pos read] at unwatched
        exact nomatch unwatched
      · rw [if_neg read, if_pos ⟨w, listed, writes, starts⟩] at unwatched
        exact nomatch unwatched
  · intro all
    rw [if_neg, if_neg]
    · rintro ⟨w, listed, _, starts⟩
      exact absurd ((all w listed).symm.trans starts) nofun
    · rintro ⟨w, listed, _, starts⟩
      exact absurd ((all w listed).symm.trans starts) nofun

/-- One more watchpoint at the end of the list. -/
theorem takeWhile_snoc (watchpoints : List Watchpoint) (w : Watchpoint) :
    WritesIo (watchpoints ++ [w]) ↔ WritesIo watchpoints ∨
      (∀ known ∈ watchpoints, known.iospace = true) ∧ w.iospace = true ∧ w.Kind .write := by
  unfold WritesIo
  by_cases all : ∀ known ∈ watchpoints, known.iospace = true
  · rw [List.takeWhile_append_of_pos all, List.takeWhile_eq_self_iff.mpr all]
    have inPorts : (∀ known ∈ watchpoints, known.iospace = true) ↔ True := iff_true_intro all
    cases starts : w.iospace with
    | true =>
      rw [inPorts]
      simp [starts, or_and_right, exists_or]
    | false => simp [starts]
  · have shorter : (watchpoints.takeWhile (·.iospace)).length ≠ watchpoints.length := by
      intro same
      have whole := List.IsPrefix.eq_of_length
        (List.takeWhile_prefix (fun w : Watchpoint => w.iospace)) same
      exact all (List.takeWhile_eq_self_iff.mp whole)
    rw [List.takeWhile_append, if_neg shorter]
    simp only [all, false_and, or_false]

theorem Asked.snoc {watchpoints : List Watchpoint} {listeners : Listeners}
    (asked : Asked watchpoints listeners) (w : Watchpoint) :
    Asked (watchpoints ++ [w]) ((listeners.refreshWrite w).refreshRead w) := by
  have unwatched := asked.all_iospace
  have last : ∀ P : Watchpoint → Prop,
      (∃ known ∈ watchpoints ++ [w], P known) ↔ (∃ known ∈ watchpoints, P known) ∨ P w := by
    intro P
    simp [or_and_right, exists_or]
  have reads : ReadsMemory (watchpoints ++ [w]) ↔
      ReadsMemory watchpoints ∨ w.Kind .read ∧ w.iospace = false := last _
  have writes : WritesMemory (watchpoints ++ [w]) ↔
      WritesMemory watchpoints ∨ w.Kind .write ∧ w.iospace = false := last _
  have readsIo : ReadsIo (watchpoints ++ [w]) ↔
      ReadsIo watchpoints ∨ w.Kind .read ∧ w.iospace = true := last _
  have writesIo := takeWhile_snoc watchpoints w
  have written : (listeners.refreshWrite w).memoryOnread = none ∧
      (listeners.refreshWrite w).memoryOnwrite =
        (if ReadsMemory watchpoints then some .check_wp_read
          else if WritesMemory (watchpoints ++ [w]) then some .check_wp_write else none) ∧
      (listeners.refreshWrite w).ioOnread = listeners.ioOnread ∧
      (listeners.refreshWrite w).ioOnwrite =
        if WritesIo (watchpoints ++ [w]) then some .check_wp_iowrite else none := by
    unfold Listeners.refreshWrite
    by_cases free : listeners.memoryOnwrite = none
    · have all := unwatched.mp free
      have noRead : ¬ReadsMemory watchpoints := by
        rintro ⟨known, listed, _, starts⟩
        exact absurd ((all known listed).symm.trans starts) nofun
      have noWrite : ¬WritesMemory watchpoints := by
        rintro ⟨known, listed, _, starts⟩
        exact absurd ((all known listed).symm.trans starts) nofun
      by_cases kind : w.Kind .write
      · cases starts : w.iospace with
        | true =>
          have inPorts : WritesIo (watchpoints ++ [w]) := writesIo.mpr (Or.inr ⟨all, starts, kind⟩)
          simp [free, kind, starts, noRead, noWrite, writes, inPorts, asked.memoryOnread]
        | false =>
          simp [free, kind, starts, noRead, noWrite, writes, writesIo, asked.memoryOnread,
            asked.ioOnwrite]
      · simp [free, kind, noRead, noWrite, writes, writesIo, asked.memoryOnread,
          asked.ioOnwrite]
    · have some' : ¬∀ known ∈ watchpoints, known.iospace = true :=
        fun all => free (unwatched.mpr all)
      have kept := asked.memoryOnwrite
      have installed : ReadsMemory watchpoints ∨ WritesMemory watchpoints := by
        by_contra neither
        obtain ⟨noRead, noWrite⟩ := not_or.mp neither
        rw [if_neg noRead, if_neg noWrite] at kept
        exact free kept
      rw [if_neg (fun both => free both.1)]
      refine ⟨asked.memoryOnread, ?_, rfl, ?_⟩
      · rw [kept]
        rcases installed with read | write
        · rw [if_pos read, if_pos read]
        · rw [if_pos write, if_pos (writes.mpr (Or.inl write))]
      · have same : WritesIo (watchpoints ++ [w]) ↔ WritesIo watchpoints := by
          rw [writesIo]
          exact or_iff_left fun more => some' more.1
        rw [asked.ioOnwrite, if_congr same rfl rfl]
  obtain ⟨onread, onwrite, ioread, iowrite⟩ := written
  unfold Listeners.refreshRead
  rw [onread]
  by_cases kind : w.Kind .read
  · cases starts : w.iospace with
    | true =>
      rw [if_pos ⟨rfl, kind⟩, if_pos rfl]
      refine ⟨rfl, ?_, ?_, iowrite⟩
      · have same : ReadsMemory (watchpoints ++ [w]) ↔ ReadsMemory watchpoints := by
          rw [reads, starts]
          simp
        rw [if_congr same rfl rfl]
        exact onwrite
      · rw [if_pos (readsIo.mpr (Or.inr ⟨kind, starts⟩))]
    | false =>
      rw [if_pos ⟨rfl, kind⟩, if_neg nofun]
      refine ⟨rfl, ?_, ?_, iowrite⟩
      · rw [if_pos (reads.mpr (Or.inr ⟨kind, starts⟩))]
      · have same : ReadsIo (watchpoints ++ [w]) ↔ ReadsIo watchpoints := by
          rw [readsIo, starts]
          simp
        rw [if_congr same rfl rfl, ioread]
        exact asked.ioOnread
  · rw [if_neg fun both => kind both.2]
    refine ⟨onread, ?_, ?_, iowrite⟩
    · have same : ReadsMemory (watchpoints ++ [w]) ↔ ReadsMemory watchpoints := by
        rw [reads]
        exact or_iff_left fun more => kind more.1
      rw [if_congr same rfl rfl]
      exact onwrite
    · have same : ReadsIo (watchpoints ++ [w]) ↔ ReadsIo watchpoints := by
        rw [readsIo]
        exact or_iff_left fun more => kind more.1
      rw [if_congr same rfl rfl, ioread]
      exact asked.ioOnread

/-- The callbacks that a list of watchpoints asks for. -/
theorem refresh_asked (watchpoints : List Watchpoint) :
    Asked watchpoints (Listeners.refresh watchpoints) := by
  induction watchpoints using List.reverseRecOn with
  | nil => exact ⟨rfl, rfl, rfl, rfl⟩
  | append_singleton watchpoints w inductionHypothesis =>
    have refreshed : Listeners.refresh (watchpoints ++ [w]) =
        ((Listeners.refresh watchpoints).refreshWrite w).refreshRead w := by
      unfold Listeners.refresh
      rw [List.foldl_append]
      rfl
    rw [refreshed]
    exact inductionHypothesis.snoc w

/-! ### Which accesses break -/

/-- A watchpoint that covers a byte of memory starts in memory. -/
theorem iospace_of_covers {w : Watchpoint} {addr : Nat} (low : addr < 2 ^ 31)
    (covers : w.Covers (BusAccess.memoryAddress addr)) : w.iospace = false := by
  have small : w.addr.toNat < 2 ^ 31 := by
    have below := BitVec.le_def.mp covers.1
    unfold BusAccess.memoryAddress at below
    rw [BitVec.toNat_ofNat] at below
    omega
  have clear : w.addr &&& 0x80000000 = 0 := by
    apply BitVec.eq_of_toNat_eq
    have bit : w.addr.toNat.testBit 31 = false := Nat.testBit_lt_two_pow small
    rw [BitVec.toNat_and]
    change w.addr.toNat &&& 2 ^ 31 = 0
    rw [Nat.and_two_pow, bit]
    rfl
  unfold Watchpoint.iospace
  rw [clear]
  rfl

variable {board : WatchBoard}

/-- The callbacks are those that the list asks for. -/
def Refreshed (board : WatchBoard) : Prop := Asked board.memoryWatchpoints board.listeners

theorem Refreshed.memoryRead (refreshed : board.Refreshed) (addr : Fin 0x10001) :
    board.breaks (.memoryRead addr) = false := by
  unfold breaks listener
  dsimp only
  rw [refreshed.memoryOnread]

theorem Refreshed.memoryWrite (refreshed : board.Refreshed) (addr : Fin 0x10001) :
    board.breaks (.memoryWrite addr) = true ↔
      if ReadsMemory board.memoryWatchpoints then
        Watched board.memoryWatchpoints .read (BusAccess.memoryAddress addr)
      else Watched board.memoryWatchpoints .write (BusAccess.memoryAddress addr) := by
  have watching : Watched board.memoryWatchpoints .write (BusAccess.memoryAddress addr) →
      WritesMemory board.memoryWatchpoints := by
    rintro ⟨w, listed, kind, covers⟩
    have low : addr.val < 2 ^ 31 := by omega
    exact ⟨w, listed, kind, iospace_of_covers low covers⟩
  unfold breaks listener
  dsimp only
  rw [refreshed.memoryOnwrite]
  by_cases reads : ReadsMemory board.memoryWatchpoints
  · rw [if_pos reads, if_pos reads]
    exact board.checkWatchpoint_iff _ _
  · rw [if_neg reads, if_neg reads]
    by_cases writes : WritesMemory board.memoryWatchpoints
    · rw [if_pos writes]
      exact board.checkWatchpoint_iff _ _
    · rw [if_neg writes]
      exact iff_of_false nofun fun watched => writes (watching watched)

theorem Refreshed.ioRead (refreshed : board.Refreshed) (port : Byte) :
    board.breaks (.ioRead port) = true ↔ ¬(0x08 ≤ port ∧ port ≤ 0x0b) ∧
      ReadsIo board.memoryWatchpoints ∧
        Watched board.memoryWatchpoints .read (BusAccess.ioAddress port) := by
  unfold breaks listener
  dsimp only
  rw [refreshed.ioOnread]
  by_cases timer : 0x08 ≤ port ∧ port ≤ 0x0b
  · rw [if_pos timer]
    exact iff_of_false nofun fun watched => watched.1 timer
  · rw [if_neg timer]
    by_cases reads : ReadsIo board.memoryWatchpoints
    · rw [if_pos reads]
      exact (board.checkWatchpoint_iff _ _).trans
        ⟨fun watched => ⟨timer, reads, watched⟩, fun watched => watched.2.2⟩
    · rw [if_neg reads]
      exact iff_of_false nofun fun watched => reads watched.2.1

theorem Refreshed.ioWrite (refreshed : board.Refreshed) (port : Byte) :
    board.breaks (.ioWrite port) = true ↔ WritesIo board.memoryWatchpoints ∧
      Watched board.memoryWatchpoints .write (BusAccess.ioAddress port) := by
  unfold breaks listener
  dsimp only
  rw [refreshed.ioOnwrite]
  by_cases writes : WritesIo board.memoryWatchpoints
  · rw [if_pos writes]
    exact (board.checkWatchpoint_iff _ _).trans
      ⟨fun watched => ⟨writes, watched⟩, fun watched => watched.2⟩
  · rw [if_neg writes]
    exact iff_of_false nofun fun watched => writes watched.1

/-- No callback of someone else is left. -/
theorem Refreshed.heard (refreshed : board.Refreshed) (access : BusAccess) :
    board.heard access = none := by
  unfold WatchBoard.heard listener
  cases access with
  | memoryRead addr =>
    dsimp only
    rw [refreshed.memoryOnread]
  | memoryWrite addr =>
    dsimp only
    rw [refreshed.memoryOnwrite]
    split
    · rename_i found
      have here := (Prod.mk.inj found).1
      split at here
      · exact nomatch here
      · split at here <;> exact nomatch here
    · rfl
  | ioRead port =>
    dsimp only
    rw [refreshed.ioOnread]
    split
    · rename_i found
      have here := (Prod.mk.inj found).1
      split at here
      · exact nomatch here
      · split at here <;> exact nomatch here
    · rfl
  | ioWrite port =>
    dsimp only
    rw [refreshed.ioOnwrite]
    split
    · rename_i found
      have here := (Prod.mk.inj found).1
      split at here <;> exact nomatch here
    · rfl

theorem refreshed_watching (watchpoints : List Watchpoint) : (watching watchpoints).Refreshed :=
  refresh_asked watchpoints

/-- After any call the callbacks are those that the list asks for. -/
theorem refreshed_calls (start : WatchBoard) {calls : List WatchCall} (called : calls ≠ []) :
    (calls.foldl call start).Refreshed := by
  obtain ⟨front, last, rfl⟩ := List.eq_nil_or_concat calls |>.resolve_left called
  rw [List.concat_eq_append, List.foldl_append, List.foldl_cons, List.foldl_nil]
  cases last with
  | insertBreakpoint type addr kind => exact refreshed_watching _
  | removeBreakpoint type addr kind => exact refreshed_watching _

/-! ### When the watchpoints fire exactly where they are set -/

/-- An access breaks exactly if a watchpoint of its kind covers its address, and runs the callback
that it ran before. -/
structure Exact (start board : WatchBoard) : Prop where
  /-- Which accesses break. -/
  breaks : ∀ access, board.breaks access = true ↔
    Watched board.memoryWatchpoints access.how access.address
  /-- Which other callbacks run. -/
  heard : ∀ access, board.heard access = start.heard access

/-- The watchpoints that the four callbacks can serve. -/
structure Served (watchpoints : List Watchpoint) : Prop where
  /-- Reads of memory are not watched. -/
  memoryRead : ∀ addr : Word,
    ¬Watched watchpoints .read (BusAccess.memoryAddress addr.toNat)
  /-- When a read watchpoint starts in memory, writes of memory are not watched. Otherwise the byte
  after the last is watched as the first, in whose place it is written. -/
  memoryWrite : if ReadsMemory watchpoints then
      ¬Watched watchpoints .read (BusAccess.memoryAddress 0x10000) ∧
        ∀ addr : Word, ¬Watched watchpoints .write (BusAccess.memoryAddress addr.toNat)
    else
      (Watched watchpoints .write (BusAccess.memoryAddress 0x10000) ↔
        Watched watchpoints .write (BusAccess.memoryAddress 0))
  /-- Reads of the timer are not watched. -/
  timerRead : ∀ port : Byte, 0x08 ≤ port ∧ port ≤ 0x0b →
    ¬Watched watchpoints .read (BusAccess.ioAddress port)
  /-- When reads of ports are watched, a watchpoint for them starts in the ports. -/
  ioRead : ∀ port : Byte, Watched watchpoints .read (BusAccess.ioAddress port) →
    ReadsIo watchpoints
  /-- When writes of ports are watched, a watchpoint for them starts in the ports before all that
  start in memory. -/
  ioWrite : ∀ port : Byte, Watched watchpoints .write (BusAccess.ioAddress port) →
    WritesIo watchpoints

/-- A byte of memory that is accessed, by its address or one past the last. -/
theorem memory_cases (addr : Fin 0x10001) :
    (∃ place : Word, place.toNat = addr.val ∧ addr.val % 0x10000 = place.toNat) ∨
      addr.val = 0x10000 := by
  by_cases inside : addr.val < 0x10000
  · refine Or.inl ⟨BitVec.ofNat 16 addr.val, ?_, ?_⟩
    · rw [BitVec.toNat_ofNat]
      omega
    · rw [BitVec.toNat_ofNat]
  · right
    omega

theorem Served.breaks (refreshed : board.Refreshed) (served : Served board.memoryWatchpoints)
    (access : BusAccess) :
    board.breaks access = true ↔ Watched board.memoryWatchpoints access.how access.address := by
  cases access with
  | memoryRead addr =>
    have inside : addr.val % 0x10000 < 2 ^ 16 := Nat.mod_lt _ (by decide)
    have silent := served.memoryRead (BitVec.ofNat 16 (addr.val % 0x10000))
    rw [BitVec.toNat_ofNat, Nat.mod_eq_of_lt inside] at silent
    rw [refreshed.memoryRead]
    exact iff_of_false nofun silent
  | memoryWrite addr =>
    have writes := served.memoryWrite
    rw [refreshed.memoryWrite]
    unfold BusAccess.how BusAccess.address
    dsimp only
    by_cases reads : ReadsMemory board.memoryWatchpoints
    · rw [if_pos reads] at writes ⊢
      rcases memory_cases addr with ⟨place, same, inside⟩ | past
      · rw [inside, ← same]
        exact iff_of_false (served.memoryRead place) (writes.2 place)
      · rw [past]
        exact iff_of_false writes.1 (writes.2 0)
    · rw [if_neg reads] at writes ⊢
      rcases memory_cases addr with ⟨place, same, inside⟩ | past
      · rw [inside, same]
      · rw [past]
        exact writes
  | ioRead port =>
    rw [refreshed.ioRead]
    constructor
    · exact fun watched => watched.2.2
    · intro watched
      exact ⟨fun timer => served.timerRead port timer watched, served.ioRead port watched, watched⟩
  | ioWrite port =>
    rw [refreshed.ioWrite]
    exact ⟨fun watched => watched.2, fun watched => ⟨served.ioWrite port watched, watched⟩⟩

theorem served_of_breaks (refreshed : board.Refreshed)
    (exact' : ∀ access, board.breaks access = true ↔
      Watched board.memoryWatchpoints access.how access.address) :
    Served board.memoryWatchpoints := by
  have fits : ∀ addr : Word, addr.toNat < 0x10001 := fun addr => by omega
  have inside : ∀ addr : Word, addr.toNat % 0x10000 = addr.toNat := fun addr => by omega
  have silent : ∀ addr : Word,
      ¬Watched board.memoryWatchpoints .read (BusAccess.memoryAddress addr.toNat) := by
    intro addr watched
    have breaks := (exact' (.memoryRead ⟨addr.toNat, fits addr⟩)).mpr (by
      unfold BusAccess.how BusAccess.address
      dsimp only
      rw [inside]
      exact watched)
    rw [refreshed.memoryRead] at breaks
    exact nomatch breaks
  have written : ∀ addr : Fin 0x10001, (if ReadsMemory board.memoryWatchpoints then
        Watched board.memoryWatchpoints .read (BusAccess.memoryAddress addr)
      else Watched board.memoryWatchpoints .write (BusAccess.memoryAddress addr)) ↔
        Watched board.memoryWatchpoints .write (BusAccess.memoryAddress (addr.val % 0x10000)) :=
    fun addr => (refreshed.memoryWrite addr).symm.trans (exact' (.memoryWrite addr))
  refine ⟨silent, ?_, ?_, ?_, ?_⟩
  · have past := written ⟨0x10000, by decide⟩
    by_cases reads : ReadsMemory board.memoryWatchpoints
    · rw [if_pos reads] at past ⊢
      have unwritten : ∀ addr : Word,
          ¬Watched board.memoryWatchpoints .write (BusAccess.memoryAddress addr.toNat) := by
        intro addr watched
        have here := written ⟨addr.toNat, fits addr⟩
        rw [if_pos reads] at here
        dsimp only at here
        rw [inside] at here
        exact silent addr (here.mpr watched)
      exact ⟨fun watched => unwritten 0 (past.mp watched), unwritten⟩
    · rw [if_neg reads] at past ⊢
      exact past
  · intro port timer watched
    have breaks := (exact' (.ioRead port)).mpr watched
    exact ((refreshed.ioRead port).mp breaks).1 timer
  · intro port watched
    have breaks := (exact' (.ioRead port)).mpr watched
    exact ((refreshed.ioRead port).mp breaks).2.1
  · intro port watched
    have breaks := (exact' (.ioWrite port)).mpr watched
    exact ((refreshed.ioWrite port).mp breaks).1

theorem heard_init (memoryOnread memoryOnwrite ioOnread ioOnwrite : Option Nat)
    (access : BusAccess) :
    (init memoryOnread memoryOnwrite ioOnread ioOnwrite).heard access =
      match access with
      | .memoryRead _ => memoryOnread
      | .memoryWrite _ => memoryOnwrite
      | .ioRead port => if 0x08 ≤ port ∧ port ≤ 0x0b then none else ioOnread
      | .ioWrite _ => ioOnwrite := by
  unfold heard listener init
  cases access with
  | memoryRead addr => cases memoryOnread <;> rfl
  | memoryWrite addr => cases memoryOnwrite <;> rfl
  | ioRead port =>
    dsimp only
    by_cases timer : 0x08 ≤ port ∧ port ≤ 0x0b
    · rw [if_pos timer, if_pos timer]
    · rw [if_neg timer, if_neg timer]
      cases ioOnread <;> rfl
  | ioWrite port => cases ioOnwrite <;> rfl

/-- A board without watchpoints breaks nowhere. -/
theorem breaks_init (memoryOnread memoryOnwrite ioOnread ioOnwrite : Option Nat)
    (access : BusAccess) :
    (init memoryOnread memoryOnwrite ioOnread ioOnwrite).breaks access = false := by
  unfold breaks listener init
  cases access with
  | memoryRead addr => cases memoryOnread <;> rfl
  | memoryWrite addr => cases memoryOnwrite <;> rfl
  | ioRead port =>
    dsimp only
    by_cases timer : 0x08 ≤ port ∧ port ≤ 0x0b
    · rw [if_pos timer]
    · rw [if_neg timer]
      cases ioOnread <;> rfl
  | ioWrite port => cases ioOnwrite <;> rfl

theorem served_nil : Served [] where
  memoryRead _ := nofun
  memoryWrite := by
    rw [if_neg nofun]
    exact iff_of_false nofun nofun
  timerRead _ _ := nofun
  ioRead _ := nofun
  ioWrite _ := nofun

/-- After any calls, accesses break exactly where watchpoints are set and other callbacks keep
working, if and only if the callbacks can serve the watchpoints that are left, and there were no
other callbacks unless there was no call. -/
theorem watchpoints_exact_iff (memoryOnread memoryOnwrite ioOnread ioOnwrite : Option Nat)
    (calls : List WatchCall) :
    Exact (init memoryOnread memoryOnwrite ioOnread ioOnwrite)
        (calls.foldl call (init memoryOnread memoryOnwrite ioOnread ioOnwrite)) ↔
      (calls = [] ∨ memoryOnread = none ∧ memoryOnwrite = none ∧ ioOnread = none ∧
          ioOnwrite = none) ∧
        Served (calls.foldl call
          (init memoryOnread memoryOnwrite ioOnread ioOnwrite)).memoryWatchpoints := by
  have before := heard_init memoryOnread memoryOnwrite ioOnread ioOnwrite
  by_cases uncalled : calls = []
  · rw [uncalled, List.foldl_nil]
    refine iff_of_true ⟨fun access => ?_, fun access => rfl⟩ ⟨Or.inl rfl, served_nil⟩
    rw [breaks_init]
    exact iff_of_false nofun nofun
  · have refreshed := refreshed_calls
      (init memoryOnread memoryOnwrite ioOnread ioOnwrite) uncalled
    constructor
    · intro exact'
      have gone : ∀ access, (init memoryOnread memoryOnwrite ioOnread ioOnwrite).heard access =
          none := fun access => (exact'.heard access).symm.trans (refreshed.heard access)
      refine ⟨Or.inr ⟨?_, ?_, ?_, ?_⟩, served_of_breaks refreshed exact'.breaks⟩
      · exact (before (.memoryRead 0)).symm.trans (gone _)
      · exact (before (.memoryWrite 0)).symm.trans (gone _)
      · exact (before (.ioRead 0)).symm.trans (gone _)
      · exact (before (.ioWrite 0)).symm.trans (gone _)
    · rintro ⟨called | ⟨rfl, rfl, rfl, rfl⟩, served⟩
      · exact absurd called uncalled
      · refine ⟨served.breaks refreshed, fun access => ?_⟩
        rw [refreshed.heard, before]
        cases access with
        | ioRead port => exact (ite_self none).symm
        | _ => rfl

/-- A read watchpoint on one byte: reads of the byte do not break, writes do. And the callback of
the debugger is gone. -/
theorem watchpoints_misplaced :
    let start := init (some 0) none none none
    let board := start.call (.insertBreakpoint .read 0x100 1)
    board.breaks (.memoryRead 0x100) = false ∧ board.breaks (.memoryWrite 0x100) = true ∧
      board.heard (.memoryRead 0x100) = none ∧ start.heard (.memoryRead 0x100) = some 0 ∧
        ¬Exact start board := by
  intro start board
  have unread : board.breaks (.memoryRead 0x100) = false := by decide
  refine ⟨unread, by decide, by decide, by decide, fun exact' => ?_⟩
  have watched : Watched board.memoryWatchpoints .read (BusAccess.memoryAddress 0x100) := by decide
  have breaks := (exact'.breaks (.memoryRead 0x100)).mpr watched
  rw [unread] at breaks
  exact nomatch breaks

end WatchBoard

end VectorDebugger
