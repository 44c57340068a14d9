import Mathlib.Data.List.Range
import VectorDebugger.Machine.Ay

/-!
# Sound snapshots

`soundSnapshot` reads the sixteen registers of the sound generator through the guest's own select
and read protocol. The registers are left alone, the selection is not: it ends on register 15
whatever the guest had selected. A run with snapshots is compared with the same run without them.
-/

namespace VectorDebugger

/-- `SoundSnapshot`, as far as it comes from the sound generator. -/
structure SoundSnapshot where
  /-- `registers`. -/
  registers : List Byte
  /-- `toneAEnabled`, `toneBEnabled` and `toneCEnabled`. -/
  toneEnabled : List Bool
  /-- `noiseAEnabled`, `noiseBEnabled` and `noiseCEnabled`. -/
  noiseEnabled : List Bool
deriving DecidableEq, Repr

namespace Ay

/-- One pass of the loop of `soundSnapshot`: select a register, then read it. -/
def readSelected (ay : Ay) (i : Nat) : Byte × Ay :=
  let selected := ay.write 1 i
  (BitVec.ofNat 8 (selected.read 0), selected)

/-- The loop of `soundSnapshot`. -/
def readRegisters (ay : Ay) : List Nat → List Byte × Ay
  | [] => ([], ay)
  | i :: rest =>
    let first := ay.readSelected i
    let others := first.2.readRegisters rest
    (first.1 :: others.1, others.2)

/-- `DebugAdapter::soundSnapshot`, with the sound generator after it. -/
def soundSnapshot (ay : Ay) : SoundSnapshot × Ay :=
  let found := ay.readRegisters (List.range 16)
  let mixer := found.1.getD 7 0
  ({ registers := found.1
     toneEnabled := [0x01, 0x02, 0x04].map fun mask : Byte => mixer &&& mask == 0
     noiseEnabled := [0x08, 0x10, 0x20].map fun mask : Byte => mixer &&& mask == 0 },
    found.2)

theorem readSelected_eq (ay : Ay) (i : Nat) :
    ay.readSelected i = (BitVec.ofNat 8 (ay.ayr (i &&& 0x0f)), { ay with ayreg := i &&& 0x0f }) :=
  rfl

/-- Reading registers touches only the selection, and reads what they hold. -/
theorem readRegisters_eq (registers : List Nat) :
    ∀ ay : Ay, ay.readRegisters registers =
      (registers.map fun i => BitVec.ofNat 8 (ay.ayr (i &&& 0x0f)),
        { ay with ayreg := (registers.map (· &&& 0x0f)).getLastD ay.ayreg }) := by
  induction registers with
  | nil =>
    intro ay
    rfl
  | cons i rest inductionHypothesis =>
    intro ay
    unfold readRegisters
    rw [readSelected_eq]
    dsimp only
    rw [inductionHypothesis, List.map_cons, List.map_cons, List.getLastD_cons]

/-- A snapshot leaves register 15 selected and everything else alone. -/
theorem soundSnapshot_ay (ay : Ay) : ay.soundSnapshot.2 = { ay with ayreg := 15 } := by
  have found := readRegisters_eq (List.range 16) ay
  unfold soundSnapshot
  dsimp only
  rw [found]
  rfl

end Ay

/-- What happens to the sound generator. -/
inductive SoundEvent
  /-- The guest writes port 14h. -/
  | data (value : Byte)
  /-- The guest writes port 15h. -/
  | select (value : Byte)
  /-- The sound generator runs. -/
  | step
  /-- The debugger takes a snapshot. -/
  | snapshot
deriving DecidableEq, Repr

namespace Ay

/-- The sound generator after one event. -/
def act (ay : Ay) : SoundEvent → Ay
  | .data value => ay.write 0 value.toNat
  | .select value => ay.write 1 value.toNat
  | .step => ay.step.2
  | .snapshot => ay.soundSnapshot.2

/-- A run. -/
def run (ay : Ay) (events : List SoundEvent) : Ay := events.foldl act ay

/-- The same run without its snapshots. -/
def guestRun (ay : Ay) (events : List SoundEvent) : Ay :=
  ay.run (events.filter (· ≠ .snapshot))

/-- At every point of a run the sound generator is as it would be without the snapshots. -/
def Unheard (ay : Ay) (events : List SoundEvent) : Prop :=
  ∀ front back, events = front ++ back → ay.run front = ay.guestRun front

/-- Whenever a snapshot is taken, the guest has register 15 selected. -/
def LastSelected (ay : Ay) (events : List SoundEvent) : Prop :=
  ∀ front back, events = front ++ .snapshot :: back → (ay.guestRun front).ayreg = 15

theorem run_append (ay : Ay) (front back : List SoundEvent) :
    ay.run (front ++ back) = (ay.run front).run back := List.foldl_append

theorem guestRun_append (ay : Ay) (front back : List SoundEvent) :
    ay.guestRun (front ++ back) = (ay.guestRun front).guestRun back := by
  unfold guestRun
  rw [List.filter_append, run_append]

/-- Snapshots are unheard exactly when the guest has register 15 selected at each of them. -/
theorem snapshots_unheard_iff (ay : Ay) (events : List SoundEvent) :
    ay.Unheard events ↔ ay.LastSelected events := by
  constructor
  · intro unheard front back split'
    have before := unheard front (.snapshot :: back) split'
    have after := unheard (front ++ [.snapshot]) back (by rw [split']; simp)
    have still : (ay.guestRun (front ++ [.snapshot])) = ay.guestRun front := by
      rw [guestRun_append]
      rfl
    rw [run_append, still, before] at after
    have selected : ((ay.guestRun front).run [.snapshot]).ayreg = 15 := by
      change (ay.guestRun front).soundSnapshot.2.ayreg = 15
      rw [soundSnapshot_ay]
    rw [← after]
    exact selected
  · intro selected front
    induction front using List.reverseRecOn with
    | nil =>
      intro back split'
      rfl
    | append_singleton front event inductionHypothesis =>
      intro back split'
      have longer : events = front ++ event :: back := by rw [split']; simp
      have before := inductionHypothesis (event :: back) longer
      rw [run_append, guestRun_append, before]
      cases event with
      | snapshot =>
        have fifteen := selected front back longer
        change (ay.guestRun front).soundSnapshot.2 = ay.guestRun front
        rw [soundSnapshot_ay, ← fifteen]
      | data value => rfl
      | select value => rfl
      | step => rfl

/-- The guest selects register 0, the debugger looks, and the guest's next byte goes to register
15 instead. -/
theorem snapshot_moves_write :
    (init.run [.select 0, .snapshot, .data 0x55]).ayr 0 = 0 ∧
      (init.guestRun [.select 0, .snapshot, .data 0x55]).ayr 0 = 0x55 := by
  decide

end Ay

end VectorDebugger
