import Mathlib.Data.List.Infix
import VectorDebugger.Machine.Memory

/-!
# Keyboard

The matrix has a bit for every key of the machine, and three lines of their own are for the
modifiers. A press sets the bit or the line of its key and a release clears it; which keys are held
is not counted.
-/

namespace VectorDebugger

/-- The scancodes that `Keyboard` knows, and the others. -/
inductive Scancode
  | lshift | rshift | lctrl | lgui | lalt | ralt
  | space | grave | rightbracket | backslash | leftbracket | z | y | x
  | w | v | u | t | s | r | q | p
  | o | n | m | l | k | j | i | h
  | g | f | e | d | c | b | a | minus
  | slash | period | equals | comma | semicolon | apostrophe | nine | eight
  | seven | six | five | four | three | two | one | zero
  | f1 | f2 | f3 | f4 | f5 | f6 | f7 | f8 | escape
  | down | right | up | left | backspace | enter | tab
  /-- A key that nothing is assigned to. -/
  | other (code : Nat)
deriving DecidableEq, Repr

/-- The two versions of the class. -/
inductive KeyboardVersion
  | sdl | android
deriving DecidableEq, Repr

/-- `keymap_tab`. The versions differ in the position of the grave accent. -/
def keymapTab (version : KeyboardVersion) : List (Scancode × BitVec 32) :=
  [(.space, 0x780), (.grave, if version = .sdl then 0x701 else 0x740), (.rightbracket, 0x720),
    (.backslash, 0x710), (.leftbracket, 0x708), (.z, 0x704), (.y, 0x702), (.x, 0x701),
    (.w, 0x680), (.v, 0x640), (.u, 0x620), (.t, 0x610),
    (.s, 0x608), (.r, 0x604), (.q, 0x602), (.p, 0x601),
    (.o, 0x580), (.n, 0x540), (.m, 0x520), (.l, 0x510),
    (.k, 0x508), (.j, 0x504), (.i, 0x502), (.h, 0x501),
    (.g, 0x480), (.f, 0x440), (.e, 0x420), (.d, 0x410),
    (.c, 0x408), (.b, 0x404), (.a, 0x402), (.minus, 0x401),
    (.slash, 0x380), (.period, 0x340), (.equals, 0x320), (.comma, 0x310),
    (.semicolon, 0x308), (.apostrophe, 0x304), (.nine, 0x302), (.eight, 0x301),
    (.seven, 0x280), (.six, 0x240), (.five, 0x220), (.four, 0x210),
    (.three, 0x208), (.two, 0x204), (.one, 0x202), (.zero, 0x201),
    (.f5, 0x180), (.f4, 0x140), (.f3, 0x120), (.f2, 0x110),
    (.f1, 0x108), (.escape, 0x104), (.f8, 0x102), (.f7, 0x101),
    (.down, 0x080), (.right, 0x040), (.up, 0x020), (.left, 0x010),
    (.backspace, 0x008), (.enter, 0x004), (.ralt, 0x002), (.tab, 0x001)]

/-- `keymap`, as `init_map` fills it: a later entry replaces an earlier one. -/
def keymap (version : KeyboardVersion) (code : Scancode) : Option (BitVec 32) :=
  ((keymapTab version).reverse.find? (·.1 = code)).map (·.2)

/-- `Keyboard`, without what is done about a reset. -/
structure Keyboard where
  /-- `matrix`. -/
  matrix : Nat → Byte
  /-- `ss`. -/
  ss : Bool
  /-- `us`. -/
  us : Bool
  /-- `rus`. -/
  rus : Bool

namespace Keyboard

/-- `Keyboard::Keyboard`. -/
def init : Keyboard where
  matrix := fun _ => 0
  ss := false
  us := false
  rus := false

/-- `Keyboard::apply_key`. -/
def applyKey (version : KeyboardVersion) (keyboard : Keyboard) (code : Scancode) (keyup : Bool) :
    Keyboard :=
  match code with
  | .lshift | .rshift => { keyboard with ss := !keyup }
  | .lctrl => { keyboard with us := !keyup }
  | .lgui | .lalt | .f6 => { keyboard with rus := !keyup }
  | _ =>
    match keymap version code with
    | none => keyboard
    | some colbit =>
      let col := ((colbit >>> 8) &&& 0xff).toNat
      let bit : Byte := colbit.setWidth 8
      { keyboard with
        matrix := Function.update keyboard.matrix col
          (if keyup then keyboard.matrix col &&& ~~~bit else keyboard.matrix col ||| bit) }

/-- The loop of `Keyboard::read`. -/
def readRows (keyboard : Keyboard) : List Nat → BitVec 32 → Byte → Byte
  | [], _, result => result
  | i :: rows, rowbit, result =>
    readRows keyboard rows (rowbit.sshiftRight 1)
      (if rowbit &&& 1 ≠ 0 then result ||| keyboard.matrix i else result)

/-- `Keyboard::read`. -/
def read (keyboard : Keyboard) (rowbit : BitVec 32) : BitVec 32 :=
  ~~~(keyboard.readRows (List.range 8) rowbit 0).setWidth 32 &&& 0xff

end Keyboard

/-- A press or a release. -/
structure KeyEvent where
  /-- The key. -/
  code : Scancode
  /-- It is released. -/
  keyup : Bool
deriving DecidableEq, Repr

/-- Where a key is. -/
inductive KeySpot
  | ss | us | rus
  /-- A bit of a row of the matrix. -/
  | cell (row bit : Nat)
deriving DecidableEq, Repr

/-- The place of a key in the matrix or among the modifiers. -/
def keySpot (version : KeyboardVersion) : Scancode → Option KeySpot
  | .lshift | .rshift => some .ss
  | .lctrl => some .us
  | .lgui | .lalt | .f6 => some .rus
  | code => (keymap version code).map fun (colbit : BitVec 32) =>
    .cell (colbit >>> 8).toNat (colbit &&& 0xff).toNat.log2

/-- The keyboard after some events. -/
def keyboardAfter (version : KeyboardVersion) (events : List KeyEvent) : Keyboard :=
  events.foldl (fun keyboard event => keyboard.applyKey version event.code event.keyup) .init

/-- The last event of a key was a press. -/
def held (events : List KeyEvent) (code : Scancode) : Bool :=
  events.foldl (fun held event => if event.code = code then !event.keyup else held) false

/-- What is set at a place. -/
def Keyboard.lit (keyboard : Keyboard) : KeySpot → Bool
  | .ss => keyboard.ss
  | .us => keyboard.us
  | .rus => keyboard.rus
  | .cell row bit => (keyboard.matrix row).getLsbD bit

/-- The matrix and the modifiers show the held keys, and no others. -/
structure ShowsHeld (version : KeyboardVersion) (events : List KeyEvent) (keyboard : Keyboard) :
    Prop where
  read : ∀ (mask : BitVec 32), ∀ b < 8, (keyboard.read mask).getLsbD b = false ↔
    ∃ code row, held events code = true ∧ keySpot version code = some (.cell row b) ∧
      mask.getLsbD row = true
  ss : keyboard.ss = true ↔ ∃ code, held events code = true ∧ keySpot version code = some .ss
  us : keyboard.us = true ↔ ∃ code, held events code = true ∧ keySpot version code = some .us
  rus : keyboard.rus = true ↔ ∃ code, held events code = true ∧ keySpot version code = some .rus

/-- No key is released while another key with its place is held. -/
def NeverShared (version : KeyboardVersion) (events : List KeyEvent) : Prop :=
  ∀ before code after, events = before ++ { code, keyup := true } :: after →
    ∀ spot, keySpot version code = some spot →
      ∀ other ≠ code, keySpot version other = some spot → held before other = false

/-- Every entry of the table has one bit of one row. -/
theorem keymap_single (version : KeyboardVersion) : ∀ entry ∈ keymapTab version,
    (entry.2 >>> 8).toNat < 8 ∧ (entry.2 &&& 0xff).toNat.log2 < 8 ∧
      (entry.2 >>> 8) &&& (0xff : BitVec 32) = entry.2 >>> 8 ∧
        (entry.2.setWidth 8 : Byte) = BitVec.twoPow 8 (entry.2 &&& 0xff).toNat.log2 := by
  cases version <;> decide

theorem keymap_of_some {version : KeyboardVersion} {code : Scancode} {colbit : BitVec 32}
    (found : keymap version code = some colbit) :
    (colbit >>> 8).toNat < 8 ∧ (colbit &&& 0xff).toNat.log2 < 8 ∧
      (colbit >>> 8) &&& (0xff : BitVec 32) = colbit >>> 8 ∧
        (colbit.setWidth 8 : Byte) = BitVec.twoPow 8 (colbit &&& 0xff).toNat.log2 := by
  obtain ⟨entry, first, rfl⟩ := Option.map_eq_some_iff.mp found
  exact keymap_single version entry (List.mem_reverse.mp (List.mem_of_find?_eq_some first))

/-- The place of a key that is not a modifier. -/
theorem keySpot_of_keymap (version : KeyboardVersion) {code : Scancode}
    (matrixKey : code ≠ .lshift ∧ code ≠ .rshift ∧ code ≠ .lctrl ∧ code ≠ .lgui ∧ code ≠ .lalt ∧
      code ≠ .f6) :
    keySpot version code = (keymap version code).map fun (colbit : BitVec 32) =>
      .cell (colbit >>> 8).toNat (colbit &&& 0xff).toNat.log2 := by
  obtain ⟨a, b, c, d, e, f⟩ := matrixKey
  unfold keySpot
  split <;> first | rfl | contradiction

/-- Setting or clearing one bit of a byte. -/
theorem getLsbD_switch (byte : Byte) {position : Nat} (small : position < 8) (keyup : Bool)
    (bit : Nat) :
    (if keyup then byte &&& ~~~(BitVec.twoPow 8 position)
      else byte ||| BitVec.twoPow 8 position).getLsbD bit =
        if position = bit then !keyup else byte.getLsbD bit := by
  by_cases same : position = bit
  · subst same
    cases keyup <;> simp [small]
  · cases keyup with
    | false => simp [same]
    | true =>
      by_cases inside : bit < 8
      · simp [same, Ne.symm same, inside]
      · simp [same, BitVec.getLsbD_of_ge byte bit (by omega)]

/-- An event sets or clears the place of its key and leaves the others. -/
theorem lit_applyKey (version : KeyboardVersion) (keyboard : Keyboard) (code : Scancode)
    (keyup : Bool) (spot : KeySpot) :
    (keyboard.applyKey version code keyup).lit spot =
      if keySpot version code = some spot then !keyup else keyboard.lit spot := by
  unfold Keyboard.applyKey
  split
  · cases spot <;> rfl
  · cases spot <;> rfl
  · cases spot <;> rfl
  · cases spot <;> rfl
  · cases spot <;> rfl
  · cases spot <;> rfl
  · rename_i a b c d e f
    have place := keySpot_of_keymap version ⟨a, b, c, d, e, f⟩
    cases found : keymap version code with
    | none =>
      rw [found, Option.map_none] at place
      rw [place]
      rfl
    | some colbit =>
      obtain ⟨-, small, row, bits⟩ := keymap_of_some found
      rw [found, Option.map_some] at place
      rw [place]
      dsimp only
      rw [row, bits]
      cases spot with
      | ss => rfl
      | us => rfl
      | rus => rfl
      | cell other bit =>
        simp only [Option.some.injEq, KeySpot.cell.injEq]
        show (Function.update keyboard.matrix (colbit >>> 8).toNat _ other).getLsbD bit = _
        by_cases here : other = (colbit >>> 8).toNat
        · subst here
          rw [Function.update_self]
          rw [getLsbD_switch _ small]
          simp only [true_and]
          rfl
        · rw [Function.update_of_ne here, if_neg fun both => here both.1.symm]
          rfl

/-- The rows that the loop of `read` has passed are the ones that the mask selects. -/
theorem readRows_getLsbD (keyboard : Keyboard) (mask : BitVec 32) (b count : Nat) :
    ∀ (i : Nat) (result : Byte), i + count ≤ 8 →
      ((keyboard.readRows (List.range' i count) (mask.sshiftRight i) result).getLsbD b = true ↔
        result.getLsbD b = true ∨ ∃ row, i ≤ row ∧ row < i + count ∧
          mask.getLsbD row = true ∧ (keyboard.matrix row).getLsbD b = true) := by
  induction count with
  | zero =>
    intro i result _
    refine (or_iff_left ?_).symm
    rintro ⟨row, least, below, -⟩
    omega
  | succ count inductionHypothesis =>
    intro i result inside
    have selected : mask.sshiftRight i &&& 1 ≠ 0 ↔ mask.getLsbD i = true := by
      have low : (mask.sshiftRight i).getLsbD 0 = mask.getLsbD i := by
        rw [BitVec.getLsbD_sshiftRight]
        simp [show i < 32 by omega]
      have one : (1 : BitVec 32) = 1#32 := rfl
      rw [one, BitVec.and_one_eq_setWidth_ofBool_getLsbD, low]
      cases mask.getLsbD i <;> decide
    rw [List.range'_succ]
    unfold Keyboard.readRows
    rw [← BitVec.sshiftRight_add, inductionHypothesis (i + 1) _ (by omega)]
    have step : ((if mask.sshiftRight i &&& 1 ≠ 0 then result ||| keyboard.matrix i
        else result).getLsbD b = true) ↔ result.getLsbD b = true ∨
          mask.getLsbD i = true ∧ (keyboard.matrix i).getLsbD b = true := by
      by_cases here : mask.getLsbD i = true
      · rw [if_pos (selected.mpr here), BitVec.getLsbD_or, Bool.or_eq_true]
        exact or_congr_right (and_iff_right here).symm
      · rw [if_neg fun on => here (selected.mp on)]
        exact (or_iff_left fun both => here both.1).symm
    rw [step, or_assoc]
    refine or_congr_right ⟨?_, ?_⟩
    · rintro (⟨on, set⟩ | ⟨row, least, below, on, set⟩)
      · exact ⟨i, le_refl i, by omega, on, set⟩
      · exact ⟨row, by omega, by omega, on, set⟩
    · rintro ⟨row, least, below, on, set⟩
      by_cases same : row = i
      · subst same
        exact Or.inl ⟨on, set⟩
      · exact Or.inr ⟨row, by omega, by omega, on, set⟩

/-- `read` lowers the bits that are set in a selected row. -/
theorem read_getLsbD (keyboard : Keyboard) (mask : BitVec 32) {b : Nat} (small : b < 8) :
    (keyboard.read mask).getLsbD b = false ↔
      ∃ row < 8, mask.getLsbD row = true ∧ keyboard.lit (.cell row b) = true := by
  have rows := readRows_getLsbD keyboard mask b 8 0 0 (by omega)
  rw [BitVec.sshiftRight_zero, ← List.range_eq_range'] at rows
  have inverted : (keyboard.read mask).getLsbD b =
      !(keyboard.readRows (List.range 8) mask 0).getLsbD b := by
    unfold Keyboard.read
    have ones : (0xff : BitVec 32).getLsbD b = true := by
      interval_cases b <;> rfl
    rw [BitVec.getLsbD_and, BitVec.getLsbD_not, BitVec.getLsbD_setWidth, ones]
    simp [show b < 32 by omega]
  rw [inverted, Bool.not_eq_false', rows]
  constructor
  · rintro (zero | ⟨row, -, below, on, set⟩)
    · rw [show (0 : Byte) = 0#8 from rfl, BitVec.getLsbD_zero] at zero
      exact absurd zero Bool.false_ne_true
    · exact ⟨row, by omega, on, set⟩
  · rintro ⟨row, below, on, set⟩
    exact Or.inr ⟨row, by omega, by omega, on, set⟩

theorem keyboardAfter_concat (version : KeyboardVersion) (events : List KeyEvent)
    (event : KeyEvent) : keyboardAfter version (events ++ [event]) =
      (keyboardAfter version events).applyKey version event.code event.keyup := by
  unfold keyboardAfter
  rw [List.foldl_concat]

theorem held_concat (events : List KeyEvent) (event : KeyEvent) (code : Scancode) :
    held (events ++ [event]) code =
      if event.code = code then !event.keyup else held events code := by
  unfold held
  rw [List.foldl_concat]

/-- The row and the bit of a matrix key. -/
theorem cell_small {version : KeyboardVersion} {code : Scancode} {row bit : Nat}
    (place : keySpot version code = some (.cell row bit)) : row < 8 ∧ bit < 8 := by
  unfold keySpot at place
  split at place
  · cases place
  · cases place
  · cases place
  · cases place
  · cases place
  · cases place
  · obtain ⟨colbit, found, same⟩ := Option.map_eq_some_iff.mp place
    obtain ⟨rfl, rfl⟩ := KeySpot.cell.inj same
    have bounds := keymap_of_some found
    exact ⟨bounds.1, bounds.2.1⟩

/-- Each place is set exactly while one of its keys is held. -/
def LitExactly (version : KeyboardVersion) (events : List KeyEvent) (keyboard : Keyboard) : Prop :=
  ∀ spot, keyboard.lit spot = true ↔
    ∃ code, held events code = true ∧ keySpot version code = some spot

theorem LitExactly.showsHeld {version : KeyboardVersion} {events : List KeyEvent}
    {keyboard : Keyboard} (exactly : LitExactly version events keyboard) :
    ShowsHeld version events keyboard where
  read := by
    intro mask b small
    rw [read_getLsbD keyboard mask small]
    constructor
    · rintro ⟨row, -, on, set⟩
      obtain ⟨code, down, place⟩ := (exactly _).mp set
      exact ⟨code, row, down, place, on⟩
    · rintro ⟨code, row, down, place, on⟩
      exact ⟨row, (cell_small place).1, on, (exactly _).mpr ⟨code, down, place⟩⟩
  ss := exactly .ss
  us := exactly .us
  rus := exactly .rus

/-- What the keyboard shows says of the place of any key whether it is set. -/
theorem ShowsHeld.lit {version : KeyboardVersion} {events : List KeyEvent} {keyboard : Keyboard}
    (shows : ShowsHeld version events keyboard) {code : Scancode} {spot : KeySpot}
    (place : keySpot version code = some spot) (down : held events code = true) :
    keyboard.lit spot = true := by
  cases spot with
  | ss => exact shows.ss.mpr ⟨code, down, place⟩
  | us => exact shows.us.mpr ⟨code, down, place⟩
  | rus => exact shows.rus.mpr ⟨code, down, place⟩
  | cell row bit =>
    obtain ⟨rowSmall, bitSmall⟩ := cell_small place
    have on : (BitVec.twoPow 32 row).getLsbD row = true := by
      rw [BitVec.getLsbD_twoPow]
      simp [show row < 32 by omega]
    have low := (shows.read (BitVec.twoPow 32 row) bit bitSmall).mpr
      ⟨code, row, down, place, on⟩
    obtain ⟨other, -, selected, set⟩ := (read_getLsbD keyboard _ bitSmall).mp low
    rw [BitVec.getLsbD_twoPow, Bool.and_eq_true, decide_eq_true_eq, decide_eq_true_eq] at selected
    rw [selected.2]
    exact set

/-- Without a release that is shared, every place stays exact. -/
theorem litExactly_of_neverShared {version : KeyboardVersion} {events : List KeyEvent}
    (apart : NeverShared version events) (before : List KeyEvent) :
    ∀ after, events = before ++ after →
      LitExactly version before (keyboardAfter version before) := by
  induction before using List.reverseRecOn with
  | nil =>
    intro after _ spot
    refine iff_of_false ?_ ?_
    · cases spot with
      | ss => exact Bool.false_ne_true
      | us => exact Bool.false_ne_true
      | rus => exact Bool.false_ne_true
      | cell row bit =>
        show ¬ (0#8).getLsbD bit = true
        rw [BitVec.getLsbD_zero]
        exact Bool.false_ne_true
    · rintro ⟨code, down, -⟩
      exact Bool.false_ne_true down
  | append_singleton front event inductionHypothesis =>
    intro after whole spot
    have earlier := inductionHypothesis (event :: after) (by rw [whole, List.append_assoc]; rfl)
    rw [keyboardAfter_concat, lit_applyKey]
    by_cases here : keySpot version event.code = some spot
    · rw [if_pos here]
      cases up : event.keyup with
      | false =>
        refine iff_of_true rfl ⟨event.code, ?_, here⟩
        rw [held_concat, if_pos rfl, up]
        rfl
      | true =>
        refine iff_of_false Bool.false_ne_true ?_
        rintro ⟨code, down, place⟩
        rw [held_concat] at down
        by_cases same : event.code = code
        · rw [if_pos same, up] at down
          exact Bool.false_ne_true down
        · rw [if_neg same] at down
          have released : events = front ++ { code := event.code, keyup := true } :: after := by
            rw [whole, List.append_assoc, ← up]
            rfl
          have clear := apart front event.code after released spot here code
            (fun eq => same eq.symm) place
          exact Bool.false_ne_true (clear.symm.trans down)
    · rw [if_neg here, earlier spot]
      refine exists_congr fun code => and_congr_left fun place => ?_
      have other : event.code ≠ code := fun same => here (same ▸ place)
      rw [held_concat, if_neg other]

/-- The keyboard shows exactly the held keys, after every event, if and only if no key is released
while another key with its place is held. -/
theorem keyboard_showsHeld_iff (version : KeyboardVersion) (events : List KeyEvent) :
    (∀ before after, events = before ++ after →
      ShowsHeld version before (keyboardAfter version before)) ↔ NeverShared version events := by
  constructor
  · intro shows before code after whole spot place other different shared
    by_contra down
    have still : held (before ++ [{ code, keyup := true }]) other = true := by
      rw [held_concat, if_neg (Ne.symm different)]
      exact Bool.eq_true_of_not_eq_false down
    have set := (shows (before ++ [{ code, keyup := true }]) after
      (by rw [whole, List.append_assoc]; rfl)).lit shared still
    rw [keyboardAfter_concat, lit_applyKey, if_pos place] at set
    exact Bool.false_ne_true set
  · intro apart before after whole
    exact (litExactly_of_neverShared apart before after whole).showsHeld

/-- The grave accent and X are pressed, and X is released. -/
def graveAndX : List KeyEvent :=
  [{ code := .grave, keyup := false }, { code := .x, keyup := false },
    { code := .x, keyup := true }]

/-- The grave accent has the place of X, so its bit is gone while it is held. -/
theorem graveAndX_released :
    ¬ ShowsHeld .sdl graveAndX (keyboardAfter .sdl graveAndX) := by
  intro shows
  have set := shows.lit (show keySpot .sdl .grave = some (.cell 7 0) from rfl) rfl
  exact Bool.false_ne_true set

end VectorDebugger
