import VectorDebugger.Library.Fips180
import VectorDebugger.Debugger.RdbText

/-!
# SHA-256 context

`Sha256` collects bytes in a buffer of one block and transforms it whenever it is full. Whatever the
pieces are, the digest is that of the whole message, and a context that has been finalized starts
again.
-/

namespace VectorDebugger

open Fips180 (Hash)

/-- `Sha256`. What the buffer holds is short of a block between two calls. -/
structure Sha256 where
  /-- `state_`. -/
  state : Hash
  /-- The first `bufferLen_` bytes of `buffer_`. -/
  buffer : List Byte
  /-- `totalLen_`. -/
  totalLen : BitVec 64
  /-- `bufferLen_` is below 64. -/
  short : buffer.length < 64

namespace Sha256

/-- The constants of the source. -/
def K : List (BitVec 32) :=
  [0x428a2f98, 0x71374491, 0xb5c0fbcf, 0xe9b5dba5,
    0x3956c25b, 0x59f111f1, 0x923f82a4, 0xab1c5ed5,
    0xd807aa98, 0x12835b01, 0x243185be, 0x550c7dc3,
    0x72be5d74, 0x80deb1fe, 0x9bdc06a7, 0xc19bf174,
    0xe49b69c1, 0xefbe4786, 0x0fc19dc6, 0x240ca1cc,
    0x2de92c6f, 0x4a7484aa, 0x5cb0a9dc, 0x76f988da,
    0x983e5152, 0xa831c66d, 0xb00327c8, 0xbf597fc7,
    0xc6e00bf3, 0xd5a79147, 0x06ca6351, 0x14292967,
    0x27b70a85, 0x2e1b2138, 0x4d2c6dfc, 0x53380d13,
    0x650a7354, 0x766a0abb, 0x81c2c92e, 0x92722c85,
    0xa2bfe8a1, 0xa81a664b, 0xc24b8b70, 0xc76c51a3,
    0xd192e819, 0xd6990624, 0xf40e3585, 0x106aa070,
    0x19a4c116, 0x1e376c08, 0x2748774c, 0x34b0bcb5,
    0x391c0cb3, 0x4ed8aa4a, 0x5b9cca4f, 0x682e6ff3,
    0x748f82ee, 0x78a5636f, 0x84c87814, 0x8cc70208,
    0x90befffa, 0xa4506ceb, 0xbef9a3f7, 0xc67178f2]

/-- `rotr`. -/
def rotr (x : BitVec 32) (n : Nat) : BitVec 32 := (x >>> n) ||| (x <<< (32 - n))

/-- `ch`. -/
def ch (x y z : BitVec 32) : BitVec 32 := (x &&& y) ^^^ (~~~x &&& z)

/-- `maj`. -/
def maj (x y z : BitVec 32) : BitVec 32 := (x &&& y) ^^^ (x &&& z) ^^^ (y &&& z)

/-- `Sigma0`. -/
def Sigma0 (x : BitVec 32) : BitVec 32 := rotr x 2 ^^^ rotr x 13 ^^^ rotr x 22

/-- `Sigma1`. -/
def Sigma1 (x : BitVec 32) : BitVec 32 := rotr x 6 ^^^ rotr x 11 ^^^ rotr x 25

/-- `gamma0`. -/
def gamma0 (x : BitVec 32) : BitVec 32 := rotr x 7 ^^^ rotr x 18 ^^^ (x >>> 3)

/-- `gamma1`. -/
def gamma1 (x : BitVec 32) : BitVec 32 := rotr x 17 ^^^ rotr x 19 ^^^ (x >>> 10)

/-- `readBE32`. -/
def readBE32 (p : List Byte) (at' : Nat) : BitVec 32 :=
  ((p.getD at' 0).setWidth 32 <<< 24) ||| ((p.getD (at' + 1) 0).setWidth 32 <<< 16) |||
    ((p.getD (at' + 2) 0).setWidth 32 <<< 8) ||| (p.getD (at' + 3) 0).setWidth 32

/-- `writeBE32`. -/
def writeBE32 (v : BitVec 32) : List Byte :=
  [(v >>> 24).setWidth 8, (v >>> 16).setWidth 8, (v >>> 8).setWidth 8, v.setWidth 8]

/-- The loop of `writeBE64`, which goes from the last byte to the first. -/
def writeBE : Nat → BitVec 64 → List Byte → List Byte
  | 0, _, p => p
  | i + 1, v, p => writeBE i (v >>> 8) ((v &&& 0xff).setWidth 8 :: p)

/-- `writeBE64`. -/
def writeBE64 (v : BitVec 64) : List Byte := writeBE 8 v []

/-- The initial `state_`. -/
def initialState : Hash where
  a := 0x6a09e667
  b := 0xbb67ae85
  c := 0x3c6ef372
  d := 0xa54ff53a
  e := 0x510e527f
  f := 0x9b05688c
  g := 0x1f83d9ab
  h := 0x5be0cd19

/-- `Sha256::Sha256`. -/
def init : Sha256 where
  state := initialState
  buffer := []
  totalLen := 0
  short := by decide

/-- The second loop on `w`, from its element 16 on. -/
def extend (w : List (BitVec 32)) : List (BitVec 32) :=
  (List.range' 16 48).foldl
    (fun w i => w ++ [gamma1 (w.getD (i - 2) 0) + w.getD (i - 7) 0 +
      gamma0 (w.getD (i - 15) 0) + w.getD (i - 16) 0]) w

/-- The loop over the rounds. -/
def mix (w : List (BitVec 32)) (v : Hash) (i : Nat) : Hash :=
  let t1 := v.h + Sigma1 v.e + ch v.e v.f v.g + K.getD i 0 + w.getD i 0
  let t2 := Sigma0 v.a + maj v.a v.b v.c
  { h := v.g, g := v.f, f := v.e, e := v.d + t1, d := v.c, c := v.b, b := v.a, a := t1 + t2 }

/-- `Sha256::transform`, on the state. -/
def transform (state : Hash) (block : List Byte) : Hash :=
  let w := extend ((List.range 16).map fun i => readBE32 block (i * 4))
  let v := (List.range 64).foldl (mix w) state
  { a := state.a + v.a, b := state.b + v.b, c := state.c + v.c, d := state.d + v.d
    e := state.e + v.e, f := state.f + v.f, g := state.g + v.g, h := state.h + v.h }

/-- The loop of `Sha256::update`. -/
def fill (ctx : Sha256) (data : List Byte) : Sha256 :=
  if data.length > 0 then
    let space := 64 - ctx.buffer.length
    let copy := if data.length < space then data.length else space
    let buffer := ctx.buffer ++ data.take copy
    if full : buffer.length = 64 then
      fill { ctx with state := transform ctx.state buffer, buffer := [], short := by decide }
        (data.drop copy)
    else
      fill
        { ctx with
          buffer
          short := by
            have below := ctx.short
            have copied : copy ≤ space := by
              show (if data.length < space then data.length else space) ≤ space
              split <;> omega
            have room : buffer.length ≤ 64 := by
              show (ctx.buffer ++ data.take copy).length ≤ 64
              rw [List.length_append, List.length_take]
              omega
            omega }
        (data.drop copy)
  else ctx
termination_by data.length
decreasing_by
  all_goals
    have below := ctx.short
    rw [List.length_drop]
    split <;> omega

/-- `Sha256::update`. -/
def update (ctx : Sha256) (data : List Byte) : Sha256 :=
  fill { ctx with totalLen := ctx.totalLen + BitVec.ofNat 64 data.length } data

/-! ## One block -/

theorem rotr_eq (x : BitVec 32) {n : Nat} (small : n < 32) : rotr x n = x.rotateRight n := by
  rw [BitVec.rotateRight_def, Nat.mod_eq_of_lt small]
  rfl

theorem Sigma0_eq (x : BitVec 32) : Sigma0 x = Fips180.Sum0 x := by
  unfold Sigma0 Fips180.Sum0
  rw [rotr_eq x (by decide), rotr_eq x (by decide), rotr_eq x (by decide)]

theorem Sigma1_eq (x : BitVec 32) : Sigma1 x = Fips180.Sum1 x := by
  unfold Sigma1 Fips180.Sum1
  rw [rotr_eq x (by decide), rotr_eq x (by decide), rotr_eq x (by decide)]

theorem gamma0_eq (x : BitVec 32) : gamma0 x = Fips180.sigma0 x := by
  unfold gamma0 Fips180.sigma0
  rw [rotr_eq x (by decide), rotr_eq x (by decide)]

theorem gamma1_eq (x : BitVec 32) : gamma1 x = Fips180.sigma1 x := by
  unfold gamma1 Fips180.sigma1
  rw [rotr_eq x (by decide), rotr_eq x (by decide)]

/-- The whole part of the cube root of the prime with the index `t`. -/
def wholePart (t : Nat) : Nat :=
  if t < 4 then 1 else if t < 9 then 2 else if t < 18 then 3 else if t < 30 then 4
  else if t < 47 then 5 else 6

/-- A fraction behind a whole part. -/
theorem ofNat_fraction (whole : Nat) (x : BitVec 32) :
    BitVec.ofNat 32 (whole * 2 ^ 32 + x.toNat) = x := by
  refine BitVec.eq_of_toNat_eq ?_
  rw [BitVec.toNat_ofNat, Nat.mul_add_mod', Nat.mod_eq_of_lt x.isLt]

/-- The constants are the fractional parts of the cube roots of the first primes. -/
theorem K_eq {t : Nat} (small : t < 64) : K.getD t 0 = Fips180.K t := by
  have between : ∀ t : Fin 64,
      (wholePart t * 2 ^ 32 + (K.getD t 0).toNat) ^ 3 ≤ Fips180.primes.getD t 0 * 2 ^ 96 ∧
        Fips180.primes.getD t 0 * 2 ^ 96 <
          (wholePart t * 2 ^ 32 + (K.getD t 0).toNat + 1) ^ 3 := by decide
  obtain ⟨low, high⟩ := between ⟨t, small⟩
  unfold Fips180.K
  rw [Fips180.cubeRoot_eq low high, ofNat_fraction]

/-- A word of the initial state is the fractional part of a square root. -/
theorem initialWord_eq {t : Nat} (whole : Nat) {x : BitVec 32}
    (low : (whole * 2 ^ 32 + x.toNat) * (whole * 2 ^ 32 + x.toNat) ≤
      Fips180.primes.getD t 0 * 2 ^ 64)
    (high : Fips180.primes.getD t 0 * 2 ^ 64 <
      (whole * 2 ^ 32 + x.toNat + 1) * (whole * 2 ^ 32 + x.toNat + 1)) :
    x = Fips180.initialWord t := by
  unfold Fips180.initialWord
  rw [← Nat.eq_sqrt.mpr ⟨low, high⟩, ofNat_fraction]

theorem initialState_eq : initialState = Fips180.initialHash := by
  unfold initialState Fips180.initialHash
  rw [Hash.mk.injEq]
  exact ⟨initialWord_eq 1 (by decide) (by decide), initialWord_eq 1 (by decide) (by decide),
    initialWord_eq 2 (by decide) (by decide), initialWord_eq 2 (by decide) (by decide),
    initialWord_eq 3 (by decide) (by decide), initialWord_eq 3 (by decide) (by decide),
    initialWord_eq 4 (by decide) (by decide), initialWord_eq 4 (by decide) (by decide)⟩

/-- Four bytes, shifted together. -/
theorem readBE32_eq (block : List Byte) (t : Nat) :
    readBE32 block (t * 4) = Fips180.blockWords block t := by
  unfold readBE32 Fips180.blockWords
  rw [Nat.mul_comm t 4]
  generalize block.getD (4 * t) 0 = p
  generalize block.getD (4 * t + 1) 0 = q
  generalize block.getD (4 * t + 2) 0 = r
  generalize block.getD (4 * t + 3) 0 = s
  refine BitVec.eq_of_getLsbD_eq fun i below => ?_
  simp only [BitVec.getLsbD_or, BitVec.getLsbD_shiftLeft, BitVec.getLsbD_setWidth,
    BitVec.getLsbD_append]
  by_cases first : i < 8
  · simp [first, show i < 32 by omega, show i < 24 by omega, show i < 16 by omega]
  · have none := BitVec.getLsbD_of_ge s i (by omega)
    by_cases second : i < 16
    · simp [first, second, none, show i < 32 by omega, show i < 24 by omega,
        show i - 8 < 32 by omega, show i - 8 < 8 by omega]
    · have none' := BitVec.getLsbD_of_ge r (i - 8) (by omega)
      by_cases third : i < 24
      · simp [first, second, third, none, none', show i < 32 by omega, show i - 16 < 32 by omega,
          show ¬ i - 8 < 8 by omega, show i - 8 - 8 = i - 16 by omega, show i - 16 < 8 by omega]
      · have none'' := BitVec.getLsbD_of_ge q (i - 16) (by omega)
        simp [first, second, third, none, none', none'', show i < 32 by omega,
          show i - 24 < 32 by omega, show ¬ i - 8 < 8 by omega, show ¬ i - 16 < 8 by omega,
          show i - 8 - 8 = i - 16 by omega, show i - 16 - 8 = i - 24 by omega]

/-- The loop that extends `w` computes the message schedule. -/
theorem extend_eq (w : List (BitVec 32)) (block : Nat → BitVec 32) (length : w.length = 16)
    (front : ∀ j < 16, w.getD j 0 = block j) :
    ∀ t < 64, (extend w).getD t 0 = Fips180.schedule block t := by
  have upTo : ∀ count, ∃ words, (List.range' 16 count).foldl
      (fun w i => w ++ [gamma1 (w.getD (i - 2) 0) + w.getD (i - 7) 0 +
        gamma0 (w.getD (i - 15) 0) + w.getD (i - 16) 0]) w = words ∧
      words.length = 16 + count ∧ ∀ t < 16 + count, words.getD t 0 = Fips180.schedule block t := by
    intro count
    induction count with
    | zero =>
      refine ⟨w, rfl, length, fun t below => ?_⟩
      rw [Fips180.schedule, if_pos below]
      exact front t below
    | succ count inductionHypothesis =>
      obtain ⟨words, folded, long, known⟩ := inductionHypothesis
      refine ⟨_, rfl, ?_, ?_⟩
      · rw [List.range'_1_concat, List.foldl_concat, folded, List.length_append, long]
        rfl
      · intro t below
        rw [List.range'_1_concat, List.foldl_concat, folded]
        by_cases last : t = 16 + count
        · have here : t = words.length := last.trans long.symm
          rw [here, List.getD_append_right _ _ _ _ (le_refl _), Nat.sub_self, long,
            known _ (by omega), known _ (by omega), known _ (by omega), known _ (by omega),
            gamma0_eq, gamma1_eq]
          conv_rhs => rw [Fips180.schedule, if_neg (show ¬ 16 + count < 16 by omega)]
          rfl
        · rw [List.getD_append _ _ _ _ (by omega)]
          exact known t (by omega)
  intro t below
  obtain ⟨words, folded, -, known⟩ := upTo 48
  have same : extend w = words := folded
  rw [same]
  exact known t below

/-- One block is compressed as the standard says. -/
theorem transform_eq (state : Hash) (block : List Byte) :
    transform state block = Fips180.compress state (Fips180.blockWords block) := by
  have w : ∀ t < 64, (extend ((List.range 16).map fun i => readBE32 block (i * 4))).getD t 0 =
      Fips180.schedule (Fips180.blockWords block) t := by
    refine extend_eq _ _ (by rw [List.length_map, List.length_range]) fun j below => ?_
    rw [List.getD_eq_getElem?_getD, List.getElem?_map, List.getElem?_range below,
      Option.map_some, Option.getD_some, readBE32_eq]
  have rounds : (List.range 64).foldl
        (mix (extend ((List.range 16).map fun i => readBE32 block (i * 4)))) state =
      (List.range 64).foldl (Fips180.round (Fips180.blockWords block)) state := by
    refine List.foldl_ext _ _ _ fun v i inside => ?_
    have below := List.mem_range.mp inside
    unfold mix Fips180.round
    rw [w i below, K_eq below, Sigma0_eq, Sigma1_eq]
    rfl
  unfold transform Fips180.compress
  dsimp only
  rw [rounds]
  simp only [BitVec.add_comm]

/-! ## Updates -/

/-- The loop hashes the whole blocks of what it has and keeps the rest. -/
theorem fill_spec (data : List Byte) : ∀ ctx : Sha256,
    (ctx.fill data).state = Fips180.hashBlocks ctx.state (ctx.buffer ++ data) ∧
      (ctx.fill data).buffer = Fips180.rest (ctx.buffer ++ data) ∧
      (ctx.fill data).totalLen = ctx.totalLen := by
  induction size : data.length using Nat.strong_induction_on generalizing data with
  | _ n inductionHypothesis =>
    intro ctx
    have below := ctx.short
    rw [fill]
    by_cases more : data.length > 0
    · rw [if_pos more]
      dsimp only
      obtain ⟨copy, copyEq⟩ : ∃ copy, copy =
          if data.length < 64 - ctx.buffer.length then data.length
          else 64 - ctx.buffer.length := ⟨_, rfl⟩
      have taken : copy ≤ data.length := by
        rw [copyEq]
        split <;> omega
      have some' : 0 < copy := by
        rw [copyEq]
        split <;> omega
      have room : copy ≤ 64 - ctx.buffer.length := by
        rw [copyEq]
        split <;> omega
      have parts : ctx.buffer ++ data = (ctx.buffer ++ data.take copy) ++ data.drop copy := by
        rw [List.append_assoc, List.take_append_drop]
      have length : (ctx.buffer ++ data.take copy).length = ctx.buffer.length + copy := by
        rw [List.length_append, List.length_take_of_le taken]
      simp only [← copyEq]
      have shorter : (data.drop copy).length = data.length - copy := List.length_drop
      by_cases full : (ctx.buffer ++ data.take copy).length = 64
      · rw [dif_pos full]
        obtain ⟨state, buffer, total⟩ := inductionHypothesis (data.length - copy) (by omega)
          (data.drop copy) shorter
          { ctx with
            state := transform ctx.state (ctx.buffer ++ data.take copy), buffer := []
            short := by decide }
        have long : 64 ≤ (ctx.buffer ++ data).length := by
          rw [parts, List.length_append, full]
          omega
        rw [state, buffer, total, Fips180.hashBlocks_of_le ctx.state long,
          ← Fips180.rest_drop long, transform_eq, parts, List.take_left' full,
          List.drop_left' full]
        exact ⟨rfl, rfl, rfl⟩
      · rw [dif_neg full]
        obtain ⟨state, buffer, total⟩ := inductionHypothesis (data.length - copy) (by omega)
          (data.drop copy) shorter
          { ctx with
            buffer := ctx.buffer ++ data.take copy
            short := by
              rw [length]
              rw [length] at full
              omega }
        rw [state, buffer, total, parts]
        exact ⟨rfl, rfl, rfl⟩
    · rw [if_neg more]
      have none : data = [] := List.eq_nil_of_length_eq_zero (Nat.eq_zero_of_not_pos more)
      rw [none, List.append_nil, Fips180.hashBlocks_of_short _ below, Fips180.rest_of_short below]
      exact ⟨rfl, rfl, rfl⟩

/-- A context that has been fed a message. -/
structure Fed (ctx : Sha256) (message : List Byte) : Prop where
  state : ctx.state = Fips180.hashBlocks Fips180.initialHash message
  buffer : ctx.buffer = Fips180.rest message
  totalLen : ctx.totalLen = BitVec.ofNat 64 message.length

theorem fed_init : init.Fed [] where
  state := by
    rw [Fips180.hashBlocks_of_short _ (by decide)]
    exact initialState_eq
  buffer := (Fips180.rest_of_short (by decide)).symm
  totalLen := rfl

/-- An update feeds one more piece. -/
theorem Fed.update {ctx : Sha256} {message : List Byte} (fed : ctx.Fed message)
    (data : List Byte) : (ctx.update data).Fed (message ++ data) := by
  obtain ⟨state, buffer, total⟩ := fill_spec data
    { ctx with totalLen := ctx.totalLen + BitVec.ofNat 64 data.length }
  obtain ⟨hashed, left⟩ := Fips180.hashBlocks_append message data Fips180.initialHash
  refine ⟨state.trans ?_, buffer.trans ?_, total.trans ?_⟩
  · dsimp only
    rw [hashed, fed.state, fed.buffer]
  · dsimp only
    rw [left, fed.buffer]
  · dsimp only
    rw [fed.totalLen, List.length_append, BitVec.ofNat_add]

theorem Fed.updates (pieces : List (List Byte)) :
    ∀ {ctx : Sha256} {message : List Byte}, ctx.Fed message →
      (pieces.foldl Sha256.update ctx).Fed (message ++ pieces.flatten) := by
  induction pieces with
  | nil =>
    intro ctx message fed
    rw [List.flatten_nil, List.append_nil]
    exact fed
  | cons piece pieces inductionHypothesis =>
    intro ctx message fed
    rw [List.flatten_cons, ← List.append_assoc]
    exact inductionHypothesis (fed.update piece)

/-! ## The digest -/

/-- One byte moves the buffer on by one. -/
theorem length_update_zero (ctx : Sha256) :
    (ctx.update [0]).buffer.length = (ctx.buffer.length + 1) % 64 := by
  obtain ⟨-, buffer, -⟩ := fill_spec [0] { ctx with totalLen := ctx.totalLen + BitVec.ofNat 64 1 }
  have same : (ctx.update [0]).buffer = Fips180.rest (ctx.buffer ++ [0]) := buffer
  rw [same, Fips180.length_rest, List.length_append, List.length_singleton]

/-- The loop of `Sha256::finalize` that pads with zeros. -/
def padZeros (ctx : Sha256) : Sha256 :=
  if ctx.buffer.length = 56 then ctx else padZeros (ctx.update [0])
termination_by (120 - ctx.buffer.length) % 64
decreasing_by
  have below := ctx.short
  rw [length_update_zero]
  omega

/-- `%02x`. -/
def hexByte (byte : Byte) : Text :=
  [byte >>> 4, byte &&& 0xf].map fun digit => if digit < 10 then 0x30 + digit else 0x57 + digit

/-- `Sha256::finalize`: the digest, and the context as it is reset. -/
def finalize (ctx : Sha256) : Text × Sha256 :=
  let bitLen := ctx.totalLen * 8
  let ctx := ((ctx.update [0x80]).padZeros).update (writeBE64 bitLen)
  let state := ctx.state
  (([state.a, state.b, state.c, state.d, state.e, state.f, state.g, state.h].flatMap
      writeBE32).flatMap hexByte,
    init)

/-- The zeros that are fed fill the buffer up to its last eight bytes. -/
theorem Fed.padZeros {ctx : Sha256} : ∀ {message : List Byte}, ctx.Fed message →
    ctx.padZeros.Fed
      (message ++ List.replicate ((120 - message.length % 64) % 64) 0) := by
  induction size : (120 - ctx.buffer.length) % 64 using Nat.strong_induction_on
    generalizing ctx with
  | _ n inductionHypothesis =>
    intro message fed
    have length : ctx.buffer.length = message.length % 64 := by
      rw [fed.buffer, Fips180.length_rest]
    rw [Sha256.padZeros]
    by_cases done : ctx.buffer.length = 56
    · have none : (120 - message.length % 64) % 64 = 0 := by omega
      rw [if_pos done, none, List.replicate_zero, List.append_nil]
      exact fed
    · have below := ctx.short
      have next := length_update_zero ctx
      have later := inductionHypothesis ((120 - (ctx.update [0]).buffer.length) % 64) (by omega)
        rfl (fed.update [0])
      have count : (120 - message.length % 64) % 64 =
          (120 - (message ++ [0]).length % 64) % 64 + 1 := by
        rw [List.length_append, List.length_singleton]
        omega
      rw [if_neg done, count, List.replicate_succ, List.append_cons]
      exact later

/-- The low byte of a number is taken without a mask. -/
theorem low_byte (v : BitVec 64) : (v &&& 0xff).setWidth 8 = v.setWidth 8 := by
  refine BitVec.eq_of_getLsbD_eq fun i below => ?_
  have ones : (0xff : BitVec 64).getLsbD i = true := by
    interval_cases i <;> rfl
  rw [BitVec.getLsbD_setWidth, BitVec.getLsbD_setWidth, BitVec.getLsbD_and, ones, Bool.and_true]

/-- The length is written as the standard says. -/
theorem writeBE64_eq (length : Nat) :
    writeBE64 (BitVec.ofNat 64 length * 8) = Fips180.lengthBytes length := by
  have bits : BitVec.ofNat 64 length * 8 = BitVec.ofNat 64 (8 * length) := by
    rw [Nat.mul_comm, BitVec.ofNat_mul]
    rfl
  rw [bits]
  unfold writeBE64 Fips180.lengthBytes
  generalize BitVec.ofNat 64 (8 * length) = v
  simp only [writeBE, low_byte, ← BitVec.shiftRight_add]
  rfl

/-- The finished context has been fed the padded message. -/
theorem Fed.finalize {ctx : Sha256} {message : List Byte} (fed : ctx.Fed message) :
    ctx.finalize = ((Fips180.sha256 message).flatMap hexByte, init) := by
  have padded := (fed.update [0x80]).padZeros.update (writeBE64 (ctx.totalLen * 8))
  have whole : message ++ [0x80] ++
      List.replicate ((120 - (message ++ [0x80]).length % 64) % 64) 0 ++
        writeBE64 (ctx.totalLen * 8) = Fips180.pad message := by
    have zeros : (120 - (message.length + 1) % 64) % 64 = (119 - message.length % 64) % 64 := by
      omega
    unfold Fips180.pad
    rw [fed.totalLen, writeBE64_eq, List.length_append, List.length_singleton, zeros,
      List.append_assoc message]
    rfl
  rw [whole] at padded
  unfold Sha256.finalize Fips180.sha256
  dsimp only
  rw [padded.state]
  rfl

/-- SHA-256 is SHA-256 however it is fed, and a context that is used again after finalizing gives
the digest of the new data alone. -/
theorem sha256_pieces (pieces more : List (List Byte)) :
    let finished := (pieces.foldl update init).finalize
    finished.1 = (Fips180.sha256 pieces.flatten).flatMap hexByte ∧
      (more.foldl update finished.2).finalize.1 =
        (Fips180.sha256 more.flatten).flatMap hexByte := by
  have first := (fed_init.updates pieces).finalize
  have second := (fed_init.updates more).finalize
  rw [List.nil_append] at first second
  dsimp only
  rw [first]
  exact ⟨rfl, congrArg Prod.fst second⟩

end Sha256

end VectorDebugger
