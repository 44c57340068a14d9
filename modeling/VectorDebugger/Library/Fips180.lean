import Mathlib.Algebra.Group.Nat.Defs
import Mathlib.Data.Nat.Find
import Mathlib.Data.Nat.Sqrt

/-!
# SHA-256

The hash function of FIPS 180-4: padding to whole blocks of 64 bytes, the message schedule, the
compression of one block, and the digest of a message. The constants are the fractional parts of
roots of the first primes.
-/

namespace VectorDebugger.Fips180

/-- A word of the hash computation. -/
abbrev Word := BitVec 32

/-- A byte of a message. -/
abbrev Byte := BitVec 8

/-- The first 64 primes. -/
def primes : List Nat :=
  [2, 3, 5, 7, 11, 13, 17, 19, 23, 29, 31, 37, 41, 43, 47, 53,
    59, 61, 67, 71, 73, 79, 83, 89, 97, 101, 103, 107, 109, 113, 127, 131,
    137, 139, 149, 151, 157, 163, 167, 173, 179, 181, 191, 193, 197, 199, 211, 223,
    227, 229, 233, 239, 241, 251, 257, 263, 269, 271, 277, 281, 283, 293, 307, 311]

/-- The greatest number whose cube is not above `n`. -/
def cubeRoot (n : Nat) : Nat := Nat.findGreatest (fun c => c ^ 3 ≤ n) n

theorem cubeRoot_eq {n c : Nat} (low : c ^ 3 ≤ n) (high : n < (c + 1) ^ 3) : cubeRoot n = c := by
  unfold cubeRoot
  refine Nat.findGreatest_eq_iff.mpr ⟨?_, fun _ => low, ?_⟩
  · exact Nat.le_trans (Nat.le_self_pow (show 3 ≠ 0 by decide) c) low
  · intro more above _ small
    have step := Nat.pow_le_pow_left (Nat.succ_le_of_lt above) 3
    exact absurd (Nat.le_trans step small) (Nat.not_le_of_lt high)

/-- The first 32 bits of the fractional part of the cube root of a prime. -/
def K (t : Nat) : Word := BitVec.ofNat 32 (cubeRoot (primes.getD t 0 * 2 ^ 96))

/-- The eight words of a hash value, or the working variables. -/
structure Hash where
  (a b c d e f g h : Word)
deriving DecidableEq, Repr

/-- The first 32 bits of the fractional part of the square root of a prime. -/
def initialWord (t : Nat) : Word := BitVec.ofNat 32 (Nat.sqrt (primes.getD t 0 * 2 ^ 64))

/-- The initial hash value. -/
def initialHash : Hash where
  a := initialWord 0
  b := initialWord 1
  c := initialWord 2
  d := initialWord 3
  e := initialWord 4
  f := initialWord 5
  g := initialWord 6
  h := initialWord 7

/-- `Ch`. -/
def Ch (x y z : Word) : Word := (x &&& y) ^^^ (~~~x &&& z)

/-- `Maj`. -/
def Maj (x y z : Word) : Word := (x &&& y) ^^^ (x &&& z) ^^^ (y &&& z)

/-- `Σ₀`. -/
def Sum0 (x : Word) : Word := x.rotateRight 2 ^^^ x.rotateRight 13 ^^^ x.rotateRight 22

/-- `Σ₁`. -/
def Sum1 (x : Word) : Word := x.rotateRight 6 ^^^ x.rotateRight 11 ^^^ x.rotateRight 25

/-- `σ₀`. -/
def sigma0 (x : Word) : Word := x.rotateRight 7 ^^^ x.rotateRight 18 ^^^ x >>> 3

/-- `σ₁`. -/
def sigma1 (x : Word) : Word := x.rotateRight 17 ^^^ x.rotateRight 19 ^^^ x >>> 10

/-- The message schedule of a block. -/
def schedule (block : Nat → Word) (t : Nat) : Word :=
  if t < 16 then block t
  else
    sigma1 (schedule block (t - 2)) + schedule block (t - 7) + sigma0 (schedule block (t - 15)) +
      schedule block (t - 16)
termination_by t

/-- One round. -/
def round (block : Nat → Word) (v : Hash) (t : Nat) : Hash :=
  let T1 := v.h + Sum1 v.e + Ch v.e v.f v.g + K t + schedule block t
  let T2 := Sum0 v.a + Maj v.a v.b v.c
  { a := T1 + T2, b := v.a, c := v.b, d := v.c, e := v.d + T1, f := v.e, g := v.f, h := v.g }

/-- The hash value after one block. -/
def compress (H : Hash) (block : Nat → Word) : Hash :=
  let v := (List.range 64).foldl (round block) H
  { a := v.a + H.a, b := v.b + H.b, c := v.c + H.c, d := v.d + H.d
    e := v.e + H.e, f := v.f + H.f, g := v.g + H.g, h := v.h + H.h }

/-- The words of a block, big-endian. -/
def blockWords (bytes : List Byte) (t : Nat) : Word :=
  bytes.getD (4 * t) 0 ++ bytes.getD (4 * t + 1) 0 ++ bytes.getD (4 * t + 2) 0 ++
    bytes.getD (4 * t + 3) 0

/-- The hash value after all whole blocks. -/
def hashBlocks (H : Hash) (bytes : List Byte) : Hash :=
  if 64 ≤ bytes.length then
    hashBlocks (compress H (blockWords (bytes.take 64))) (bytes.drop 64)
  else H
termination_by bytes.length
decreasing_by
  rw [List.length_drop]
  omega

/-- The length of a message in bits, as 64 bits, big-endian. -/
def lengthBytes (length : Nat) : List Byte :=
  (List.range 8).map fun i => ((BitVec.ofNat 64 (8 * length)) >>> (8 * (7 - i))).setWidth 8

/-- The padded message: a bit 1, as few zeros as fill up to 8 bytes before a block's end, and the
length. -/
def pad (message : List Byte) : List Byte :=
  message ++ 0x80 :: List.replicate ((119 - message.length % 64) % 64) 0 ++
    lengthBytes message.length

/-- The bytes of a word, big-endian. -/
def wordBytes (x : Word) : List Byte :=
  [(x >>> 24).setWidth 8, (x >>> 16).setWidth 8, (x >>> 8).setWidth 8, x.setWidth 8]

/-- The message digest. -/
def sha256 (message : List Byte) : List Byte :=
  let H := hashBlocks initialHash (pad message)
  [H.a, H.b, H.c, H.d, H.e, H.f, H.g, H.h].flatMap wordBytes

/-! ## Blocks one after another -/

/-- The bytes behind the last whole block. -/
def rest (bytes : List Byte) : List Byte := bytes.drop (64 * (bytes.length / 64))

theorem rest_of_short {bytes : List Byte} (short : bytes.length < 64) : rest bytes = bytes := by
  unfold rest
  rw [Nat.div_eq_of_lt short]
  rfl

theorem length_rest (bytes : List Byte) : (rest bytes).length = bytes.length % 64 := by
  unfold rest
  rw [List.length_drop]
  omega

theorem rest_drop {bytes : List Byte} (long : 64 ≤ bytes.length) :
    rest (bytes.drop 64) = rest bytes := by
  unfold rest
  rw [List.drop_drop, List.length_drop]
  congr 1
  omega

theorem hashBlocks_of_short (H : Hash) {bytes : List Byte} (short : bytes.length < 64) :
    hashBlocks H bytes = H := by
  rw [hashBlocks, if_neg (Nat.not_le_of_lt short)]

theorem hashBlocks_of_le (H : Hash) {bytes : List Byte} (long : 64 ≤ bytes.length) :
    hashBlocks H bytes = hashBlocks (compress H (blockWords (bytes.take 64))) (bytes.drop 64) := by
  rw [hashBlocks, if_pos long]

/-- More bytes are hashed after what is left of the first ones. -/
theorem hashBlocks_append (bytes more : List Byte) :
    ∀ H, hashBlocks H (bytes ++ more) = hashBlocks (hashBlocks H bytes) (rest bytes ++ more) ∧
      rest (bytes ++ more) = rest (rest bytes ++ more) := by
  induction size : bytes.length using Nat.strong_induction_on generalizing bytes with
  | _ n inductionHypothesis =>
    intro H
    by_cases long : 64 ≤ bytes.length
    · have both : 64 ≤ (bytes ++ more).length := by
        rw [List.length_append]
        omega
      obtain ⟨hashed, left⟩ := inductionHypothesis (n - 64) (by omega) (bytes.drop 64)
        (by rw [List.length_drop, size]) (compress H (blockWords (bytes.take 64)))
      rw [rest_drop long] at hashed left
      rw [hashBlocks_of_le H both, hashBlocks_of_le H long, List.take_append_of_le_length long,
        List.drop_append_of_le_length long]
      refine ⟨hashed, ?_⟩
      rw [← rest_drop both, List.drop_append_of_le_length long, left]
    · have short : bytes.length < 64 := Nat.lt_of_not_le long
      rw [hashBlocks_of_short H short, rest_of_short short]
      exact ⟨rfl, rfl⟩

theorem length_lengthBytes (length : Nat) : (lengthBytes length).length = 8 := by
  unfold lengthBytes
  rw [List.length_map, List.length_range]

/-- A padded message is whole blocks. -/
theorem length_pad (message : List Byte) : (pad message).length % 64 = 0 := by
  unfold pad
  rw [List.length_append, List.length_append, List.length_cons, List.length_replicate,
    length_lengthBytes]
  omega

end VectorDebugger.Fips180
