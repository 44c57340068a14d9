import Mathlib.Data.Finset.Basic
import Mathlib.Data.Nat.Digits.Lemmas
import VectorDebugger.Machine.Memory

/-!
# Names on a disk image

A host file gets a name of eight characters and three. While its name is taken, a number is put
in place of the end of the stem. The extension is cut from the second character on without a test
that there is a first one, the dots of the stem are replaced in a copy only, and a number of eight
digits leaves no room to cut.
-/

namespace VectorDebugger.FilesystemImage

/-- A `std::string` that holds a path or a part of it. -/
abbrev Name := List Byte

/-- `std::toupper` of the C locale. -/
def toupper (c : Byte) : Byte := if 0x61 ≤ c ∧ c ≤ 0x7a then c - 0x20 else c

/-- `std::to_string` of a positive number. -/
def decimal (n : Nat) : Name :=
  (Nat.digits 10 n).reverse.map fun digit => BitVec.ofNat 8 (48 + digit)

/-- The part of a path after its last separator. -/
def fileName (path : Name) : Name :=
  (path.reverse.takeWhile fun c => c != 0x2f && c != 0x5c).reverse

/-- What follows the last dot. -/
def afterDot (name : Name) : Name := (name.reverse.takeWhile (· != 0x2e)).reverse

/-- `util::split_path`, without the directory: the stem, and the extension with its dot. -/
def splitPath (path : Name) : Name × Name :=
  let name := fileName path
  if name.contains 0x2e then
    (name.take (name.length - (afterDot name).length - 1), 0x2e :: afterDot name)
  else (name, [])

/-- `std::string::substr`, which throws from behind the end. -/
def substr (s : Name) (pos len : Nat) : Option Name :=
  if pos > s.length then none else some ((s.drop pos).take len)

/-- `name_sz - nc`, which wraps around from a number of eight digits on. -/
def kept (n : Nat) : Nat :=
  let nc := (decimal n).length + 1
  if nc ≤ 8 then 8 - nc else 2 ^ 64 + 8 - nc

/-- The stem with the number `n` in place of its end. -/
def numbered (stem : Name) (n : Nat) : Name := stem.take (kept n) ++ 0x40 :: decimal n

/-- `stem + "." + ext`. -/
def joined (stem ext : Name) : Name := stem ++ 0x2e :: ext

/-- The loop of `unique_cpm_filename`, with `n` numbers behind it. The counter of the source is an
`int`; the stem is too long for CP/M well before that ends. -/
def retry (taken : Finset Name) (ext : Name) : Nat → Nat → Name → Option Name
  | 0, _, _ => none
  | fuel + 1, n, stem =>
    if joined stem ext ∈ taken then retry taken ext fuel (n + 1) (numbered stem (n + 1))
    else some stem

/-- How `unique_cpm_filename` ends. -/
inductive Naming
  /-- `substr` throws. -/
  | thrown
  /-- The loop has not ended. -/
  | trying
  /-- A stem and an extension. -/
  | named (stem ext : Name)
  deriving DecidableEq, Repr

/-- The upper-case extension without its dot. -/
def cpmExt (filename : Name) : Option Name := substr ((splitPath filename).2.map toupper) 1 3

/-- The extension of a name that has one, cut to three characters. -/
def shortExt (filename : Name) : Name := ((afterDot (fileName filename)).map toupper).take 3

/-- The upper-case stem. -/
def cpmStem (filename : Name) : Name := ((splitPath filename).1.map toupper).take 8

/-- `FilesystemImage::unique_cpm_filename`. `funnychars` changes a copy, so it does nothing. -/
def uniqueCpmFilename (taken : Finset Name) (filename : Name) (fuel : Nat) : Naming :=
  match cpmExt filename with
  | none => .thrown
  | some ext =>
    match retry taken ext fuel 0 (cpmStem filename) with
    | none => .trying
    | some stem => .named stem ext

/-- A name as CP/M has it, which is not taken. -/
structure IsCpmName (taken : Finset Name) (stem ext : Name) : Prop where
  stem_short : stem.length ≤ 8
  ext_short : ext.length ≤ 3
  dot_notMem_stem : 0x2e ∉ stem
  dot_notMem_ext : 0x2e ∉ ext
  free : joined stem ext ∉ taken

/-- A host file gets a name: the loop ends, without an exception, with a fit one. -/
def GetsName (taken : Finset Name) (filename : Name) : Prop :=
  ∃ fuel stem ext, uniqueCpmFilename taken filename fuel = .named stem ext ∧
    IsCpmName taken stem ext

/-- The stems that are tried, one after another. -/
def candidate (stem : Name) : Nat → Name
  | 0 => stem
  | n + 1 => numbered (candidate stem n) (n + 1)

/-- The characters that the number `n` leaves of a stem of eight. -/
def remains (stem : Name) (n : Nat) : Name :=
  if n = 0 then stem else stem.take (kept n)

/-- `n` is the first number whose stem is not taken. -/
structure IsFirstFree (taken : Finset Name) (stem ext : Name) (n : Nat) : Prop where
  free : joined (candidate stem n) ext ∉ taken
  taken_before : ∀ m < n, joined (candidate stem m) ext ∈ taken

/-! ## The loop -/

/-- The loop ends with the first stem that is not taken. -/
theorem retry_eq_some_iff {taken : Finset Name} {stem ext found : Name} (fuel : Nat) :
    ∀ n, (∀ m < n, joined (candidate stem m) ext ∈ taken) →
      (retry taken ext fuel n (candidate stem n) = some found ↔
        ∃ k, n ≤ k ∧ k < n + fuel ∧ IsFirstFree taken stem ext k ∧
          found = candidate stem k) := by
  induction fuel with
  | zero =>
    intro n before
    constructor
    · intro none
      cases none
    · rintro ⟨k, least, below, -⟩
      omega
  | succ fuel inductionHypothesis =>
    intro n before
    unfold retry
    by_cases here : joined (candidate stem n) ext ∈ taken
    · rw [if_pos here]
      have through : ∀ m < n + 1, joined (candidate stem m) ext ∈ taken := by
        intro m below
        rcases Nat.lt_succ_iff_lt_or_eq.mp below with earlier | rfl
        · exact before m earlier
        · exact here
      refine (inductionHypothesis (n + 1) through).trans ⟨?_, ?_⟩
      · rintro ⟨k, least, below, free, rfl⟩
        exact ⟨k, by omega, by omega, free, rfl⟩
      · rintro ⟨k, least, below, free, rfl⟩
        have later : n ≠ k := by
          rintro rfl
          exact free.free here
        exact ⟨k, by omega, by omega, free, rfl⟩
    · rw [if_neg here, Option.some.injEq]
      constructor
      · rintro rfl
        exact ⟨n, le_refl n, by omega, ⟨here, before⟩, rfl⟩
      · rintro ⟨k, least, -, free, rfl⟩
        have same : k = n := by
          by_contra other
          exact here (free.taken_before n (by omega))
        rw [same]

/-! ## Numbers -/

theorem decimal_length_le_iff (n k : Nat) : (decimal n).length ≤ k ↔ n < 10 ^ k := by
  unfold decimal
  rw [List.length_map, List.length_reverse]
  exact Nat.digits_length_le_iff (by decide) n

theorem decimal_length_mono (n : Nat) : (decimal n).length ≤ (decimal (n + 1)).length := by
  have fits := (decimal_length_le_iff (n + 1) _).mp le_rfl
  exact (decimal_length_le_iff n _).mpr (by omega)

theorem dot_notMem_decimal (n : Nat) : 0x2e ∉ decimal n := by
  unfold decimal
  intro dot
  obtain ⟨digit, listed, same⟩ := List.mem_map.mp dot
  have small := Nat.digits_lt_base (show 1 < 10 by decide) (List.mem_reverse.mp listed)
  have value := congrArg BitVec.toNat same
  rw [BitVec.toNat_ofNat] at value
  have there : (0x2e : Byte).toNat = 46 := rfl
  rw [there] at value
  omega

theorem kept_of_lt {n : Nat} (few : n < 10 ^ 7) : kept n = 7 - (decimal n).length := by
  have short := (decimal_length_le_iff n 7).mpr few
  unfold kept
  simp only
  rw [if_pos (by omega)]
  omega

/-! ## What the loop tries -/

/-- Up to seven digits, a stem that is tried is what remains of the first one and then no dot. -/
theorem candidate_eq_append {stem : Name} (n : Nat) (few : n < 10 ^ 7) :
    ∃ rest, candidate stem n = remains stem n ++ rest ∧ 0x2e ∉ rest := by
  induction n with
  | zero => exact ⟨[], (List.append_nil stem).symm, List.not_mem_nil⟩
  | succ n inductionHypothesis =>
    obtain ⟨rest, same, dotless⟩ := inductionHypothesis (by omega)
    have shrinks : (remains stem n).take (kept (n + 1)) = remains stem (n + 1) := by
      unfold remains
      rw [if_neg (Nat.succ_ne_zero n)]
      by_cases first : n = 0
      · rw [if_pos first]
      · have longer := decimal_length_mono n
        rw [if_neg first, List.take_take, kept_of_lt few, kept_of_lt (Nat.lt_of_succ_lt few)]
        rw [Nat.min_eq_left (by omega)]
    let cut := rest.take (kept (n + 1) - (remains stem n).length)
    refine ⟨cut ++ 0x40 :: decimal (n + 1), ?_, ?_⟩
    · show numbered (candidate stem n) (n + 1) = _
      unfold numbered
      rw [same, List.take_append, shrinks, List.append_assoc]
    · intro dot
      rcases List.mem_append.mp dot with before | number
      · exact dotless (List.mem_of_mem_take before)
      · rcases List.mem_cons.mp number with sign | digit
        · revert sign
          decide
        · exact dot_notMem_decimal (n + 1) digit

theorem dot_mem_candidate_iff {stem : Name} {n : Nat} (few : n < 10 ^ 7) :
    0x2e ∈ candidate stem n ↔ 0x2e ∈ remains stem n := by
  obtain ⟨rest, same, dotless⟩ := @candidate_eq_append stem n few
  rw [same, List.mem_append]
  exact or_iff_left dotless

/-- A stem stays short as long as its number has at most seven digits. -/
theorem candidate_length_le_iff {stem : Name} (short : stem.length ≤ 8) (n : Nat) :
    (candidate stem n).length ≤ 8 ↔ n < 10 ^ 7 := by
  cases n with
  | zero => exact iff_of_true short (by decide)
  | succ n =>
    have size : (candidate stem (n + 1)).length
        = min (kept (n + 1)) (candidate stem n).length + ((decimal (n + 1)).length + 1) := by
      show (numbered (candidate stem n) (n + 1)).length = _
      unfold numbered
      rw [List.length_append, List.length_take, List.length_cons]
    rw [size]
    constructor
    · intro fits
      exact (decimal_length_le_iff (n + 1) 7).mp (by omega)
    · intro few
      have digits := (decimal_length_le_iff (n + 1) 7).mpr few
      rw [kept_of_lt few]
      omega

/-! ## Extensions -/

theorem toupper_eq_dot {c : Byte} (dot : toupper c = 0x2e) : c = 0x2e := by
  unfold toupper at dot
  split at dot
  case isTrue letter =>
    have back : c = 0x4e := by
      rw [← BitVec.sub_add_cancel c 0x20, dot]
      rfl
    rw [back] at letter
    exact absurd letter.1 (by decide)
  case isFalse => exact dot

theorem dot_notMem_afterDot (name : Name) : 0x2e ∉ afterDot name := by
  unfold afterDot
  intro dot
  have kind := List.mem_takeWhile_imp (List.mem_reverse.mp dot)
  exact absurd kind (by decide)

/-- A name without a dot has no extension to cut from. -/
theorem cpmExt_of_notMem {filename : Name} (none : 0x2e ∉ fileName filename) :
    cpmExt filename = .none := by
  unfold cpmExt splitPath
  simp only
  rw [if_neg fun found => none (List.contains_iff_mem.mp found)]
  rfl

theorem cpmExt_of_mem {filename : Name} (dot : 0x2e ∈ fileName filename) :
    cpmExt filename = some (shortExt filename) := by
  unfold cpmExt splitPath
  simp only
  rw [if_pos (List.contains_iff_mem.mpr dot)]
  rfl

theorem dot_notMem_ext {filename ext : Name} (cut : cpmExt filename = some ext) :
    0x2e ∉ ext := by
  intro dot
  by_cases there : 0x2e ∈ fileName filename
  · rw [cpmExt_of_mem there, Option.some.injEq] at cut
    rw [← cut] at dot
    obtain ⟨c, listed, raised⟩ := List.mem_map.mp (List.mem_of_mem_take dot)
    exact dot_notMem_afterDot _ (toupper_eq_dot raised ▸ listed)
  · rw [cpmExt_of_notMem there] at cut
    cases cut

theorem cpmExt_length_le {filename ext : Name} (cut : cpmExt filename = some ext) :
    ext.length ≤ 3 := by
  by_cases there : 0x2e ∈ fileName filename
  · rw [cpmExt_of_mem there, Option.some.injEq] at cut
    rw [← cut]
    exact List.length_take_le 3 _
  · rw [cpmExt_of_notMem there] at cut
    cases cut

/-! ## Every file -/

/-- From the first stem on, the loop ends with the first one that is not taken. -/
theorem retry_start_iff {taken : Finset Name} {stem ext found : Name} {fuel : Nat} :
    retry taken ext fuel 0 stem = some found ↔
      ∃ n < fuel, IsFirstFree taken stem ext n ∧ found = candidate stem n := by
  have none_before : ∀ m < 0, joined (candidate stem m) ext ∈ taken :=
    fun m below => absurd below (Nat.not_lt_zero m)
  refine (retry_eq_some_iff fuel 0 none_before).trans ⟨?_, ?_⟩
  · rintro ⟨n, -, below, free, same⟩
    exact ⟨n, by omega, free, same⟩
  · rintro ⟨n, below, free, same⟩
    exact ⟨n, Nat.zero_le n, by omega, free, same⟩

/-- A call that ends has found the first free stem. -/
theorem uniqueCpmFilename_eq_named_iff {taken : Finset Name} {filename stem ext : Name}
    {fuel : Nat} :
    uniqueCpmFilename taken filename fuel = .named stem ext ↔
      cpmExt filename = some ext ∧ ∃ n < fuel, IsFirstFree taken (cpmStem filename) ext n ∧
        stem = candidate (cpmStem filename) n := by
  rw [← retry_start_iff]
  unfold uniqueCpmFilename
  cases cpmExt filename with
  | none =>
    constructor
    · intro named
      cases named
    · rintro ⟨cut, -⟩
      cases cut
  | some found =>
    rw [Option.some.injEq]
    constructor
    · intro named
      cases ended : retry taken found fuel 0 (cpmStem filename) with
      | none =>
        simp only [ended] at named
        cases named
      | some last =>
        simp only [ended, Naming.named.injEq] at named
        obtain ⟨rfl, rfl⟩ := named
        exact ⟨rfl, ended⟩
    · rintro ⟨rfl, ended⟩
      simp only [ended]

/-- A file gets a name exactly if its name has a dot, a stem is free before the number has eight
digits, and what remains of the stem there has no dot. -/
theorem getsName_iff (taken : Finset Name) (filename : Name) :
    GetsName taken filename ↔ 0x2e ∈ fileName filename ∧
      ∃ n < 10 ^ 7, IsFirstFree taken (cpmStem filename) (shortExt filename) n ∧
        0x2e ∉ remains (cpmStem filename) n := by
  have short : (cpmStem filename).length ≤ 8 := List.length_take_le 8 _
  constructor
  · rintro ⟨fuel, stem, ext, named, fit⟩
    obtain ⟨cut, n, -, free, rfl⟩ := uniqueCpmFilename_eq_named_iff.mp named
    have dot : 0x2e ∈ fileName filename := by
      by_contra none
      rw [cpmExt_of_notMem none] at cut
      cases cut
    rw [cpmExt_of_mem dot, Option.some.injEq] at cut
    rw [← cut] at free
    have few := (candidate_length_le_iff short n).mp fit.stem_short
    refine ⟨dot, n, few, free, ?_⟩
    intro there
    exact fit.dot_notMem_stem ((dot_mem_candidate_iff few).mpr there)
  · rintro ⟨dot, n, few, free, dotless⟩
    have cut := cpmExt_of_mem dot
    refine ⟨n + 1, _, _, uniqueCpmFilename_eq_named_iff.mpr
      ⟨cut, n, Nat.lt_succ_self n, free, rfl⟩, ?_⟩
    exact {
      stem_short := (candidate_length_le_iff short n).mpr few
      ext_short := cpmExt_length_le cut
      dot_notMem_stem := fun there => dotless ((dot_mem_candidate_iff few).mp there)
      dot_notMem_ext := dot_notMem_ext cut
      free := free.free }

/-- `README`. -/
def readme : Name := [0x52, 0x45, 0x41, 0x44, 0x4d, 0x45]

/-- A name without an extension makes `substr` throw. -/
theorem readme_thrown : ¬ GetsName ∅ readme := by
  rintro ⟨fuel, stem, ext, named, -⟩
  have cut := (uniqueCpmFilename_eq_named_iff.mp named).1
  rw [cpmExt_of_notMem (by decide)] at cut
  cases cut

end VectorDebugger.FilesystemImage
