import Piotbench.Lib.Bytes

/-!
# `sscanf` with one conversion

A format of literal characters and one conversion behind them, `%u`, `%d` or `%s`, as the C library
reads it where `long` has 64 bits and `int` has 32. A character is a byte and a string is the list
of its characters, without the terminating zero. `sscanf` returns what is stored through the
pointer if there was a conversion.
-/

namespace Scanf

open Bytes

/-- `%u`, `%d` and `%s`. -/
inductive Conversion
  | uint
  | int
  | str
  deriving DecidableEq

/-- A space, or one of the characters from `\t` to `\r`. -/
def isSpace (c : UInt8) : Bool := c = 32 || (9 ≤ c && c ≤ 13)

def isDigit (c : UInt8) : Bool := 48 ≤ c && c ≤ 57

/-- The value of a list of decimal digits. -/
def decimal (ds : List UInt8) : Nat := ds.foldl (fun n c => 10 * n + (c.toNat - 48)) 0

/-- An optional sign; `true` for a minus. -/
def sign : List UInt8 → Bool × List UInt8
  | 45 :: s => (true, s)
  | 43 :: s => (false, s)
  | s => (false, s)

/-- White space, a sign and digits: the sign and the value. -/
def number (s : List UInt8) : Option (Bool × Nat) :=
  let (minus, rest) := sign (s.dropWhile isSpace)
  let ds := rest.takeWhile isDigit
  if ds = [] then none else some (minus, decimal ds)

/-- `strtoul`: `ULONG_MAX` for what does not fit, and a negative number wraps around. -/
def strtoul (minus : Bool) (v : Nat) : Nat :=
  if UInt64.size ≤ v then UInt64.size - 1
  else if minus then (UInt64.size - v) % UInt64.size
  else v

/-- `strtol`, as a two's complement number of 64 bits: `LONG_MIN` and `LONG_MAX` for what does not
fit. -/
def strtol (minus : Bool) (v : Nat) : Nat :=
  if minus then (UInt64.size - min v (UInt64.size / 2)) % UInt64.size
  else min v (UInt64.size / 2 - 1)

/-- What a conversion stores. A number is cut to 32 bits; a string is the longest run of characters
that are not white space, with a terminating zero. -/
def convert : Conversion → List UInt8 → Option (List UInt8)
  | .uint, s => (number s).map fun (minus, v) => littleEndian 4 (strtoul minus v)
  | .int, s => (number s).map fun (minus, v) => littleEndian 4 (strtol minus v)
  | .str, s =>
    let word := (s.dropWhile isSpace).takeWhile fun c => !isSpace c
    if word = [] then none else some (word ++ [0])

/-- `sscanf(s, literal ++ conv, p)`: what is stored at `p`, or `none` when there is no conversion.
The literal has neither white space nor `%`. -/
def sscanf (s literal : List UInt8) (conv : Conversion) : Option (List UInt8) :=
  if literal <+: s then convert conv (s.drop literal.length) else none

variable {s literal out : List UInt8} {conv : Conversion}

theorem literal_of_sscanf (h : (sscanf s literal conv).isSome) : literal <+: s := by
  unfold sscanf at h
  split at h
  · next hlit => exact hlit
  · cases h

/-- A number takes four bytes. -/
theorem length_of_number (hconv : conv ≠ .str) (h : sscanf s literal conv = some out) :
    out.length = 4 := by
  unfold sscanf at h
  split at h
  · cases conv with
    | uint | int =>
      obtain ⟨_, -, rfl⟩ := Option.map_eq_some_iff.mp h
      exact length_littleEndian ..
    | str => exact absurd rfl hconv
  · cases h

/-- A string has its only zero at the end. -/
theorem string_of_sscanf (hzero : 0 ∉ s) (h : sscanf s literal .str = some out) :
    ∃ word, out = word ++ [0] ∧ 0 ∉ word := by
  unfold sscanf at h
  split at h
  · simp only [convert] at h
    split at h
    · cases h
    · refine ⟨_, (Option.some.inj h).symm, fun hmem => hzero ?_⟩
      have hword := (List.takeWhile_sublist _).subset hmem
      have hrest := (List.dropWhile_sublist _).subset hword
      exact List.mem_of_mem_drop hrest
  · cases h

/-! ## Numerals and words -/

/-- Behind white space and a sign there is a digit. -/
def startsNumber (s : List UInt8) : Bool := (sign (s.dropWhile isSpace)).2.head?.any isDigit

/-- A string of digits and nothing else. -/
structure Numeral (ds : List UInt8) : Prop where
  nonempty : ds ≠ []
  digits : ds.all isDigit = true

/-- A string that neither is empty nor has white space in it. -/
structure Word (s : List UInt8) : Prop where
  nonempty : s ≠ []
  noSpace : s.all (!isSpace ·) = true

/-- What a number is read as, where one starts. -/
theorem number_eq (s : List UInt8) : number s =
    if startsNumber s then
      some ((sign (s.dropWhile isSpace)).1,
        decimal ((sign (s.dropWhile isSpace)).2.takeWhile isDigit))
    else none := by
  unfold number startsNumber
  obtain ⟨minus, rest⟩ := sign (s.dropWhile isSpace)
  cases rest with
  | nil => rfl
  | cons c rest => cases hc : isDigit c <;> simp [hc]

theorem isSpace_of_isDigit {c : UInt8} (h : isDigit c = true) : isSpace c = false := by
  simp only [isDigit, Bool.and_eq_true, decide_eq_true_eq, UInt8.le_iff_toNat_le] at h
  simp only [isSpace, Bool.or_eq_false_iff, Bool.and_eq_false_iff, decide_eq_false_iff_not,
    UInt8.le_iff_toNat_le, ← UInt8.toNat_inj]
  simp only [UInt8.reduceToNat] at *
  omega

/-- A numeral is read whole. -/
theorem number_numeral (h : Numeral s) : number s = some (false, decimal s) := by
  obtain ⟨hne, hdigits⟩ := h
  have hall := List.takeWhile_eq_self_iff.mpr (List.all_eq_true.mp hdigits)
  cases s with
  | nil => exact absurd rfl hne
  | cons c s =>
    have hc : isDigit c = true := List.all_eq_true.mp hdigits c List.mem_cons_self
    have hsign : sign (c :: s) = (false, c :: s) := by
      unfold sign
      split
      · next heq =>
        cases heq
        cases hc
      · next heq =>
        cases heq
        cases hc
      · rfl
    unfold number
    rw [List.dropWhile_cons_of_neg (by simp [isSpace_of_isDigit hc]), hsign]
    simp only [hall, if_neg hne]

/-- A numeral behind a minus is read whole. -/
theorem number_minus (h : Numeral s) : number (45 :: s) = some (true, decimal s) := by
  obtain ⟨hne, hdigits⟩ := h
  have hall := List.takeWhile_eq_self_iff.mpr (List.all_eq_true.mp hdigits)
  have hminus : (45 :: s).dropWhile isSpace = 45 :: s :=
    List.dropWhile_cons_of_neg (by decide)
  unfold number
  rw [hminus]
  simp only [sign, hall, if_neg hne]

/-- A number that fits an `int` is that `int`. -/
theorem toInt_strtol {v : Nat} (h : v < UInt32.size / 2) :
    (BitVec.ofNat 32 (strtol false v % UInt32.size)).toInt = v := by
  simp only [UInt32.size] at h
  simp only [strtol, UInt64.size, UInt32.size, Bool.false_eq_true, if_false]
  have hmin : min v (18446744073709551616 / 2 - 1) = v := by omega
  rw [hmin, Nat.mod_eq_of_lt (by omega), BitVec.toInt_eq_toNat_bmod, BitVec.toNat_ofNat,
    Int.bmod_def]
  omega

theorem toInt_strtol_minus {v : Nat} (h : v ≤ UInt32.size / 2) :
    (BitVec.ofNat 32 (strtol true v % UInt32.size)).toInt = -(v : Int) := by
  simp only [UInt32.size] at h
  simp only [strtol, UInt64.size, UInt32.size, if_true]
  have hmin : min v (18446744073709551616 / 2) = v := by omega
  rw [hmin, BitVec.toInt_eq_toNat_bmod, BitVec.toNat_ofNat, Int.bmod_def]
  omega

/-- A word is stored whole. -/
theorem convert_word (h : Word s) : convert .str s = some (s ++ [0]) := by
  obtain ⟨hne, hplain⟩ := h
  have hall := List.takeWhile_eq_self_iff.mpr (List.all_eq_true.mp hplain)
  have hskip : s.dropWhile isSpace = s := by
    cases s with
    | nil => rfl
    | cons c s =>
      have hc := List.all_eq_true.mp hplain c List.mem_cons_self
      exact List.dropWhile_cons_of_neg (by simpa using hc)
  simp only [convert, hskip, hall, if_neg hne]

/-- What is stored of a string that is not just white space. -/
theorem convert_str_some (h : s.all isSpace = false) :
    ∃ word, Word word ∧ word.Sublist s ∧ convert .str s = some (word ++ [0]) := by
  have hword : (s.dropWhile isSpace).takeWhile (!isSpace ·) ≠ [] := by
    cases hrest : s.dropWhile isSpace with
    | nil =>
      have hspace := List.dropWhile_eq_nil_iff.mp hrest
      rw [List.all_eq_true.mpr hspace] at h
      cases h
    | cons c rest =>
      have hc := List.head?_dropWhile_not isSpace s
      simp only [hrest, List.head?_cons] at hc
      simp [hc]
  have hplain : ((s.dropWhile isSpace).takeWhile (!isSpace ·)).all (!isSpace ·) = true :=
    List.all_takeWhile
  refine ⟨_, ⟨hword, hplain⟩, ?_, ?_⟩
  · exact (List.takeWhile_sublist _).trans (List.dropWhile_sublist _)
  · simp only [convert, if_neg hword]

theorem convert_str_none (h : s.all isSpace = true) : convert .str s = none := by
  have hskip : s.dropWhile isSpace = [] :=
    List.dropWhile_eq_nil_iff.mpr (List.all_eq_true.mp h)
  simp [convert, hskip]

end Scanf
