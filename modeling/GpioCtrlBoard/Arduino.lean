import GpioCtrlBoard.Lib.TextSearch

/-! # The Arduino core functions the sketch calls

`String`, `atol` and `Stream::readStringUntil` as the core documents them. A
`String` is the list of its characters; its search results are `int` and its
bounds are `unsigned int`, so the conversion between the two is explicit.
-/

namespace GpioCtrlBoard

/-- Arduino `String`. -/
abbrev Str := List Char

/-- Conversion of an `int` to `unsigned int` at a call. -/
def toUnsigned (i : Int) : Nat := (i % 2 ^ 32).toNat

@[simp] theorem toUnsigned_natCast {n : Nat} (small : n < 2 ^ 32) : toUnsigned n = n := by
  simp only [toUnsigned]
  omega

/-- Decimal text of an unsigned number, as `print` and `+=` write it. -/
def decimal (n : Nat) : Str := Nat.toDigits 10 n

/-- `isspace` of the C locale. -/
def isSpace (c : Char) : Bool :=
  c = ' ' || c = '\t' || c = '\n' || c = '\x0b' || c = '\x0c' || c = '\r'

/-- C `atol`: leading white space, an optional sign, the longest run of digits. -/
def atol (s : Str) : Int :=
  match s.dropWhile isSpace with
  | '-' :: digits => -(number digits : Int)
  | '+' :: digits => number digits
  | digits => number digits
where
  number (digits : Str) : Nat := Nat.ofDigitChars 10 (digits.takeWhile Char.isDigit) 0

namespace Str

/-- `charAt`; an index past the end reads as NUL. -/
def charAt (s : Str) (index : Nat) : Char := s.getD index '\x00'

/-- `indexOf(char, fromIndex)`: -1 when the character is absent or
    `fromIndex` lies past the end. -/
def indexOfChar (s : Str) (ch : Char) (fromIndex : Nat) : Int :=
  match (s.drop fromIndex).idxOf? ch with
  | some offset => (fromIndex + offset : Nat)
  | none => -1

/-- `indexOf(String)`: position of the first occurrence, or -1. -/
def indexOf (s text : Str) : Int :=
  match TextSearch.find? text s with
  | some index => index
  | none => -1

/-- `substring(left, right)` exchanges crossed bounds and clamps the right one. -/
def substring (s : Str) (left right : Nat) : Str :=
  (s.take (max left right)).drop (min left right)

/-- `toInt`. -/
def toInt (s : Str) : Int := atol s

end Str

/-- `readStringUntil` over the bytes at hand: up to the terminator, which is
    consumed, or to the end of the bytes. -/
def readStringUntil (terminator : Char) (bytes : Str) : Str :=
  bytes.takeWhile (· ≠ terminator)

theorem toNat_ofNat {v : Nat} (small : v < 2 ^ 8) : (UInt8.ofNat v).toNat = v :=
  Nat.mod_eq_of_lt small

/-! ## Decimal text -/

theorem isDigit_of_mem_decimal {n : Nat} {c : Char} (member : c ∈ decimal n) : c.isDigit :=
  Nat.isDigit_of_mem_toDigits (by decide) (by decide) member

theorem not_mem_decimal {c : Char} (noDigit : c.isDigit = false) (n : Nat) : c ∉ decimal n := by
  intro member
  simp [isDigit_of_mem_decimal member] at noDigit

theorem length_decimal_byte (v : UInt8) : 0 < (decimal v.toNat).length ∧ (decimal v.toNat).length ≤ 3 := by
  refine ⟨Nat.length_toDigits_pos, (Nat.length_toDigits_le_iff (by decide) (by decide)).mpr ?_⟩
  have := v.toNat_lt
  omega

/-- A sign or a blank is no digit, so a text that starts with one is read from there. -/
theorem atol_digit_cons {c : Char} (digit : c.isDigit) (cs : Str) :
    atol (c :: cs) = atol.number (c :: cs) := by
  have noSpace : isSpace c = false := by
    simp only [isSpace, Bool.or_eq_false_iff, decide_eq_false_iff_not]
    refine ⟨⟨⟨⟨⟨?_, ?_⟩, ?_⟩, ?_⟩, ?_⟩, ?_⟩ <;> rintro rfl <;> simp at digit
  have noMinus : c ≠ '-' := by rintro rfl; simp at digit
  have noPlus : c ≠ '+' := by rintro rfl; simp at digit
  simp only [atol, List.dropWhile_cons, noSpace, Bool.false_eq_true, if_false]
  split
  · rename_i same
    exact absurd (List.cons.inj same).1 noMinus
  · rename_i same
    exact absurd (List.cons.inj same).1 noPlus
  · rfl

/-- A run of digits is read up to what stops it. -/
theorem atol_digits_append {d rest : Str} (nonempty : d ≠ []) (digits : ∀ c ∈ d, c.isDigit)
    (stop : rest.takeWhile Char.isDigit = []) : atol (d ++ rest) = Nat.ofDigitChars 10 d 0 := by
  have run : (d ++ rest).takeWhile Char.isDigit = d := by
    rw [List.takeWhile_append_of_pos digits, stop, List.append_nil]
  cases d with
  | nil => exact absurd rfl nonempty
  | cons c cs =>
      have digit : c.isDigit := digits c List.mem_cons_self
      rw [List.cons_append] at run ⊢
      rw [atol_digit_cons digit, atol.number, run]

theorem atol_of_digits {s : Str} (digits : ∀ c ∈ s, c.isDigit) : atol s = Nat.ofDigitChars 10 s 0 := by
  cases s with
  | nil => rfl
  | cons c cs =>
      have plain : atol (c :: cs ++ []) = Nat.ofDigitChars 10 (c :: cs) 0 :=
        atol_digits_append (List.cons_ne_nil c cs) digits rfl
      rwa [List.append_nil] at plain

/-- The round trip through decimal text. -/
theorem toInt_decimal (n : Nat) : Str.toInt (decimal n) = n := by
  rw [Str.toInt, atol_of_digits fun c => isDigit_of_mem_decimal, decimal,
    Nat.ofDigitChars_ten_toDigits]

end GpioCtrlBoard
