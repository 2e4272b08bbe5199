import GpioCtrlBoard.DecodeData

/-! # What counts as a number

`toInt` reads the longest run of digits and takes 0 for "no number". So
`decodeData` also assigns for commands whose payload is no number at all. The
strict reading, which asks for digits only, is stated next to it; the two part
exactly at the half-numbers of one to three characters.
-/

namespace GpioCtrlBoard

theorem Port.ofLetter_eq_some {c : Char} {x : Port} : Port.ofLetter c = some x ↔ c = x.letter := by
  constructor
  · intro found
    simp only [Port.ofLetter] at found
    split_ifs at found <;> cases found <;> assumption
  · rintro rfl
    exact Port.ofLetter_letter x

theorem accepted_letter (x : Port) (d : Str) :
    accepted (x.letter :: d) =
      if d ≠ [] ∧ d.length ≤ 3 ∧ 0 ≤ Str.toInt d ∧ Str.toInt d ≤ 255 then
        some (x, UInt8.ofNat (Str.toInt d).toNat)
      else none := by
  have letter : Port.ofLetter (Str.charAt (x.letter :: d) 0) = some x := Port.ofLetter_letter x
  have window : (2 ≤ (x.letter :: d).length ∧ (x.letter :: d).length ≤ 4) ↔ d ≠ [] ∧ d.length ≤ 3 := by
    rw [List.length_cons, ← List.length_pos_iff]
    omega
  have guard := and_congr_left_iff (c := 0 ≤ Str.toInt d ∧ Str.toInt d ≤ 255) |>.mpr fun _ => window
  rw [and_assoc, and_assoc] at guard
  simp only [accepted, letter, List.drop_succ_cons, List.drop_zero, guard]

theorem accepted_no_letter {c : Char} (addressed : Port.ofLetter c = none) (d : Str) :
    accepted (c :: d) = none := by
  have first : Port.ofLetter (Str.charAt (c :: d) 0) = none := addressed
  simp only [accepted, first]

/-- An assignment is made for a port letter and one to three characters which
    `toInt` takes for a byte. -/
theorem accepted_eq_some {s : Str} {x : Port} {v : UInt8} :
    accepted s = some (x, v) ↔
      ∃ d, s = x.letter :: d ∧ d ≠ [] ∧ d.length ≤ 3 ∧ Str.toInt d = v.toNat := by
  have small := v.toNat_lt
  constructor
  · intro taken
    cases s with
    | nil => cases taken
    | cons c d =>
        cases addressed : Port.ofLetter c with
        | none =>
            rw [accepted_no_letter addressed] at taken
            cases taken
        | some y =>
            have letter := Port.ofLetter_eq_some.mp addressed
            subst letter
            rw [accepted_letter] at taken
            split at taken
            · rename_i guard
              obtain ⟨nonempty, short, low, high⟩ := guard
              cases taken
              refine ⟨d, rfl, nonempty, short, ?_⟩
              rw [toNat_ofNat (by omega)]
              omega
            · cases taken
  · rintro ⟨d, rfl, nonempty, short, value⟩
    have guard : d ≠ [] ∧ d.length ≤ 3 ∧ 0 ≤ Str.toInt d ∧ Str.toInt d ≤ 255 :=
      ⟨nonempty, short, by omega, by omega⟩
    rw [accepted_letter, if_pos guard, value, Int.toNat_natCast, UInt8.ofNat_toNat]

/-! ## Numbers which go on -/

/-- A text without its leading sign. -/
def unsigned : Str → Str
  | '-' :: digits => digits
  | '+' :: digits => digits
  | digits => digits

theorem unsigned_plain {e : Str} (noMinus : ∀ digits, e ≠ '-' :: digits)
    (noPlus : ∀ digits, e ≠ '+' :: digits) : unsigned e = e := by
  unfold unsigned
  split
  · exact absurd rfl (noMinus _)
  · exact absurd rfl (noPlus _)
  · rfl

theorem unsigned_append {e : Str} (nonempty : e ≠ []) (u : Str) :
    unsigned (e ++ u) = unsigned e ++ u := by
  by_cases minus : ∃ digits, e = '-' :: digits
  · obtain ⟨digits, rfl⟩ := minus
    rfl
  by_cases plus : ∃ digits, e = '+' :: digits
  · obtain ⟨digits, rfl⟩ := plus
    rfl
  obtain ⟨c, rest, rfl⟩ := List.exists_cons_of_ne_nil nonempty
  rw [unsigned_plain (e := c :: rest ++ u), unsigned_plain (e := c :: rest)]
  · intro digits same
    exact minus ⟨digits, same⟩
  · intro digits same
    exact plus ⟨digits, same⟩
  · intro digits same
    exact minus ⟨rest, by rw [(List.cons.inj same).1]⟩
  · intro digits same
    exact plus ⟨rest, by rw [(List.cons.inj same).1]⟩

/-- What `atol` takes digits from: the text behind white space and a sign. -/
def numberPart (s : Str) : Str := unsigned (s.dropWhile isSpace)

def numberSign (s : Str) : Int := if (s.dropWhile isSpace).head? = some '-' then -1 else 1

theorem toInt_eq (s : Str) : Str.toInt s = numberSign s * atol.number (numberPart s) := by
  simp only [Str.toInt, atol, numberSign, numberPart]
  generalize s.dropWhile isSpace = e
  split
  · simp [unsigned]
  · simp [unsigned]
  · rename_i noMinus noPlus
    have plain : e.head? ≠ some '-' := by
      intro head
      obtain ⟨digits, same⟩ := List.head?_eq_some_iff.mp head
      exact noMinus digits same
    rw [if_neg plain, one_mul, unsigned_plain noMinus noPlus]

/-- A text which is not blank fixes the sign and where the digits begin. -/
theorem number_begun {d : Str} (begun : d.dropWhile isSpace ≠ []) (u : Str) :
    numberPart (d ++ u) = numberPart d ++ u ∧ numberSign (d ++ u) = numberSign d := by
  have behind : (d ++ u).dropWhile isSpace = d.dropWhile isSpace ++ u := by
    rw [List.dropWhile_append, if_neg (by simpa using begun)]
  constructor
  · rw [numberPart, behind, unsigned_append begun]
    rfl
  · obtain ⟨c, rest, same⟩ := List.exists_cons_of_ne_nil begun
    rw [numberSign, numberSign, behind, same, List.cons_append, List.head?_cons, List.head?_cons]

/-- The number in a text is over: what follows its digits is no digit. -/
def NumberEnded (d : Str) : Prop := ∃ c ∈ numberPart d, c.isDigit = false

theorem begun_of_number {d : Str} (some : atol.number (numberPart d) ≠ 0 ∨ NumberEnded d) :
    d.dropWhile isSpace ≠ [] := by
  intro blank
  have nothing : numberPart d = [] := by
    rw [numberPart, blank]
    rfl
  rcases some with value | ⟨c, member, -⟩
  · rw [nothing] at value
    exact value rfl
  · simp [nothing] at member

theorem number_le_append (ds u : Str) : atol.number ds ≤ atol.number (ds ++ u) := by
  rw [atol.number, atol.number, List.takeWhile_append]
  split
  · rename_i all
    rw [(List.takeWhile_prefix Char.isDigit).eq_of_length all, Nat.ofDigitChars_append,
      Nat.ofDigitChars_eq_ofDigitChars_zero (l := u.takeWhile Char.isDigit)]
    have shift := Nat.le_mul_of_pos_left (Nat.ofDigitChars 10 ds 0)
      (Nat.pow_pos (n := (u.takeWhile Char.isDigit).length) (by decide : 0 < 10))
    omega
  · exact le_rfl

/-- What stands behind a number which is over is not read. -/
theorem toInt_append_ended {d : Str} (ended : NumberEnded d) (u : Str) :
    Str.toInt (d ++ u) = Str.toInt d := by
  obtain ⟨part, sign⟩ := number_begun (begun_of_number (.inr ended)) u
  rw [toInt_eq, toInt_eq, part, sign, atol.number, atol.number,
    TextSearch.takeWhile_append_of_stop ended]

/-- Any other number is changed by one more digit. -/
theorem toInt_append_one {d : Str} (goesOn : ¬ NumberEnded d) :
    Str.toInt (d ++ ['1']) ≠ Str.toInt d := by
  by_cases begun : d.dropWhile isSpace = []
  · have one : (d ++ ['1']).dropWhile isSpace = ['1'] := by
      rw [List.dropWhile_append, if_pos (by simpa using begun)]
      rfl
    rw [Str.toInt, Str.toInt, atol, atol, one, begun]
    decide
  · obtain ⟨part, sign⟩ := number_begun begun ['1']
    have digits : ∀ c ∈ numberPart d, c.isDigit := by
      intro c member
      by_contra noDigit
      exact goesOn ⟨c, member, by simpa using noDigit⟩
    have longer : atol.number (numberPart d ++ ['1']) = 10 * atol.number (numberPart d) + 1 := by
      rw [atol.number, atol.number, List.takeWhile_append_of_pos digits,
        List.takeWhile_eq_self_iff.mpr digits, Nat.ofDigitChars_append]
      rfl
    rw [toInt_eq, toInt_eq, part, sign, longer]
    rw [numberSign]
    split <;> omega

/-- A number which is no byte does not become one by going on. -/
theorem toInt_append_outside {d : Str} (outside : Str.toInt d < 0 ∨ 255 < Str.toInt d) (u : Str) :
    Str.toInt (d ++ u) < 0 ∨ 255 < Str.toInt (d ++ u) := by
  rw [toInt_eq] at outside
  have value : atol.number (numberPart d) ≠ 0 := by
    intro zero
    rw [zero] at outside
    omega
  obtain ⟨part, sign⟩ := number_begun (begun_of_number (.inl value)) u
  have more := number_le_append (numberPart d) u
  rw [toInt_eq, part, sign]
  by_cases minus : (d.dropWhile isSpace).head? = some '-'
  · rw [numberSign, if_pos minus] at outside ⊢
    omega
  · rw [numberSign, if_neg minus] at outside ⊢
    omega

/-! ## The strict reading -/

/-- A port letter and one to three digits which denote a byte. -/
def WellFormed (s : Str) (x : Port) (v : UInt8) : Prop :=
  ∃ d, s = x.letter :: d ∧ d ≠ [] ∧ d.length ≤ 3 ∧ (∀ c ∈ d, c.isDigit) ∧
    Nat.ofDigitChars 10 d 0 = v.toNat

/-- A port letter and one to three characters which are not all digits, but
    which `toInt` takes for a byte. -/
def HalfNumber (s : Str) (x : Port) (v : UInt8) : Prop :=
  ∃ d, s = x.letter :: d ∧ d ≠ [] ∧ d.length ≤ 3 ∧ (∃ c ∈ d, ¬ c.isDigit) ∧ Str.toInt d = v.toNat

theorem accepted_iff {s : Str} {x : Port} {v : UInt8} :
    accepted s = some (x, v) ↔ WellFormed s x v ∨ HalfNumber s x v := by
  rw [accepted_eq_some]
  constructor
  · rintro ⟨d, rfl, nonempty, short, value⟩
    by_cases digits : ∀ c ∈ d, c.isDigit
    · left
      rw [Str.toInt, atol_of_digits digits, Int.natCast_inj] at value
      exact ⟨d, rfl, nonempty, short, digits, value⟩
    · right
      obtain ⟨c, inside, noDigit⟩ := not_forall₂.mp digits
      exact ⟨d, rfl, nonempty, short, ⟨c, inside, noDigit⟩, value⟩
  · rintro (⟨d, rfl, nonempty, short, digits, value⟩ | ⟨d, rfl, nonempty, short, -, value⟩)
    · refine ⟨d, rfl, nonempty, short, ?_⟩
      rw [Str.toInt, atol_of_digits digits, value]
    · exact ⟨d, rfl, nonempty, short, value⟩

/-- No string is both. -/
theorem WellFormed.not_half {s : Str} {x y : Port} {v w : UInt8} (formed : WellFormed s x v) :
    ¬ HalfNumber s y w := by
  obtain ⟨d, rfl, -, -, digits, -⟩ := formed
  rintro ⟨e, same, -, -, ⟨c, inside, noDigit⟩, -⟩
  rw [← (List.cons.inj same).2] at inside
  exact noDigit (digits c inside)

/-- A well-formed command assigns its value, any other string assigns nothing. -/
structure StrictlyDecoded (s : Str) (b : Board) : Prop where
  assigns : ∀ x v, WellFormed s x v → (decodeData s b).1.val = Function.update b.val x v
  keeps : (∀ x v, ¬ WellFormed s x v) → (decodeData s b).1.val = b.val

theorem strictlyDecoded_here {s : Str} {b : Board} :
    StrictlyDecoded s b ↔ ∀ x v, HalfNumber s x v → b.val x = v := by
  constructor
  · intro strict x v half
    have noForm : ∀ y w, ¬ WellFormed s y w := fun y w formed => formed.not_half half
    have kept := strict.keeps noForm
    rw [decodeData_val_accepted (accepted_iff.mpr (.inr half))] at kept
    rw [← kept, Function.update_self]
  · intro silent
    constructor
    · intro x v formed
      exact decodeData_val_accepted (accepted_iff.mpr (.inl formed)) b
    · intro noForm
      cases found : accepted s with
      | none => exact decodeData_val_rejected found b
      | some assignment =>
          obtain ⟨x, v⟩ := assignment
          have half := (accepted_iff.mp found).resolve_left (noForm x v)
          rw [decodeData_val_accepted found, ← silent x v half, Function.update_eq_self]

/-- From one board state a string is strictly decoded unless it is a half-number
    for another value than the port has; from all states, unless it is one. -/
theorem strictlyDecoded_iff (s : Str) :
    (∀ b, StrictlyDecoded s b ↔ ∀ x v, HalfNumber s x v → b.val x = v) ∧
    ((∀ b, StrictlyDecoded s b) ↔ ∀ x v, ¬ HalfNumber s x v) := by
  refine ⟨fun b => strictlyDecoded_here, ?_⟩
  constructor
  · intro strict x v half
    -- The port cannot hold the value in a state and in its complement.
    let other : Board := (powerOn fun _ => .low).assign x (v + 1)
    have holds := strictlyDecoded_here.mp (strict other) x v half
    rw [Board.val_assign, Function.update_self] at holds
    exact absurd holds (by simp)
  · intro none b
    exact strictlyDecoded_here.mpr fun x v half => absurd half (none x v)

/-- A letter behind the port letter switches the whole port off. -/
theorem letter_payload_clears :
    ¬ StrictlyDecoded "ax".toList (decodeData "a255".toList (setup (powerOn fun _ => .low))).1 := by
  intro strict
  have half : HalfNumber "ax".toList .p1a 0 :=
    ⟨['x'], rfl, by decide, by decide, ⟨'x', by decide, by decide⟩, by decide⟩
  have holds := strictlyDecoded_here.mp strict .p1a 0 half
  have full : "a255".toList = command .p1a 255 := by decide
  rw [full, decodeData_val_command, Function.update_self] at holds
  exact absurd holds (by decide)

end GpioCtrlBoard
