import GpioCtrlBoard.Arduino
import GpioCtrlBoard.Lib.CountedLoop

/-! # The status row of the LCD

The command `a` prints one label for each status character. The loop counts in
a `uint8_t` up to a length which is wider, and the label of a channel comes out
of one subtraction.
-/

namespace GpioCtrlBoard

inductive Colour where
  | white
  | lime
  | yellow
  | red
  | blue
  | violet
  | black
  deriving DecidableEq, Repr

/-- `txtColor` for one status character. -/
def txtColor : Char → Colour
  | '0' => .white
  | '1' => .lime
  | '2' => .yellow
  | '3' => .red
  | '4' => .blue
  | '5' => .violet
  | _ => .black

/-- `num`, of type `uint8_t` like the counter. -/
def num (i : UInt8) : UInt8 := if i ≥ 16 then i - 16 else i

/-- The digit which `print` writes for a value below 16. -/
def hexDigit (n : Nat) : Char := (Nat.digitChar n).toUpper

/-- `print(n, HEX)`: as many digits as the number needs. -/
def printHex (n : UInt8) : Str := (Nat.toDigits 16 n.toNat).map Char.toUpper

/-- One iteration: the position looked at and what is printed for it. -/
structure Visit where
  index : UInt8
  text : Str
  colour : Colour

def visit (stringData : Str) (i : UInt8) : Visit where
  index := i
  text := printHex (num i)
  colour := txtColor (Str.charAt stringData i.toNat)

/-- The loop, with so many iterations to spend; `none` when it has not ended. -/
def statusLoop (stringData : Str) : Nat → UInt8 → Option (List Visit)
  | 0, i => if i.toNat < stringData.length then none else some []
  | fuel + 1, i =>
    if i.toNat < stringData.length then
      (statusLoop stringData fuel (i + 1)).map (visit stringData i :: ·)
    else some []

/-- The case `a` of `loop`. -/
def statusCommand (fuel : Nat) (receivedData : Str) : Option (List Visit) :=
  let stringData := Str.substring receivedData 1 receivedData.length
  statusLoop stringData fuel 0

/-! ## Where the loop ends -/

theorem statusLoop_eq (s : Str) (fuel : Nat) (i : UInt8) :
    statusLoop s fuel i =
      (CountedLoop.visits (2 ^ 8) s.length fuel i.toNat).map
        (List.map fun k => visit s (UInt8.ofNat k)) := by
  induction fuel generalizing i with
  | zero =>
      rw [statusLoop, CountedLoop.visits]
      split <;> rfl
  | succ fuel ih =>
      have next : (i + 1).toNat = (i.toNat + 1) % 2 ^ 8 := UInt8.toNat_add i 1
      rw [statusLoop, CountedLoop.visits, ih, next]
      split
      · rw [Option.map_map, Option.map_map]
        congr 1
        funext ks
        simp only [Function.comp_apply, List.map_cons, UInt8.ofNat_toNat]
      · rfl

theorem statusCommand_eq (s : Str) (fuel : Nat) :
    statusCommand fuel ('a' :: s) = statusLoop s fuel 0 := by
  have behind : Str.substring ('a' :: s) 1 ('a' :: s).length = s := by
    rw [Str.substring, Nat.max_eq_right (by simp), Nat.min_eq_left (by simp), List.take_length]
    rfl
  simp only [statusCommand, behind]

/-- The iterations of a loop which ends. -/
def statusRow (s : Str) : List Visit := (List.range s.length).map fun k => visit s (UInt8.ofNat k)

theorem statusCommand_short {s : Str} (short : s.length ≤ 255) (fuel : Nat) :
    statusCommand fuel ('a' :: s) = if s.length ≤ fuel then some (statusRow s) else none := by
  have zero : (0 : UInt8).toNat = 0 := rfl
  rw [statusCommand_eq, statusLoop_eq, zero, CountedLoop.visits_zero (by omega)]
  split <;> rfl

theorem statusCommand_long {s : Str} (long : 255 < s.length) (fuel : Nat) :
    statusCommand fuel ('a' :: s) = none := by
  have zero : (0 : UInt8).toNat = 0 := rfl
  rw [statusCommand_eq, statusLoop_eq, zero, CountedLoop.visits_none (by omega) fuel (by decide)]
  rfl

theorem statusRow_index {s : Str} (short : s.length ≤ 255) :
    (statusRow s).map (fun v => v.index.toNat) = List.range s.length := by
  rw [statusRow, List.map_map]
  refine (List.map_congr_left fun k member => ?_).trans (List.map_id _)
  have small : k < s.length := List.mem_range.mp member
  exact toNat_ofNat (by omega)

theorem not_ended_of_long {s : Str} (long : 255 < s.length) (row : List Visit) :
    ¬ ∀ fuel, statusCommand fuel ('a' :: s) = if s.length ≤ fuel then some row else none := by
  intro ends
  have never := statusCommand_long long s.length
  rw [ends, if_pos (Nat.le_refl _)] at never
  cases never

/-- The loop makes one iteration for each character, in order, exactly when
    there are at most 255 of them; on any longer line it never ends. -/
theorem status_loop_ends_iff (s : Str) :
    ((∃ row, (∀ fuel, statusCommand fuel ('a' :: s) = if s.length ≤ fuel then some row else none) ∧
        row.map (fun v => v.index.toNat) = List.range s.length) ↔ s.length ≤ 255) ∧
    (255 < s.length → ∀ fuel, statusCommand fuel ('a' :: s) = none) := by
  refine ⟨?_, fun long => statusCommand_long long⟩
  constructor
  · rintro ⟨row, ends, -⟩
    by_contra long
    exact not_ended_of_long (Nat.lt_of_not_le long) row ends
  · intro short
    exact ⟨statusRow s, statusCommand_short short, statusRow_index short⟩

/-- A line of 256 status characters keeps the display busy for good. -/
theorem long_line_never_ends :
    ¬ ∃ row, (∀ fuel, statusCommand fuel ('a' :: List.replicate 256 '0') =
        if (List.replicate 256 '0').length ≤ fuel then some row else none) ∧
      row.map (fun v => v.index.toNat) = List.range (List.replicate 256 '0').length := by
  rintro ⟨row, ends, -⟩
  have long : 255 < (List.replicate 256 '0').length := by
    rw [List.length_replicate]
    decide
  exact not_ended_of_long long row ends

/-! ## What is printed -/

/-- The characters on the display, with their colours. -/
def printed (row : List Visit) : List (Char × Colour) :=
  row.flatMap fun v => v.text.map fun c => (c, v.colour)

/-- One hexadecimal digit for each channel, in the colour of its status. -/
def channelLabels (s : Str) : List (Char × Colour) :=
  s.zipIdx.map fun channel => (hexDigit (channel.2 % 16), txtColor channel.1)

/-- Up to the 32nd channel the subtraction is a modulus. -/
theorem printHex_num : ∀ k < 32, printHex (num (UInt8.ofNat k)) = [hexDigit (k % 16)] := by
  decide +kernel

theorem printed_statusRow {s : Str} (short : s.length ≤ 32) : printed (statusRow s) = channelLabels s := by
  have cells : printed (statusRow s) =
      (List.range s.length).map fun k => (hexDigit (k % 16), txtColor (Str.charAt s k)) := by
    rw [printed, statusRow, List.flatMap_map, List.map_eq_flatMap]
    apply List.flatMap_congr
    intro k member
    have small : k < s.length := List.mem_range.mp member
    have index : (UInt8.ofNat k).toNat = k := toNat_ofNat (by omega)
    simp only [visit, printHex_num k (by omega), index, List.map_cons, List.map_nil]
  rw [cells, channelLabels]
  apply List.ext_getElem
  · simp
  · intro k inside _
    simp only [List.length_map, List.length_range] at inside
    simp [Str.charAt, inside]

/-- Channel 32 takes two characters and every other one at least one. -/
theorem printed_length {n : Nat} (long : 33 ≤ n) :
    n < ((List.range n).map fun k => (printHex (num (UInt8.ofNat k))).length).sum := by
  induction n, long using Nat.le_induction with
  | base => decide +kernel
  | succ n _ ih =>
      have one : 0 < (printHex (num (UInt8.ofNat n))).length := by
        rw [printHex, List.length_map]
        exact Nat.length_toDigits_pos
      rw [List.range_succ, List.map_append, List.sum_append, List.map_singleton, List.sum_singleton]
      omega

theorem printed_ne_labels {s : Str} (long : 33 ≤ s.length) : printed (statusRow s) ≠ channelLabels s := by
  intro same
  have lengths := congrArg List.length same
  have more := printed_length long
  simp only [printed, statusRow, channelLabels, List.length_flatMap, List.map_map, Function.comp_def,
    visit, List.length_map, List.length_zipIdx] at lengths
  omega

/-- A run which ends has printed the row. -/
theorem statusCommand_some {s : Str} {fuel : Nat} {row : List Visit}
    (ended : statusCommand fuel ('a' :: s) = some row) : s.length ≤ 255 ∧ row = statusRow s := by
  by_cases short : s.length ≤ 255
  · rw [statusCommand_short short] at ended
    split at ended
    · exact ⟨short, (Option.some.inj ended).symm⟩
    · cases ended
  · rw [statusCommand_long (Nat.lt_of_not_le short)] at ended
    cases ended

/-- Each channel is labelled with one digit, its number modulo 16, exactly on
    lines of at most 32 channels. -/
theorem status_row_labels_iff (s : Str) :
    (∃ fuel row, statusCommand fuel ('a' :: s) = some row ∧ printed row = channelLabels s) ↔
      s.length ≤ 32 := by
  constructor
  · rintro ⟨fuel, row, ended, labelled⟩
    obtain ⟨-, rfl⟩ := statusCommand_some ended
    by_contra long
    exact printed_ne_labels (Nat.lt_of_not_le long) labelled
  · intro short
    refine ⟨s.length, statusRow s, ?_, printed_statusRow short⟩
    rw [statusCommand_short (by omega), if_pos (Nat.le_refl _)]

/-- The 33rd channel is labelled `10`. -/
theorem channel_33_prints_two :
    ¬ ∃ fuel row, statusCommand fuel ('a' :: List.replicate 33 '1') = some row ∧
      printed row = channelLabels (List.replicate 33 '1') := by
  rintro ⟨fuel, row, ended, labelled⟩
  obtain ⟨-, rfl⟩ := statusCommand_some ended
  have long : 33 ≤ (List.replicate 33 '1').length := by
    rw [List.length_replicate]
  exact printed_ne_labels long labelled

end GpioCtrlBoard
