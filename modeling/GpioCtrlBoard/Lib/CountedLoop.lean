import Mathlib

/-! # Counting loops with a counter of limited range

The counter starts again at 0 when it reaches its modulus. A loop up to a bound
below the modulus visits the numbers below the bound in order; any other loop
goes round for ever. The fuel is the number of iterations it is given.
-/

namespace CountedLoop

/-- The counter values of the iterations from `i` on, `none` while the loop has
    not ended. -/
def visits (modulus bound : Nat) : Nat → Nat → Option (List Nat)
  | 0, i => if i < bound then none else some []
  | fuel + 1, i =>
    if i < bound then (visits modulus bound fuel ((i + 1) % modulus)).map (i :: ·) else some []

variable {modulus bound : Nat}

/-- The run of a loop whose bound the counter can hold. -/
theorem visits_of_lt (fits : bound < modulus) (fuel : Nat) {i : Nat} (inside : i ≤ bound) :
    visits modulus bound fuel i =
      if bound - i ≤ fuel then some (List.range' i (bound - i)) else none := by
  induction fuel generalizing i with
  | zero =>
      by_cases more : i < bound
      · have unfinished : ¬ bound - i ≤ 0 := by omega
        rw [visits, if_pos more, if_neg unfinished]
      · have finished : bound - i = 0 := by omega
        rw [visits, if_neg more, finished]
        rfl
  | succ fuel ih =>
      by_cases more : i < bound
      · have next : (i + 1) % modulus = i + 1 := Nat.mod_eq_of_lt (by omega)
        have left : bound - i = bound - (i + 1) + 1 := by omega
        rw [visits, if_pos more, next, ih more, left, List.range'_succ]
        simp only [Nat.add_le_add_iff_right]
        split <;> rfl
      · have finished : bound - i = 0 := by omega
        rw [visits, if_neg more, finished]
        simp only [Nat.zero_le, if_true, List.range'_zero]

/-- A bound which the counter never reaches keeps the loop going. -/
theorem visits_none (long : modulus ≤ bound) (fuel : Nat) {i : Nat} (inside : i < modulus) :
    visits modulus bound fuel i = none := by
  have more : i < bound := by omega
  induction fuel generalizing i with
  | zero => rw [visits, if_pos more]
  | succ fuel ih =>
      have wrapped : (i + 1) % modulus < modulus := Nat.mod_lt _ (by omega)
      rw [visits, if_pos more, ih wrapped (by omega)]
      rfl

theorem visits_zero (fits : bound < modulus) (fuel : Nat) :
    visits modulus bound fuel 0 = if bound ≤ fuel then some (List.range bound) else none := by
  rw [visits_of_lt fits fuel (Nat.zero_le bound), Nat.sub_zero, List.range_eq_range']

end CountedLoop
