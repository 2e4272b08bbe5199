import Mathlib

/-! # Toggling masks

A word toggled by a list of masks depends on each bit's number of toggles modulo
two. With a key for every mask, a bit which occurs under one key only counts the
occurrences of that key.
-/

namespace XorParity

/-- Toggle a word by every mask of the list. -/
def xorAll (a : Nat) (masks : List Nat) : Nat := masks.foldl (· ^^^ ·) a

@[simp] theorem xorAll_nil (a : Nat) : xorAll a [] = a := rfl

theorem xorAll_append (a : Nat) (xs ys : List Nat) : xorAll a (xs ++ ys) = xorAll (xorAll a xs) ys :=
  List.foldl_append

theorem testBit_xorAll (a : Nat) (masks : List Nat) (i : Nat) :
    (xorAll a masks).testBit i ↔ (a.testBit i ↔ Even (masks.countP (·.testBit i))) := by
  induction masks generalizing a with
  | nil => simp
  | cons mask masks ih =>
      have step : xorAll a (mask :: masks) = xorAll (a ^^^ mask) masks := rfl
      rw [step, ih, Nat.testBit_xor, List.countP_cons]
      cases a.testBit i <;> cases mask.testBit i <;>
        simp only [Bool.xor_false, Bool.xor_true, Bool.not_true, Bool.not_false, Bool.false_eq_true,
          if_true, if_false, Nat.add_zero, Nat.even_add_one, true_iff, false_iff, not_not]

theorem xorAll_lt {a n : Nat} {masks : List Nat} (start : a < 2 ^ n) (small : ∀ m ∈ masks, m < 2 ^ n) :
    xorAll a masks < 2 ^ n := by
  induction masks generalizing a with
  | nil => exact start
  | cons mask masks ih =>
      exact ih (Nat.xor_lt_two_pow start (small mask List.mem_cons_self))
        fun m member => small m (List.mem_cons_of_mem mask member)

/-- A bit which only `key` carries is set as often as `key` occurs. -/
theorem countP_testBit_of_unique {κ : Type*} [DecidableEq κ] {mask : κ → Nat} {i : Nat} {key : κ}
    (keys : List κ) (unique : ∀ k, (mask k).testBit i ↔ k = key) :
    (keys.map mask).countP (·.testBit i) = keys.count key := by
  rw [List.countP_map, List.count]
  apply List.countP_congr
  intro k _
  simp only [Function.comp_apply, unique k, beq_iff_eq]

end XorParity
