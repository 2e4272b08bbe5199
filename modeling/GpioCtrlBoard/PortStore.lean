import GpioCtrlBoard.DecodeData

/-! # The board as a store of four bytes

Abstractly the board maps each port to a byte and a command writes at most one
of them. `decodeData` refines that store: its variables follow the accepted
writes in order, and its pins are the image of the variables. Since every call
drives all 32 pins, the pin levels after a run depend on the final variables
alone.
-/

namespace GpioCtrlBoard

open WriteStore

/-- Calls of `decodeData` one after the other. -/
def decodeAll (ss : List Str) (b : Board) : Board := ss.foldl (fun b s => (decodeData s b).1) b

@[simp] theorem decodeAll_nil (b : Board) : decodeAll [] b = b := rfl

@[simp] theorem decodeAll_cons (s : Str) (ss : List Str) (b : Board) :
    decodeAll (s :: ss) b = decodeAll ss (decodeData s b).1 := rfl

theorem decodeAll_val (ss : List Str) (b : Board) :
    (decodeAll ss b).val = writeAll b.val (ss.filterMap accepted) := by
  induction ss generalizing b with
  | nil => rfl
  | cons s ss ih =>
      have split : (s :: ss).filterMap accepted = (accepted s).toList ++ ss.filterMap accepted := by
        cases h : accepted s <;> simp [h]
      calc
        (decodeAll (s :: ss) b).val = writeAll (decodeData s b).1.val (ss.filterMap accepted) := ih _
        _ = writeAll (writeAll b.val (accepted s).toList) (ss.filterMap accepted) := by
          rw [decodeData_val]
        _ = writeAll b.val ((s :: ss).filterMap accepted) := by rw [split, writeAll_append]

theorem decodeAll_mirrors (ss : List Str) {b : Board} (mirrors : Mirrors b) :
    Mirrors (decodeAll ss b) := by
  induction ss generalizing b with
  | nil => exact mirrors
  | cons s ss ih => exact ih (decodeData_mirrors s b)

theorem decodeAll_mirrors_of_ne_nil {ss : List Str} (some : ss ≠ []) (b : Board) :
    Mirrors (decodeAll ss b) := by
  cases ss with
  | nil => exact absurd rfl some
  | cons s ss => exact decodeAll_mirrors ss (decodeData_mirrors s b)

/-- After at least one call the pins show the final variables, whatever they
    showed before and whatever was written in between. -/
theorem decodeAll_level {ss : List Str} (some : ss ≠ []) (b : Board) :
    (decodeAll ss b).gpio.level =
      (b.gpio.drive outputs (portImage (decodeAll ss b).val)).level := by
  induction ss generalizing b with
  | nil => exact absurd rfl some
  | cons s ss ih =>
      cases ss with
      | nil => exact congrArg Gpio.level (decodeData_gpio s b)
      | cons t ss =>
          have later := ih (List.cons_ne_nil t ss) (decodeData s b).1
          rw [decodeData_gpio, Gpio.level_drive_drive] at later
          exact later

/-- Rewriting the variables the pins already show is silent. -/
theorem Mirrors.level_drive {b : Board} (mirrors : Mirrors b) :
    (b.gpio.drive outputs (portImage b.val)).level = b.gpio.level :=
  (Gpio.level_drive_eq_self_iff _ _).mpr (mirrors_iff.mp mirrors)

theorem decodeData_rejected {s : Str} {b : Board} (mirrors : Mirrors b) (rejected : accepted s = none) :
    (decodeData s b).1.val = b.val ∧ (decodeData s b).1.gpio.level = b.gpio.level := by
  have same : (decodeData s b).1.val = b.val := decodeData_val_rejected rejected b
  refine ⟨same, ?_⟩
  rw [decodeData_gpio, same]
  exact mirrors.level_drive

theorem decodeData_accepted {s : Str} {b : Board} {x : Port} {v : UInt8} (mirrors : Mirrors b)
    (taken : accepted s = some (x, v)) :
    (decodeData s b).1.val = Function.update b.val x v ∧
      ∀ pin, (∀ i, pin ≠ Output.pin (x, i)) →
        (decodeData s b).1.gpio.level pin = b.gpio.level pin := by
  have updated : (decodeData s b).1.val = Function.update b.val x v :=
    decodeData_val_accepted taken b
  refine ⟨updated, ?_⟩
  intro pin outside
  by_cases known : ∃ o : Output, pin = o.pin
  · obtain ⟨⟨y, i⟩, rfl⟩ := known
    have other : y ≠ x := by
      rintro rfl
      exact outside i rfl
    rw [decodeData_gpio, Gpio.level_drive_pin, updated]
    simp only [portImage, Function.update_of_ne other]
    exact (mirrors_iff.mp mirrors (y, i)).symm
  · exact decodeData_level_other s b fun o same => known ⟨o, same⟩

/-- The store seen from outside over a whole sequential run: variables, pins,
    frame and replies. -/
theorem sequential_store (power : Pin → Level) (ss : List Str) :
    let b := decodeAll ss (setup (powerOn power))
    (∀ x, b.val x = (lastWrite x (ss.filterMap accepted)).getD 0 ∧ (b.val x).toNat ≤ 255) ∧
    Mirrors b ∧ (∀ x, readBack b.gpio x = (b.val x).toNat) ∧
    ∀ s,
      (accepted s = none →
        (decodeData s b).1.val = b.val ∧ (decodeData s b).1.gpio.level = b.gpio.level) ∧
      (∀ x v, accepted s = some (x, v) →
        (decodeData s b).1.val = Function.update b.val x v ∧
        ∀ pin, (∀ i, pin ≠ Output.pin (x, i)) →
          (decodeData s b).1.gpio.level pin = b.gpio.level pin) ∧
      (decodeData s b).2 = match Port.ofLetter (s.charAt 0) with
        | some x => x.label.toList ++ decimal ((decodeData s b).1.val x).toNat
        | none => [] := by
  intro b
  have mirrors : Mirrors b := decodeAll_mirrors ss (setup_mirrors power)
  have values : ∀ x, b.val x = (lastWrite x (ss.filterMap accepted)).getD 0 := by
    intro x
    simp only [b, decodeAll_val, writeAll_apply, setup_val, powerOn_val]
  refine ⟨fun x => ⟨values x, Nat.le_of_lt_succ (b.val x).toNat_lt⟩, mirrors, mirrors.readBack, ?_⟩
  intro s
  exact ⟨decodeData_rejected mirrors, fun x v => decodeData_accepted mirrors, decodeData_reply s b⟩

end GpioCtrlBoard
