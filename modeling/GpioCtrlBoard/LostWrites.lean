import GpioCtrlBoard.Switching

/-! # Updates of which requests are lost

The script toggles its copies before it sends them and swallows the exceptions
one request at a time. A port whose request is lost keeps its old byte on the
board, while the script goes on with the new one.
-/

namespace GpioCtrlBoard

/-- From agreement, script and board agree again after a table command exactly
    when the request for the port in its mask, if there is one, has arrived. -/
theorem lost_writes_iff {s : Session} (agree : ValuesAgree s) {row : Row} (member : row ∈ tableVal)
    (fate : Nat → Delivery) :
    ValuesAgree (setDevice row.name fate s).1 ↔
      ∀ x, row.mask x ≠ 0 → (fate (ports.idxOf x)).reaches := by
  by_cases read : row.name = "READ"
  · have blank := mask_read row member read
    have kept := setDevice_read_outputs fate s
    constructor
    · intro _ x masked
      exact absurd (blank x) masked
    · intro _ x
      rw [read, kept.2, setDevice_read]
      exact agree x
  · have inRange := agree.inRange.toggle member
    rw [setDevice_row (rowOf_name row member read)]
    apply forall_congr'
    intro x
    have copy : (updatePort row fate s).script.port x = (s.board.val x).toNat ^^^ row.mask x := by
      rw [agree x]
      exact Script.port_toggle s.script row x
    rw [updatePort_val inRange, copy]
    by_cases arrived : (fate (ports.idxOf x)).reaches
    · rw [if_pos arrived, agree.toggle_byte member]
      exact ⟨fun _ _ => arrived, fun _ => rfl⟩
    · rw [if_neg arrived]
      constructor
      · intro same masked
        have unmasked : (s.board.val x).toNat ^^^ row.mask x = (s.board.val x).toNat ^^^ 0 := by
          rw [← same, Nat.xor_zero]
        exact absurd (Nat.xor_right_inj.mp unmasked) masked
      · intro needed
        have blank : row.mask x = 0 := by
          by_contra masked
          exact arrived (needed masked)
        rw [blank, Nat.xor_zero]

theorem powerOn_valuesAgree : ValuesAgree ⟨.initial, setup (powerOn fun _ => .low)⟩ :=
  powerOn_agrees.values

/-- The first request of an update is lost. -/
def firstLost : Nat → Delivery
  | 0 => .lost
  | _ + 1 => .answered

theorem lost_writes_iff_cal_a8 :
    ValuesAgree (setDevice "CAL A8" firstLost ⟨.initial, setup (powerOn fun _ => .low)⟩).1 ↔
      ∀ x, Row.mask ⟨"CAL A8", 0, 0b10000000, 0, 0⟩ x ≠ 0 → (firstLost (ports.idxOf x)).reaches :=
  have member : (⟨"CAL A8", 0, 0b10000000, 0, 0⟩ : Row) ∈ tableVal := by decide +kernel
  lost_writes_iff powerOn_valuesAgree member firstLost

/-- The script takes CAL to be on, the board does not. -/
theorem lost_toggle_recorded :
    ValuesAgree ⟨.initial, setup (powerOn fun _ => .low)⟩ ∧
    ¬ ValuesAgree (setDevice "CAL ON" firstLost ⟨.initial, setup (powerOn fun _ => .low)⟩).1 := by
  refine ⟨powerOn_valuesAgree, ?_⟩
  intro agree
  have named : rowOf "CAL ON" = some ⟨"CAL ON", 0b00000010, 0, 0, 0⟩ := by decide +kernel
  have inRange := powerOn_valuesAgree.inRange.toggle (rowOf_some named).1
  have port := agree .p1a
  rw [setDevice_row named, updatePort_val inRange, setup_val, powerOn_val] at port
  revert port
  decide

end GpioCtrlBoard
