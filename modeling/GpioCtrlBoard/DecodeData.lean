import GpioCtrlBoard.Board

/-! # Port commands

`decodeData` is translated as it stands: the value defaults to -1, the switch
assigns one variable when the value lies in range, and the write loop drives
all 32 outputs whatever the switch did. `accepted` then says which strings
assign, so that the effect on the variables is one write of a keyed store.
-/

namespace GpioCtrlBoard

open WriteStore

/-- One case of the switch: an in-range value is assigned, and the variable is
    reported whether or not it was. -/
def portCase (x : Port) (label : String) (valueReceived : Int) (b : Board) : Board × Str :=
  let b := if valueReceived ≥ 0 ∧ valueReceived ≤ 255 then
      b.assign x (UInt8.ofNat valueReceived.toNat)
    else b
  (b, label.toList ++ decimal (b.val x).toNat)

def decodeSwitch (cmdReceived : Char) (valueReceived : Int) (b : Board) : Board × Str :=
  match cmdReceived with
  | 'a' => portCase .p1a "PORT1A:" valueReceived b
  | 'b' => portCase .p1b "PORT1B:" valueReceived b
  | 'c' => portCase .p2a "PORT2A:" valueReceived b
  | 'd' => portCase .p2b "PORT2B:" valueReceived b
  | _ => (b, [])

/-- The write loop at the end of `decodeData`. -/
def writePorts (b : Board) : Board := { b with gpio := b.gpio.drive outputs (portImage b.val) }

@[simp] theorem writePorts_val (b : Board) : (writePorts b).val = b.val := by
  funext x
  cases x <;> simp only [writePorts, Board.val]

@[simp] theorem writePorts_gpio (b : Board) :
    (writePorts b).gpio = b.gpio.drive outputs (portImage b.val) := by
  simp only [writePorts]

@[simp] theorem writePorts_count (b : Board) : (writePorts b).count = b.count := by
  simp only [writePorts]

def decodeData (receivedData : Str) (b : Board) : Board × Str :=
  let valueReceived :=
    if receivedData.length < 5 ∧ receivedData.length > 1 then
      (receivedData.substring 1 receivedData.length).toInt
    else -1
  let (b, returnString) := decodeSwitch (receivedData.charAt 0) valueReceived b
  (writePorts b, returnString)

/-! ## Which strings assign -/

/-- The command letter of a port. -/
def Port.letter : Port → Char
  | .p1a => 'a'
  | .p1b => 'b'
  | .p2a => 'c'
  | .p2b => 'd'

/-- The name under which a port is reported. -/
def Port.label : Port → String
  | .p1a => "PORT1A:"
  | .p1b => "PORT1B:"
  | .p2a => "PORT2A:"
  | .p2b => "PORT2B:"

/-- The port addressed by a command letter. -/
def Port.ofLetter (c : Char) : Option Port :=
  if c = 'a' then some .p1a
  else if c = 'b' then some .p1b
  else if c = 'c' then some .p2a
  else if c = 'd' then some .p2b
  else none

@[simp] theorem Port.ofLetter_letter (x : Port) : Port.ofLetter x.letter = some x := by
  cases x <;> rfl

theorem decodeSwitch_eq (c : Char) (v : Int) (b : Board) :
    decodeSwitch c v b = match Port.ofLetter c with
      | some x => portCase x x.label v b
      | none => (b, []) := by
  unfold decodeSwitch
  split
  · rfl
  · rfl
  · rfl
  · rfl
  · rename_i notA notB notC notD
    simp only [Port.ofLetter, if_neg notA, if_neg notB, if_neg notC, if_neg notD]

/-- The assignment an accepted string makes: a port letter, one to three more
    characters, and a value in range. -/
def accepted (s : Str) : Option (Port × UInt8) :=
  match Port.ofLetter (s.charAt 0) with
  | none => none
  | some x =>
    if 2 ≤ s.length ∧ s.length ≤ 4 ∧ 0 ≤ Str.toInt (s.drop 1) ∧ Str.toInt (s.drop 1) ≤ 255 then
      some (x, UInt8.ofNat (Str.toInt (s.drop 1)).toNat)
    else none

theorem substring_rest (s : Str) (long : s.length > 1) : s.substring 1 s.length = s.drop 1 := by
  simp only [Str.substring, Nat.max_eq_right (Nat.le_of_lt long), Nat.min_eq_left (Nat.le_of_lt long),
    List.take_length]

/-- The assignment of `decodeData`, before its write loop. -/
def assigned (s : Str) (b : Board) : Board :=
  match accepted s with
  | some (x, v) => b.assign x v
  | none => b

theorem assigned_val (s : Str) (b : Board) :
    (assigned s b).val = writeAll b.val (accepted s).toList := by
  unfold assigned
  split
  · rename_i x v h
    rw [h, Board.val_assign]
    rfl
  · rename_i h
    rw [h]
    rfl

@[simp] theorem assigned_gpio (s : Str) (b : Board) : (assigned s b).gpio = b.gpio := by
  unfold assigned
  split <;> simp

@[simp] theorem assigned_count (s : Str) (b : Board) : (assigned s b).count = b.count := by
  unfold assigned
  split <;> simp

/-- `decodeData` assigns what the string is accepted for, drives every output,
    and reports the addressed port. -/
theorem decodeData_eq (s : Str) (b : Board) :
    decodeData s b = (writePorts (assigned s b),
      match Port.ofLetter (s.charAt 0) with
      | some x => x.label.toList ++ decimal ((assigned s b).val x).toNat
      | none => []) := by
  simp only [decodeData, decodeSwitch_eq, assigned, accepted]
  cases Port.ofLetter (s.charAt 0) with
  | none => rfl
  | some x =>
      by_cases window : 2 ≤ s.length ∧ s.length ≤ 4
      · obtain ⟨long, short⟩ := window
        have window' : s.length < 5 ∧ s.length > 1 := by omega
        simp only [if_pos window', substring_rest s long, portCase, ge_iff_le]
        by_cases range : 0 ≤ Str.toInt (s.drop 1) ∧ Str.toInt (s.drop 1) ≤ 255
        · simp only [long, short, range, and_self, if_true]
        · have rejected : ¬ (2 ≤ s.length ∧ s.length ≤ 4 ∧ 0 ≤ Str.toInt (s.drop 1) ∧
              Str.toInt (s.drop 1) ≤ 255) := fun h => range h.2.2
          simp only [if_neg range, if_neg rejected]
      · have window' : ¬ (s.length < 5 ∧ s.length > 1) := by omega
        have rejected : ¬ (2 ≤ s.length ∧ s.length ≤ 4 ∧ 0 ≤ Str.toInt (s.drop 1) ∧
            Str.toInt (s.drop 1) ≤ 255) := fun h => window ⟨h.1, h.2.1⟩
        have negative : ¬ ((-1 : Int) ≥ 0 ∧ (-1 : Int) ≤ 255) := by decide
        simp only [if_neg window', if_neg rejected, portCase, if_neg negative]

theorem decodeData_val (s : Str) (b : Board) :
    (decodeData s b).1.val = writeAll b.val (accepted s).toList := by
  simp only [decodeData_eq, writePorts_val, assigned_val]

theorem decodeData_val_accepted {s : Str} {x : Port} {v : UInt8} (taken : accepted s = some (x, v))
    (b : Board) : (decodeData s b).1.val = Function.update b.val x v := by
  rw [decodeData_val, taken]
  rfl

theorem decodeData_val_rejected {s : Str} (refused : accepted s = none) (b : Board) :
    (decodeData s b).1.val = b.val := by
  rw [decodeData_val, refused]
  rfl

theorem decodeData_gpio (s : Str) (b : Board) :
    (decodeData s b).1.gpio = b.gpio.drive outputs (portImage (decodeData s b).1.val) := by
  simp only [decodeData_eq, writePorts_gpio, writePorts_val, assigned_gpio]

@[simp] theorem decodeData_count (s : Str) (b : Board) : (decodeData s b).1.count = b.count := by
  simp only [decodeData_eq, writePorts_count, assigned_count]

theorem decodeData_reply (s : Str) (b : Board) :
    (decodeData s b).2 = match Port.ofLetter (s.charAt 0) with
      | some x => x.label.toList ++ decimal ((decodeData s b).1.val x).toNat
      | none => [] := by
  simp only [decodeData_eq, writePorts_val]

theorem decodeData_mirrors (s : Str) (b : Board) : Mirrors (decodeData s b).1 := by
  rw [mirrors_iff]
  intro o
  rw [decodeData_gpio, Gpio.level_drive_pin]

/-- No pin outside the four tables is ever written. -/
theorem decodeData_level_other (s : Str) (b : Board) {pin : Pin} (other : ∀ o : Output, pin ≠ o.pin) :
    (decodeData s b).1.gpio.level pin = b.gpio.level pin := by
  rw [decodeData_gpio, Gpio.level_drive_other _ _ _ fun o _ => other o]

/-! ## Well-formed commands -/

/-- A port letter followed by a decimal value. -/
def command (x : Port) (v : UInt8) : Str := x.letter :: decimal v.toNat

theorem accepted_command (x : Port) (v : UInt8) : accepted (command x v) = some (x, v) := by
  have short := length_decimal_byte v
  have value : Str.toInt ((command x v).drop 1) = v.toNat := toInt_decimal v.toNat
  have small := v.toNat_lt
  have guard : 2 ≤ (command x v).length ∧ (command x v).length ≤ 4 ∧
      0 ≤ Str.toInt ((command x v).drop 1) ∧ Str.toInt ((command x v).drop 1) ≤ 255 := by
    rw [value]
    simp only [command, List.length_cons]
    omega
  have letter : Port.ofLetter ((command x v).charAt 0) = some x := Port.ofLetter_letter x
  simp only [accepted, letter, if_pos guard]
  rw [value, Int.toNat_natCast, UInt8.ofNat_toNat]

theorem decodeData_val_command (x : Port) (v : UInt8) (b : Board) :
    (decodeData (command x v) b).1.val = Function.update b.val x v :=
  decodeData_val_accepted (accepted_command x v) b

theorem command_no_amp (x : Port) (v : UInt8) : '&' ∉ command x v := by
  have letter : '&' ≠ x.letter := by cases x <;> decide
  exact List.not_mem_cons_of_ne_of_not_mem letter (not_mem_decimal rfl v.toNat)

end GpioCtrlBoard
