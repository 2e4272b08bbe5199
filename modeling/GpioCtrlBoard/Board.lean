import GpioCtrlBoard.Arduino
import GpioCtrlBoard.Lib.WriteStore

/-! # Pins, globals and start-up of the board

The GPIO bank is the sequence of `digitalWriteFast` calls made so far, and the
level of a pin is its last write. The sketch never reads an output pin back,
so this is all the state the outputs have. The outputs are active low.
-/

namespace GpioCtrlBoard

open WriteStore

inductive Level where
  | low
  | high
  deriving DecidableEq, Repr

/-- Arduino pin number. -/
abbrev Pin := Nat

/-! ## Pin assignment -/

/-- Bits of a port, `Pbit`. -/
abbrev pbit : Nat := 8

def stsLedGr : Pin := 4
def stsLedOr : Pin := 5

def p1a : Fin pbit → Pin := ![32, 6, 31, 7, 30, 8, 29, 9]
def p1b : Fin pbit → Pin := ![28, 10, 27, 11, 26, 12, 25, 24]
def p2a : Fin pbit → Pin := ![20, 33, 19, 34, 18, 35, 17, 36]
def p2b : Fin pbit → Pin := ![16, 37, 15, 38, 14, 39, 13, 40]

/-- The four output ports. -/
inductive Port where
  | p1a
  | p1b
  | p2a
  | p2b
  deriving DecidableEq, Repr

instance : Fintype Port := ⟨{.p1a, .p1b, .p2a, .p2b}, by intro x; cases x <;> decide⟩

/-- The pin table of a port. -/
def Port.pins : Port → Fin pbit → Pin
  | .p1a => GpioCtrlBoard.p1a
  | .p1b => GpioCtrlBoard.p1b
  | .p2a => GpioCtrlBoard.p2a
  | .p2b => GpioCtrlBoard.p2b

/-- One bit of one port. -/
abbrev Output := Port × Fin pbit

/-- The pin which carries an output. -/
def Output.pin (o : Output) : Pin := o.1.pins o.2

/-- Every output, in the order in which `setup` and `decodeData` write them. -/
def outputs : List Output :=
  (List.finRange pbit).flatMap fun i => [(.p1a, i), (.p1b, i), (.p2a, i), (.p2b, i)]

theorem mem_outputs : ∀ o : Output, o ∈ outputs := by decide

/-- No pin number occurs twice in the four tables. -/
theorem outputs_pin_nodup : (outputs.map Output.pin).Nodup := by decide

theorem pin_injective : Function.Injective Output.pin := fun _ _ same =>
  List.inj_on_of_nodup_map outputs_pin_nodup (mem_outputs _) (mem_outputs _) same

theorem led_ne_pin : ∀ o : Output, stsLedGr ≠ o.pin ∧ stsLedOr ≠ o.pin := by decide

/-! ## The GPIO bank -/

structure Gpio where
  /-- Levels before the first write. -/
  power : Pin → Level
  /-- The writes so far, oldest first. -/
  writes : List (Pin × Level)

namespace Gpio

def level (g : Gpio) : Pin → Level := writeAll g.power g.writes

def digitalWriteFast (g : Gpio) (pin : Pin) (val : Level) : Gpio :=
  { g with writes := g.writes ++ [(pin, val)] }

/-- Write the listed outputs in turn. -/
def drive (g : Gpio) (os : List Output) (val : Output → Level) : Gpio :=
  os.foldl (fun g o => g.digitalWriteFast o.pin (val o)) g

/-- The writes made by `drive`. -/
def driven (os : List Output) (val : Output → Level) : List (Pin × Level) :=
  os.map fun o => (o.pin, val o)

@[simp] theorem level_digitalWriteFast (g : Gpio) (pin : Pin) (val : Level) :
    (g.digitalWriteFast pin val).level = Function.update g.level pin val := by
  simp only [level, digitalWriteFast, writeAll_append]
  rfl

theorem drive_writes (g : Gpio) (os : List Output) (val : Output → Level) :
    g.drive os val = { g with writes := g.writes ++ driven os val } := by
  induction os generalizing g with
  | nil => simp [drive, driven]
  | cons o os ih =>
      have step : g.drive (o :: os) val = (g.digitalWriteFast o.pin (val o)).drive os val := rfl
      rw [step, ih]
      simp [digitalWriteFast, driven]

theorem level_drive (g : Gpio) (os : List Output) (val : Output → Level) :
    (g.drive os val).level = writeAll g.level (driven os val) := by
  simp only [drive_writes, level, writeAll_append]

theorem driven_keys (os : List Output) (val : Output → Level) :
    (driven os val).map Prod.fst = os.map Output.pin := by
  simp [driven, Function.comp_def]

theorem driven_nodup (val : Output → Level) : ((driven outputs val).map Prod.fst).Nodup := by
  rw [driven_keys]
  exact outputs_pin_nodup

theorem level_drive_pin (g : Gpio) (val : Output → Level) (o : Output) :
    (g.drive outputs val).level o.pin = val o := by
  rw [level_drive]
  exact writeAll_of_mem g.level (driven_nodup val) (List.mem_map_of_mem (mem_outputs o))

theorem level_drive_other (g : Gpio) (os : List Output) (val : Output → Level) {pin : Pin}
    (other : ∀ o ∈ os, pin ≠ o.pin) : (g.drive os val).level pin = g.level pin := by
  rw [level_drive, writeAll_of_not_mem]
  rw [driven_keys]
  intro member
  obtain ⟨o, inside, same⟩ := List.mem_map.mp member
  exact other o inside same.symm

/-- Driving every output hides an earlier drive. -/
theorem level_drive_drive (g : Gpio) (val val' : Output → Level) :
    ((g.drive outputs val).drive outputs val').level = (g.drive outputs val').level := by
  simp only [level_drive]
  apply writeAll_overwrite
  simp only [driven_keys, imp_self, implies_true]

theorem level_drive_eq_self_iff (g : Gpio) (val : Output → Level) :
    (g.drive outputs val).level = g.level ↔ ∀ o : Output, g.level o.pin = val o := by
  rw [level_drive, writeAll_eq_self_iff _ (driven_nodup val)]
  constructor
  · intro agree o
    exact agree _ (List.mem_map_of_mem (mem_outputs o))
  · intro agree w member
    obtain ⟨o, -, rfl⟩ := List.mem_map.mp member
    exact agree o

end Gpio

/-! ## Globals -/

/-- The globals of the sketch together with its pins. -/
structure Board where
  p1aVal : UInt8
  p1bVal : UInt8
  p2aVal : UInt8
  p2bVal : UInt8
  count : UInt32
  gpio : Gpio

namespace Board

/-- The variable of a port. -/
def val (b : Board) : Port → UInt8
  | .p1a => b.p1aVal
  | .p1b => b.p1bVal
  | .p2a => b.p2aVal
  | .p2b => b.p2bVal

/-- Assignment to the variable of a port. -/
def assign (b : Board) (x : Port) (v : UInt8) : Board :=
  match x with
  | .p1a => { b with p1aVal := v }
  | .p1b => { b with p1bVal := v }
  | .p2a => { b with p2aVal := v }
  | .p2b => { b with p2bVal := v }

@[simp] theorem val_assign (b : Board) (x : Port) (v : UInt8) :
    (b.assign x v).val = Function.update b.val x v := by
  funext y
  cases x <;> cases y <;> rfl

@[simp] theorem assign_count (b : Board) (x : Port) (v : UInt8) : (b.assign x v).count = b.count := by
  cases x <;> rfl

@[simp] theorem assign_gpio (b : Board) (x : Port) (v : UInt8) : (b.assign x v).gpio = b.gpio := by
  cases x <;> rfl

end Board

/-- `bit_test` is inverted: a set bit drives its pin low. -/
def bitTest (bit : Nat) (byte : UInt8) : Level :=
  if byte.toNat &&& (1 <<< bit) > 0 then .low else .high

theorem bitTest_eq_low {bit : Nat} {byte : UInt8} : bitTest bit byte = .low ↔ byte.toNat.testBit bit := by
  have bits : byte.toNat &&& (1 <<< bit) = (byte.toNat.testBit bit).toNat * 2 ^ bit := by
    rw [Nat.one_shiftLeft, Nat.and_two_pow]
  have positive : 0 < 2 ^ bit := Nat.two_pow_pos bit
  rw [bitTest, bits]
  cases byte.toNat.testBit bit <;> simp

/-- The levels which values of the port variables call for. -/
def portImage (val : Port → UInt8) (o : Output) : Level := bitTest o.2 (val o.1)

/-- Every output pin is low exactly where its bit is set. -/
def Mirrors (b : Board) : Prop :=
  ∀ o : Output, b.gpio.level o.pin = .low ↔ (b.val o.1).toNat.testBit o.2

theorem mirrors_iff {b : Board} :
    Mirrors b ↔ ∀ o : Output, b.gpio.level o.pin = portImage b.val o := by
  apply forall_congr'
  intro o
  rw [← bitTest_eq_low, ← portImage]
  cases b.gpio.level o.pin <;> cases portImage b.val o <;> simp

/-- The byte shown by the pins of a port, a low pin counting as 1. -/
def readBack (g : Gpio) (x : Port) : Nat :=
  Nat.ofBits fun i : Fin pbit => decide (g.level (Output.pin (x, i)) = .low)

/-- Under the mirror invariant the pins give the port variable back. -/
theorem Mirrors.readBack {b : Board} (mirrors : Mirrors b) (x : Port) :
    readBack b.gpio x = (b.val x).toNat := by
  have bits : (fun i : Fin pbit => decide (b.gpio.level (Output.pin (x, i)) = .low)) =
      fun i : Fin pbit => (b.val x).toNat.testBit i := by
    funext i
    rw [Bool.eq_iff_iff, decide_eq_true_iff]
    exact mirrors (x, i)
  rw [GpioCtrlBoard.readBack, bits, Nat.ofBits_testBit]
  exact Nat.mod_eq_of_lt (b.val x).toNat_lt

/-! ## Start-up -/

/-- The globals as initialised, before `setup` has written any pin. -/
def powerOn (power : Pin → Level) : Board :=
  { p1aVal := 0, p1bVal := 0, p2aVal := 0, p2bVal := 0, count := 0, gpio := ⟨power, []⟩ }

/-- The pin writes of `setup`: both LEDs, then every output high. -/
def setup (b : Board) : Board :=
  let leds := (b.gpio.digitalWriteFast stsLedOr .low).digitalWriteFast stsLedGr .low
  { b with gpio := leds.drive outputs fun _ => .high }

@[simp] theorem setup_val (b : Board) : (setup b).val = b.val := by
  funext x
  cases x <;> simp only [setup, Board.val]

theorem powerOn_val (power : Pin → Level) (x : Port) : (powerOn power).val x = 0 := by
  cases x <;> rfl

theorem setup_level_pin (b : Board) (o : Output) : (setup b).gpio.level o.pin = .high := by
  simp only [setup, Gpio.level_drive_pin]

theorem setup_mirrors (power : Pin → Level) : Mirrors (setup (powerOn power)) := by
  intro o
  simp [setup_level_pin, powerOn_val]

end GpioCtrlBoard
