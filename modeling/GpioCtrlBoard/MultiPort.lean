import GpioCtrlBoard.FieldCut

/-! # Requests with several fields

The documented command concatenates one field per port. The handler cuts out
the first field only, so the request does what its first field does. Compared
with applying every field in order, this is enough exactly when the remaining
fields leave every port as the first one left it.
-/

namespace GpioCtrlBoard

open WriteStore

/-- One field of the command format: `portVal=a255&`. -/
def fieldText (f : Port × UInt8) : Str := portValKey ++ (command f.1 f.2 ++ ['&'])

def fieldsLine (fs : List (Port × UInt8)) : Str :=
  requestHead ++ (fs.flatMap fieldText ++ requestTail)

/-- Equal port variables and equal pin levels. -/
def SameOutputs (b b' : Board) : Prop := b.val = b'.val ∧ b.gpio.level = b'.gpio.level

theorem length_command (x : Port) (v : UInt8) : (command x v).length ≤ 4 := by
  have short := (length_decimal_byte v).2
  simp only [command, List.length_cons]
  omega

/-- Whatever follows the first field has no effect. -/
theorem handleRequest_fieldsLine (b : Board) (f : Port × UInt8) (fs : List (Port × UInt8)) :
    (handleRequest (fieldsLine (f :: fs)) b).board = (decodeData (command f.1 f.2) b).1 := by
  have small : 13 + (command f.1 f.2).length < 2 ^ 32 := by
    have short := length_command f.1 f.2
    omega
  have line : fieldsLine (f :: fs) = requestHead ++ (portValKey ++
      (command f.1 f.2 ++ '&' :: (fs.flatMap fieldText ++ requestTail))) := by
    simp only [fieldsLine, fieldText, List.flatMap_cons, List.append_assoc, List.cons_append,
      List.nil_append]
  rw [handleRequest_board, line, route_portVal (command_no_amp f.1 f.2) small]
  rfl

theorem decodeData_command_val (b : Board) (f : Port × UInt8) :
    (decodeData (command f.1 f.2) b).1.val = write b.val f :=
  decodeData_val_command f.1 f.2 b

theorem filterMap_accepted_commands (fs : List (Port × UInt8)) :
    (fs.map fun f => command f.1 f.2).filterMap accepted = fs := by
  simp only [List.filterMap_map, Function.comp_def, accepted_command, Prod.mk.eta,
    List.filterMap_some]

/-- The handler and the field-by-field reading agree iff the last value of every
    port is the one the first field leaves there. -/
theorem multi_port_request_iff (b : Board) (f : Port × UInt8) (fs : List (Port × UInt8)) :
    SameOutputs (handleRequest (fieldsLine (f :: fs)) b).board
        (decodeAll ((f :: fs).map fun f => command f.1 f.2) b) ↔
      ∀ x, (lastWrite x (f :: fs)).getD (b.val x) = if f.1 = x then f.2 else b.val x := by
  rw [handleRequest_fieldsLine]
  have allVal : (decodeAll ((f :: fs).map fun f => command f.1 f.2) b).val =
      writeAll b.val (f :: fs) := by
    rw [decodeAll_val, filterMap_accepted_commands]
  have first : ∀ x, write b.val f x = if f.1 = x then f.2 else b.val x := by
    intro x
    simp only [write, Function.update_apply, eq_comm]
  constructor
  · rintro ⟨same, -⟩ x
    rw [← writeAll_apply, ← allVal, ← same, decodeData_command_val, first]
  · intro last
    have same : (decodeData (command f.1 f.2) b).1.val =
        (decodeAll ((f :: fs).map fun f => command f.1 f.2) b).val := by
      funext x
      rw [decodeData_command_val, allVal, first, writeAll_apply, last]
    refine ⟨same, ?_⟩
    rw [decodeData_gpio, same, ← decodeAll_level (by simp)]

/-- The documented four-port command sets the first port only. -/
theorem documented_command_incomplete :
    ¬ SameOutputs
      (handleRequest (fieldsLine [(.p1a, 255), (.p1b, 255), (.p2a, 255), (.p2b, 255)])
        (setup (powerOn fun _ => .low))).board
      (decodeAll ([(Port.p1a, 255), (.p1b, 255), (.p2a, 255), (.p2b, 255)].map
        fun f => command f.1 f.2) (setup (powerOn fun _ => .low))) := by
  rintro ⟨same, -⟩
  have port := congrFun same .p1b
  rw [handleRequest_fieldsLine, decodeData_command_val, decodeAll_val, filterMap_accepted_commands,
    writeAll_apply] at port
  revert port
  decide

end GpioCtrlBoard
