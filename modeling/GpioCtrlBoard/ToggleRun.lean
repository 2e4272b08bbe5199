import GpioCtrlBoard.Attenuator

/-! # Runs of the attenuator script

The script's copy of a port is the XOR of the masks of the commands given so
far, whatever happened to the requests. One update which arrives in full
brings any board to that copy, so earlier losses do not matter.
-/

namespace GpioCtrlBoard

open WriteStore XorParity

/-- The row a command updates; `READ` is caught before the table is searched. -/
def rowOf (cmd : String) : Option Row :=
  if cmd = "READ" then none else tableVal.find? fun row => cmd = row.name

/-- What a command toggles. -/
def maskOf (cmd : String) (x : Port) : Nat := ((rowOf cmd).map fun row => row.mask x).getD 0

/-- The script after a command. -/
def Script.after (s : Script) (cmd : String) : Script :=
  match rowOf cmd with
  | some row => s.toggle row
  | none => s

theorem Script.port_after (s : Script) (cmd : String) (x : Port) :
    (s.after cmd).port x = s.port x ^^^ maskOf cmd x := by
  cases found : rowOf cmd with
  | none => simp [Script.after, maskOf, found]
  | some row => simp [Script.after, maskOf, found]

theorem search_eq {cmd : String} (command : cmd ≠ "READ") (fate : Nat → Delivery) (s : Session)
    (rows : List Row) :
    setDevice.search cmd fate s rows = match rows.find? fun row => cmd = row.name with
      | some row => (updatePort row fate s, .text cmd)
      | none => (s, .text "No cmd") := by
  induction rows with
  | nil => rfl
  | cons row rows ih =>
      rw [setDevice.search, if_neg command]
      by_cases here : cmd = row.name
      · simp only [if_pos here, List.find?_cons, decide_eq_true here]
      · simp only [if_neg here, ih, List.find?_cons, decide_eq_false here]

theorem setDevice_row {cmd : String} {row : Row} (named : rowOf cmd = some row)
    (fate : Nat → Delivery) (s : Session) :
    setDevice cmd fate s = (updatePort row fate s, .text cmd) := by
  by_cases read : cmd = "READ"
  · simp [rowOf, read] at named
  · rw [rowOf, if_neg read] at named
    rw [setDevice, search_eq read, named]

theorem setDevice_unknown {cmd : String} (command : cmd ≠ "READ") (unnamed : rowOf cmd = none)
    (fate : Nat → Delivery) (s : Session) : setDevice cmd fate s = (s, .text "No cmd") := by
  rw [rowOf, if_neg command] at unnamed
  rw [setDevice, search_eq command, unnamed]

theorem setDevice_read (fate : Nat → Delivery) (s : Session) :
    (setDevice "READ" fate s).1 =
      { s with board := (queryValues "/getValues".toList (fate 0) s.board).1 } := by
  simp only [setDevice, tableVal, setDevice.search, if_true]
  split
  · rename_i board items answered
    rw [answered]
  · rename_i board failed
    rw [failed]

theorem setDevice_script (cmd : String) (fate : Nat → Delivery) (s : Session) :
    (setDevice cmd fate s).1.script = s.script.after cmd := by
  by_cases read : cmd = "READ"
  · subst read
    have unnamed : rowOf "READ" = none := rfl
    rw [setDevice_read, Script.after, unnamed]
  · cases found : rowOf cmd with
    | some row =>
        rw [setDevice_row found, Script.after, found]
        rfl
    | none => rw [setDevice_unknown read found, Script.after, found]

/-! ## The table -/

/-- No bit of a port occurs in both rows. -/
def Row.Disjoint (row row' : Row) : Prop := ∀ x, row.mask x &&& row'.mask x = 0

instance (row row' : Row) : Decidable (row.Disjoint row') :=
  inferInstanceAs (Decidable (∀ x, row.mask x &&& row'.mask x = 0))

instance : Std.Symm Row.Disjoint where
  symm row row' disjoint x := by
    rw [Nat.and_comm]
    exact disjoint x

theorem masks_disjoint : tableVal.Pairwise Row.Disjoint := by
  decide +kernel

theorem mask_lt : ∀ row ∈ tableVal, ∀ x, row.mask x < 2 ^ pbit := by
  decide +kernel

theorem rowOf_name : ∀ row ∈ tableVal, row.name ≠ "READ" → rowOf row.name = some row := by
  decide +kernel

theorem mask_read : ∀ row ∈ tableVal, row.name = "READ" → ∀ x, row.mask x = 0 := by
  decide +kernel

theorem maskOf_name {row : Row} (member : row ∈ tableVal) (x : Port) : maskOf row.name x = row.mask x := by
  by_cases read : row.name = "READ"
  · have unnamed : rowOf "READ" = none := rfl
    rw [read, maskOf, unnamed, mask_read row member read]
    rfl
  · rw [maskOf, rowOf_name row member read]
    rfl

theorem rowOf_some {cmd : String} {row : Row} (named : rowOf cmd = some row) :
    row ∈ tableVal ∧ row.name = cmd := by
  by_cases read : cmd = "READ"
  · simp [rowOf, read] at named
  · rw [rowOf, if_neg read] at named
    have found := List.find?_some named
    rw [decide_eq_true_iff] at found
    exact ⟨List.mem_of_find?_eq_some named, found.symm⟩

theorem same_row {row row' : Row} (member : row ∈ tableVal) (member' : row' ∈ tableVal) {x : Port}
    {i : Nat} (bit : (row.mask x).testBit i) (bit' : (row'.mask x).testBit i) : row = row' := by
  by_contra different
  have disjoint := masks_disjoint.forall member member' different x
  have both : (row.mask x &&& row'.mask x).testBit i := by
    rw [Nat.testBit_and, bit, bit']
    rfl
  rw [disjoint, Nat.zero_testBit] at both
  exact Bool.false_ne_true both

/-- Only the command of its row toggles a bit. -/
theorem testBit_maskOf {row : Row} (member : row ∈ tableVal) {x : Port} {i : Nat}
    (bit : (row.mask x).testBit i) (cmd : String) : (maskOf cmd x).testBit i ↔ cmd = row.name := by
  constructor
  · intro toggled
    cases found : rowOf cmd with
    | none => simp [maskOf, found] at toggled
    | some row' =>
        obtain ⟨member', name⟩ := rowOf_some found
        have bit' : (row'.mask x).testBit i := by simpa [maskOf, found] using toggled
        rw [same_row member member' bit bit', name]
  · rintro rfl
    rw [maskOf_name member]
    exact bit

theorem maskOf_eq_zero {cmd : String} {x : Port}
    (blank : ∀ row ∈ tableVal, row.name = cmd → row.mask x = 0) : maskOf cmd x = 0 := by
  cases found : rowOf cmd with
  | none => simp [maskOf, found]
  | some row =>
      obtain ⟨member, name⟩ := rowOf_some found
      simpa [maskOf, found] using blank row member name

theorem maskOf_lt (cmd : String) (x : Port) : maskOf cmd x < 2 ^ pbit := by
  cases found : rowOf cmd with
  | none => simp [maskOf, found]
  | some row => simpa [maskOf, found] using mask_lt row (rowOf_some found).1 x

/-! ## Runs of calls -/

structure Call where
  cmd : String
  fate : Nat → Delivery

def runCalls (calls : List Call) (s : Session) : Session :=
  calls.foldl (fun s call => (setDevice call.cmd call.fate s).1) s

theorem runCalls_snoc (calls : List Call) (call : Call) (s : Session) :
    runCalls (calls ++ [call]) s = (setDevice call.cmd call.fate (runCalls calls s)).1 := by
  simp only [runCalls, List.foldl_append, List.foldl_cons, List.foldl_nil]

/-- The masks which the commands of a run toggle in one port. -/
def toggles (cmds : List String) (x : Port) : List Nat := cmds.map fun cmd => maskOf cmd x

theorem runCalls_port (calls : List Call) (s : Session) (x : Port) :
    (runCalls calls s).script.port x = xorAll (s.script.port x) (toggles (calls.map Call.cmd) x) := by
  induction calls using List.reverseRecOn with
  | nil => rfl
  | append_singleton calls call ih =>
      rw [runCalls_snoc, setDevice_script, Script.port_after, ih]
      simp only [toggles, List.map_append, xorAll_append]
      rfl

/-- Toggling never leaves one byte. -/
theorem xorAll_toggles_lt {a : Nat} (start : a < 2 ^ pbit) (cmds : List String) (x : Port) :
    xorAll a (toggles cmds x) < 2 ^ pbit := by
  apply xorAll_lt start
  intro mask member
  obtain ⟨cmd, -, rfl⟩ := List.mem_map.mp member
  exact maskOf_lt cmd x

theorem runCalls_inRange (calls : List Call) {s : Session} (inRange : s.script.InRange) :
    (runCalls calls s).script.InRange := by
  intro x
  rw [runCalls_port]
  exact xorAll_toggles_lt (inRange x) _ x

theorem initial_inRange : Script.initial.InRange := by
  intro x
  cases x <;> decide

/-! ## Parity -/

theorem testBit_runCalls (calls : List Call) (b : Board) (x : Port) (i : Nat) :
    ((runCalls calls ⟨.initial, b⟩).script.port x).testBit i ↔
      Odd ((toggles (calls.map Call.cmd) x).countP (·.testBit i)) := by
  have zero : Script.initial.port x = 0 := by cases x <;> rfl
  rw [runCalls_port, testBit_xorAll, zero, Nat.zero_testBit, ← Nat.not_even_iff_odd]
  simp only [Bool.false_eq_true, false_iff]

/-- A bit is set as often as the command of its row was given. -/
theorem testBit_of_row {row : Row} (member : row ∈ tableVal) {x : Port} {i : Nat}
    (bit : (row.mask x).testBit i) (calls : List Call) (b : Board) :
    ((runCalls calls ⟨.initial, b⟩).script.port x).testBit i ↔
      Odd ((calls.map Call.cmd).count row.name) := by
  have counted : (toggles (calls.map Call.cmd) x).countP (·.testBit i) =
      (calls.map Call.cmd).count row.name :=
    countP_testBit_of_unique (calls.map Call.cmd) (testBit_maskOf member bit)
  rw [testBit_runCalls, counted]

theorem testBit_of_no_row {x : Port} {i : Nat}
    (free : ∀ row ∈ tableVal, (row.mask x).testBit i = false) (calls : List Call) (b : Board) :
    ((runCalls calls ⟨.initial, b⟩).script.port x).testBit i = false := by
  have none : (toggles (calls.map Call.cmd) x).countP (·.testBit i) = 0 := by
    rw [List.countP_eq_zero]
    intro mask member
    obtain ⟨cmd, -, rfl⟩ := List.mem_map.mp member
    cases found : rowOf cmd with
    | none => simp [maskOf, found]
    | some row => simpa [maskOf, found] using free row (rowOf_some found).1
  have clear := (testBit_runCalls calls b x i).not
  rw [none] at clear
  exact Bool.eq_false_iff.mpr (clear.mpr (by decide))

/-- The parities of the commands decide the script's copies. -/
theorem script_of_parity {calls calls' : List Call} {b b' : Board}
    (parity : ∀ row ∈ tableVal, Odd ((calls.map Call.cmd).count row.name) ↔
      Odd ((calls'.map Call.cmd).count row.name)) :
    (runCalls calls ⟨.initial, b⟩).script = (runCalls calls' ⟨.initial, b'⟩).script := by
  apply Script.ext_port
  funext x
  apply Nat.eq_of_testBit_eq
  intro i
  by_cases owned : ∃ row ∈ tableVal, (row.mask x).testBit i
  · obtain ⟨row, member, bit⟩ := owned
    rw [Bool.eq_iff_iff, testBit_of_row member bit, testBit_of_row member bit]
    exact parity row member
  · have free : ∀ row ∈ tableVal, (row.mask x).testBit i = false := by
      intro row member
      rw [← Bool.not_eq_true]
      exact fun bit => owned ⟨row, member, bit⟩
    rw [testBit_of_no_row free, testBit_of_no_row free]

theorem after_eq_self {cmd : String}
    (blank : ∀ row ∈ tableVal, row.name = cmd → ∀ x, row.mask x = 0) (s : Script) :
    s.after cmd = s := by
  apply Script.ext_port
  funext x
  have zero : maskOf cmd x = 0 := maskOf_eq_zero fun row member name => blank row member name x
  rw [Script.port_after, zero, Nat.xor_zero]

/-- What a sequence of commands does to the script's copies, and what an update
    then does to the board: a port whose request arrives holds the script's value. -/
theorem toggle_parity (b : Board) (calls : List Call) :
    let s := runCalls calls ⟨.initial, b⟩
    (∀ row ∈ tableVal, ∀ x i, (row.mask x).testBit i →
      ((s.script.port x).testBit i ↔ Odd ((calls.map Call.cmd).count row.name))) ∧
    (∀ x i, (∀ row ∈ tableVal, (row.mask x).testBit i = false) →
      (s.script.port x).testBit i = false) ∧
    (∀ cmd fate, (∀ row ∈ tableVal, row.name = cmd → ∀ x, row.mask x = 0) →
      (setDevice cmd fate s).1.script = s.script) ∧
    (∀ calls' b', (∀ row ∈ tableVal, Odd ((calls.map Call.cmd).count row.name) ↔
        Odd ((calls'.map Call.cmd).count row.name)) →
      (runCalls calls' ⟨.initial, b'⟩).script = s.script) ∧
    ∀ cmd fate row, rowOf cmd = some row →
      let after := (setDevice cmd fate s).1
      after.board = decodeAll
          (commands after.script.byte (ports.filter fun x => (fate (ports.idxOf x)).reaches)) s.board ∧
        ∀ x, after.script.port x ≤ 255 ∧ (after.board.val x).toNat =
          if (fate (ports.idxOf x)).reaches then after.script.port x else (s.board.val x).toNat := by
  intro s
  refine ⟨?_, ?_, ?_, ?_, ?_⟩
  · intro row member x i bit
    exact testBit_of_row member bit calls b
  · intro x i free
    exact testBit_of_no_row free calls b
  · intro cmd fate blank
    rw [setDevice_script]
    exact after_eq_self blank s.script
  · intro calls' b' parity
    exact (script_of_parity parity).symm
  · intro cmd fate row named after
    have inRange : after.script.InRange := by
      have longer := runCalls_inRange (calls ++ [⟨cmd, fate⟩]) (s := ⟨.initial, b⟩) initial_inRange
      rw [runCalls_snoc] at longer
      exact longer
    have updated : after = updatePort row fate s := by simp only [after, setDevice_row named]
    rw [updated] at inRange ⊢
    refine ⟨updatePort_arrived inRange fate, fun x => ⟨Nat.le_of_lt_succ (inRange x), ?_⟩⟩
    rw [updatePort_val inRange]
    split
    · exact inRange.byte_toNat x
    · rfl

/-! ## Agreement of script and board -/

/-- The board holds the script's bytes and shows them. -/
structure Agrees (s : Session) : Prop where
  values : ∀ x, (s.board.val x).toNat = s.script.port x
  mirrors : Mirrors s.board

/-- An update which arrives in full brings about agreement from any board. -/
theorem updatePort_agrees {row : Row} {fate : Nat → Delivery} (s : Session)
    (inRange : (s.script.toggle row).InRange) (reached : ∀ k < 4, (fate k).reaches) :
    Agrees (updatePort row fate s) := by
  have board : (updatePort row fate s).board =
      decodeAll (commands (s.script.toggle row).byte ports) s.board := by
    rw [updatePort_board]
    exact inRange.sendAll_take reached 4 s.board
  constructor
  · intro x
    rw [board, decodeAll_commands_val, if_pos (mem_ports x)]
    exact inRange.byte_toNat x
  · rw [board]
    exact decodeAll_mirrors_of_ne_nil (List.cons_ne_nil _ _) s.board

/-- After any run from the script's start, with any board and any losses, a
    command whose four requests arrive leaves board, pins and script agreeing. -/
theorem complete_update_agrees (b : Board) (fate : Nat → Delivery) (calls : List Call) (call : Call)
    {row : Row} (named : rowOf call.cmd = some row) (reached : ∀ k < 4, (call.fate k).reaches) :
    let s := runCalls (calls ++ [call]) (startUp fate b)
    ∀ x, (s.board.val x).toNat = s.script.port x ∧ s.script.port x ≤ 255 ∧
      ∀ i : Fin pbit, s.board.gpio.level (Output.pin (x, i)) = .low ↔ (s.script.port x).testBit i := by
  intro s x
  have last : s = updatePort row call.fate (runCalls calls (startUp fate b)) := by
    simp only [s, runCalls_snoc, setDevice_row named]
  have inRange : s.script.InRange := runCalls_inRange _ initial_inRange
  have agrees : Agrees s := by
    rw [last] at inRange ⊢
    exact updatePort_agrees _ inRange reached
  refine ⟨agrees.values x, Nat.le_of_lt_succ (inRange x), ?_⟩
  intro i
  rw [← agrees.values x]
  exact agrees.mirrors (x, i)

theorem complete_update_agrees_cal_on :
    let s := runCalls ([⟨"CAL A8", fun _ => .lost⟩] ++ [⟨"CAL ON", fun _ => .replyLost⟩])
      (startUp (fun _ => .lost) (powerOn fun _ => .low))
    ∀ x, (s.board.val x).toNat = s.script.port x ∧ s.script.port x ≤ 255 ∧
      ∀ i : Fin pbit, s.board.gpio.level (Output.pin (x, i)) = .low ↔
        (s.script.port x).testBit i := by
  have named : rowOf "CAL ON" = some ⟨"CAL ON", 0b00000010, 0, 0, 0⟩ := by decide +kernel
  exact complete_update_agrees (powerOn fun _ => .low) (fun _ => .lost)
    [⟨"CAL A8", fun _ => .lost⟩] ⟨"CAL ON", fun _ => .replyLost⟩ named fun _ _ => rfl

end GpioCtrlBoard
