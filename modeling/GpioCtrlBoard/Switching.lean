import GpioCtrlBoard.ToggleRun

/-! # Pin writes of one update

An update rewrites all 32 outputs four times. Followed write by write, a command
is silent while its byte is the one the board holds, and makes one change when
one bit differs; of the four commands of an update at most one is not silent.
-/

namespace GpioCtrlBoard

open WriteStore

/-- The pin writes of a run of commands. -/
def runWrites : List Str → Board → List (Pin × Level)
  | [], _ => []
  | s :: ss, b =>
    Gpio.driven outputs (portImage (decodeData s b).1.val) ++ runWrites ss (decodeData s b).1

theorem decodeAll_gpio (ss : List Str) (b : Board) :
    (decodeAll ss b).gpio = { b.gpio with writes := b.gpio.writes ++ runWrites ss b } := by
  induction ss generalizing b with
  | nil => simp [runWrites]
  | cons s ss ih =>
      rw [decodeAll_cons, ih, decodeData_gpio, Gpio.drive_writes, runWrites]
      simp only [List.append_assoc]

theorem level_decodeData (s : Str) (b : Board) :
    writeAll b.gpio.level (Gpio.driven outputs (portImage (decodeData s b).1.val)) =
      (decodeData s b).1.gpio.level := by
  rw [decodeData_gpio, Gpio.level_drive]

/-- The changes of the first command, then those of the others. -/
theorem changes_cons (s : Str) (ss : List Str) (b : Board) :
    changes b.gpio.level (runWrites (s :: ss) b) =
      changes b.gpio.level (Gpio.driven outputs (portImage (decodeData s b).1.val)) ++
        changes (decodeData s b).1.gpio.level (runWrites ss (decodeData s b).1) := by
  rw [runWrites, changes_append, level_decodeData]

theorem changes_silent {b : Board} (mirrors : Mirrors b) :
    changes b.gpio.level (Gpio.driven outputs (portImage b.val)) = [] := by
  apply changes_of_agree
  intro w member
  obtain ⟨o, -, rfl⟩ := List.mem_map.mp member
  exact mirrors_iff.mp mirrors o

/-- Values which differ in one bit change one pin. -/
theorem changes_one {b : Board} (mirrors : Mirrors b) {val : Port → UInt8} {o : Output}
    (differs : portImage b.val o ≠ portImage val o)
    (agree : ∀ o' ≠ o, portImage b.val o' = portImage val o') :
    changes b.gpio.level (Gpio.driven outputs (portImage val)) = [(o.pin, portImage val o)] := by
  have shown := mirrors_iff.mp mirrors
  apply changes_of_single (Gpio.driven_nodup _) (List.mem_map_of_mem (mem_outputs o))
  · rw [shown o]
    exact differs
  · intro w member other
    obtain ⟨o', -, rfl⟩ := List.mem_map.mp member
    have apart : o' ≠ o := by
      rintro rfl
      exact other rfl
    rw [shown o']
    exact agree o' apart

/-! ## Runs of commands from a table of bytes -/

theorem changes_commands_silent (val : Port → UInt8) (ks : List Port) {b : Board}
    (mirrors : Mirrors b) (same : b.val = val) :
    changes b.gpio.level (runWrites (commands val ks) b) = [] := by
  induction ks generalizing b with
  | nil => rfl
  | cons x ks ih =>
      have kept : (decodeData (command x (val x)) b).1.val = b.val := by
        rw [decodeData_val_command, ← same, Function.update_eq_self]
      have first := changes_silent mirrors
      rw [← kept] at first
      have rest := ih (decodeData_mirrors (command x (val x)) b) (kept.trans same)
      rw [commands, List.map_cons, changes_cons, first]
      exact rest

/-- Sending bytes which differ from the board's in one bit changes the pin of
    that bit once, and nothing else. -/
theorem changes_commands_one (val : Port → UInt8) {ks : List Port} (distinct : ks.Nodup) {o : Output}
    (inside : o.1 ∈ ks) {b : Board} (mirrors : Mirrors b)
    (others : ∀ y ≠ o.1, b.val y = val y)
    (differs : portImage b.val o ≠ portImage val o)
    (agree : ∀ o' ≠ o, portImage b.val o' = portImage val o') :
    changes b.gpio.level (runWrites (commands val ks) b) = [(o.pin, portImage val o)] := by
  induction ks generalizing b with
  | nil => simp at inside
  | cons x ks ih =>
      obtain ⟨absent, distinct⟩ := List.nodup_cons.mp distinct
      have updated := decodeData_val_command x (val x) b
      have mirrored := decodeData_mirrors (command x (val x)) b
      rw [commands, List.map_cons, changes_cons]
      by_cases here : x = o.1
      · -- The port of the bit: from here on the board holds the new bytes.
        have final : (decodeData (command x (val x)) b).1.val = val := by
          rw [updated]
          funext y
          by_cases same : y = x
          · rw [same, Function.update_self]
          · rw [Function.update_of_ne same]
            exact others y fun h => same (h.trans here.symm)
        have rest := changes_commands_silent val ks mirrored final
        rw [final, changes_one mirrors differs agree]
        exact congrArg _ rest
      · -- Another port: its byte is the one the board holds.
        have kept : (decodeData (command x (val x)) b).1.val = b.val := by
          rw [updated, ← others x here, Function.update_eq_self]
        have first := changes_silent mirrors
        rw [← kept] at first
        have later : o.1 ∈ ks := (List.mem_cons.mp inside).resolve_left (Ne.symm here)
        rw [first]
        apply ih distinct later mirrored
        · intro y other
          rw [kept]
          exact others y other
        · rw [kept]
          exact differs
        · rw [kept]
          exact agree

/-! ## One table command -/

/-- The mask with one bit in one port. -/
def single (o : Output) (x : Port) : Nat := if x = o.1 then 2 ^ (o.2 : Nat) else 0

/-- Every row has one bit or none. -/
theorem mask_single :
    ∀ row ∈ tableVal, (∀ x, row.mask x = 0) ∨ ∃ o : Output, ∀ x, row.mask x = single o x := by
  decide +kernel

theorem testBit_single (o o' : Output) : (single o o'.1).testBit o'.2 = decide (o' = o) := by
  obtain ⟨x, i⟩ := o
  obtain ⟨x', i'⟩ := o'
  by_cases port : x' = x
  · simp only [single, port, if_true, Nat.testBit_two_pow, Prod.mk.injEq, true_and, Fin.ext_iff, eq_comm]
  · simp only [single, port, if_false, Nat.zero_testBit, Prod.mk.injEq, false_and, decide_false]

theorem portImage_eq_iff {val val' : Port → UInt8} {o : Output} :
    portImage val o = portImage val' o ↔
      (val o.1).toNat.testBit o.2 = (val' o.1).toNat.testBit o.2 := by
  rw [Bool.eq_iff_iff, ← bitTest_eq_low, ← bitTest_eq_low]
  simp only [portImage]
  cases bitTest o.2 (val o.1) <;> cases bitTest o.2 (val' o.1) <;> simp

/-- Toggling one bit of the bytes changes the image of that output only. -/
theorem portImage_toggle {val val' : Port → UInt8} {o : Output}
    (toggled : ∀ x, (val' x).toNat = (val x).toNat ^^^ single o x) (o' : Output) :
    portImage val o' = portImage val' o' ↔ o' ≠ o := by
  rw [portImage_eq_iff, toggled, Nat.testBit_xor, testBit_single]
  cases (val o'.1).toNat.testBit o'.2 <;> simp

/-- The other ports keep their bytes. -/
theorem val_of_toggled {val val' : Port → UInt8} {o : Output}
    (toggled : ∀ x, (val' x).toNat = (val x).toNat ^^^ single o x) {y : Port} (other : y ≠ o.1) :
    val' y = val y := by
  apply UInt8.toNat_inj.mp
  rw [toggled, single, if_neg other, Nat.xor_zero]

/-- The script's copies are the bytes of the board. -/
def ValuesAgree (s : Session) : Prop := ∀ x, (s.board.val x).toNat = s.script.port x

theorem ValuesAgree.inRange {s : Session} (agree : ValuesAgree s) : s.script.InRange := by
  intro x
  rw [← agree x]
  exact (s.board.val x).toNat_lt

theorem Agrees.valuesAgree {s : Session} (agrees : Agrees s) : ValuesAgree s := agrees.values

theorem Script.InRange.toggle {script : Script} (inRange : script.InRange) {row : Row}
    (member : row ∈ tableVal) : (script.toggle row).InRange := by
  intro x
  rw [Script.port_toggle]
  exact Nat.xor_lt_two_pow (inRange x) (mask_lt row member x)

/-- What an update sends, in terms of the board. -/
theorem ValuesAgree.toggle_byte {s : Session} (agree : ValuesAgree s) {row : Row}
    (member : row ∈ tableVal) (x : Port) :
    ((s.script.toggle row).byte x).toNat = (s.board.val x).toNat ^^^ row.mask x := by
  have inRange := agree.inRange.toggle member
  rw [inRange.byte_toNat, Script.port_toggle, agree x]

theorem toggle_eq_self {script : Script} {row : Row} (blank : ∀ x, row.mask x = 0) :
    script.toggle row = script := by
  apply Script.ext_port
  funext x
  rw [Script.port_toggle, blank, Nat.xor_zero]

theorem Agrees.byte {s : Session} (agrees : Agrees s) : s.script.byte = s.board.val := by
  funext x
  apply UInt8.toNat_inj.mp
  rw [agrees.valuesAgree.inRange.byte_toNat, agrees.values]

/-- The changes of an update which arrives in full. -/
theorem updatePort_changes {s : Session} (agrees : Agrees s) {row : Row} (member : row ∈ tableVal)
    {fate : Nat → Delivery} (reached : ∀ k < 4, (fate k).reaches) :
    ∃ ws, (updatePort row fate s).board.gpio =
        { s.board.gpio with writes := s.board.gpio.writes ++ ws } ∧
      (((∀ x, row.mask x = 0) ∧ changes s.board.gpio.level ws = []) ∨
        ∃ o : Output, (∀ x, row.mask x = single o x) ∧
          ∃ new, new ≠ s.board.gpio.level o.pin ∧ changes s.board.gpio.level ws = [(o.pin, new)]) := by
  have inRange := agrees.valuesAgree.inRange.toggle member
  have bytes := agrees.valuesAgree.toggle_byte member
  refine ⟨runWrites (commands (s.script.toggle row).byte ports) s.board, ?_, ?_⟩
  · rw [updatePort_board, ← decodeAll_gpio]
    exact congrArg Board.gpio (inRange.sendAll_take reached 4 s.board)
  · rcases mask_single row member with blank | ⟨o, mask⟩
    · left
      refine ⟨blank, changes_commands_silent _ _ agrees.mirrors ?_⟩
      rw [toggle_eq_self blank]
      exact agrees.byte.symm
    · right
      have toggled : ∀ x, ((s.script.toggle row).byte x).toNat = (s.board.val x).toNat ^^^ single o x := by
        intro x
        rw [bytes, mask]
      have image := portImage_toggle toggled
      have others : ∀ y ≠ o.1, s.board.val y = (s.script.toggle row).byte y :=
        fun y other => (val_of_toggled toggled other).symm
      have differs : portImage s.board.val o ≠ portImage (s.script.toggle row).byte o := fun same =>
        (image o).mp same rfl
      refine ⟨o, mask, portImage (s.script.toggle row).byte o, ?_, ?_⟩
      · rw [mirrors_iff.mp agrees.mirrors o]
        exact differs.symm
      · exact changes_commands_one _ (by decide) (mem_ports o.1) agrees.mirrors others differs
          fun o' other => (image o').mpr other

/-- After each request of an update the board holds its old bytes or the new ones. -/
theorem sendAll_take_old_or_new {s : Session} (agrees : Agrees s) {row : Row}
    (member : row ∈ tableVal) {fate : Nat → Delivery} (reached : ∀ k < 4, (fate k).reaches) (n : Nat) :
    (sendAll ((s.script.toggle row).requests.take n) fate s.board).val = s.board.val ∨
      (sendAll ((s.script.toggle row).requests.take n) fate s.board).val = (s.script.toggle row).byte := by
  have inRange := agrees.valuesAgree.inRange.toggle member
  rw [inRange.sendAll_take reached]
  rcases mask_single row member with blank | ⟨o, mask⟩
  · left
    funext x
    rw [decodeAll_commands_val, toggle_eq_self blank, agrees.byte, ite_self]
  · have toggled : ∀ x, ((s.script.toggle row).byte x).toNat = (s.board.val x).toNat ^^^ single o x := by
      intro x
      rw [agrees.valuesAgree.toggle_byte member, mask]
    have others : ∀ y ≠ o.1, (s.script.toggle row).byte y = s.board.val y := fun y other =>
      val_of_toggled toggled other
    by_cases sent : o.1 ∈ ports.take n
    · right
      funext x
      rw [decodeAll_commands_val]
      by_cases here : x = o.1
      · rw [here, if_pos sent]
      · rw [others x here, ite_self]
    · left
      funext x
      rw [decodeAll_commands_val]
      by_cases here : x = o.1
      · rw [here, if_neg sent]
      · rw [others x here, ite_self]

theorem requestLine_getValues : route (requestLine "/getValues".toList) = .getValues := by
  decide +kernel

/-- Reading the values touches neither ports nor pins. -/
theorem getValues_outputs (fate : Delivery) (b : Board) :
    (queryValues "/getValues".toList fate b).1.gpio = b.gpio ∧
      (queryValues "/getValues".toList fate b).1.val = b.val := by
  simp only [queryValues_board, handleRequest_board, requestLine_getValues]
  by_cases arrived : fate.reaches
  · rw [if_pos arrived]
    refine ⟨rfl, ?_⟩
    funext x
    cases x <;> rfl
  · rw [if_neg arrived]
    exact ⟨rfl, rfl⟩

theorem setDevice_read_outputs (fate : Nat → Delivery) (s : Session) :
    (setDevice "READ" fate s).1.board.gpio = s.board.gpio ∧
      (setDevice "READ" fate s).1.board.val = s.board.val := by
  rw [setDevice_read]
  exact getValues_outputs (fate 0) s.board

/-- From agreement a table command changes the level of the one output in its
    mask, once, and of no output when its mask is zero; in between the ports
    hold the old bytes or the new ones. -/
theorem glitch_free_switch {s : Session} (agrees : Agrees s) {row : Row} (member : row ∈ tableVal)
    {fate : Nat → Delivery} (reached : ∀ k < 4, (fate k).reaches) :
    let after := (setDevice row.name fate s).1
    (∃ ws, after.board.gpio = { s.board.gpio with writes := s.board.gpio.writes ++ ws } ∧
      (((∀ x, row.mask x = 0) ∧ changes s.board.gpio.level ws = []) ∨
        ∃ o : Output, (∀ x, row.mask x = single o x) ∧
          ∃ new, new ≠ s.board.gpio.level o.pin ∧
            changes s.board.gpio.level ws = [(o.pin, new)])) ∧
    ∀ n, (sendAll (after.script.requests.take n) fate s.board).val = s.board.val ∨
      (sendAll (after.script.requests.take n) fate s.board).val = after.board.val := by
  intro after
  by_cases read : row.name = "READ"
  · have blank := mask_read row member read
    have outputs := setDevice_read_outputs fate s
    have script : after.script = s.script.toggle row := by
      simp only [after, read, setDevice_read, toggle_eq_self blank]
    rw [← read] at outputs
    refine ⟨⟨[], ?_, Or.inl ⟨blank, rfl⟩⟩, ?_⟩
    · rw [outputs.1, List.append_nil]
    · intro n
      rw [script, outputs.2]
      have bytes := sendAll_take_old_or_new agrees member reached n
      rw [toggle_eq_self blank, agrees.byte] at bytes
      rw [toggle_eq_self blank]
      exact bytes
  · have updated : after = updatePort row fate s := by
      simp only [after, setDevice_row (rowOf_name row member read)]
    have final : after.board.val = (s.script.toggle row).byte := by
      funext x
      have inRange := agrees.valuesAgree.inRange.toggle member
      apply UInt8.toNat_inj.mp
      rw [updated, (updatePort_agrees s inRange reached).values, inRange.byte_toNat]
      rfl
    rw [final, updated]
    exact ⟨updatePort_changes agrees member reached, sendAll_take_old_or_new agrees member reached⟩

theorem powerOn_agrees : Agrees ⟨.initial, setup (powerOn fun _ => .low)⟩ where
  values x := by cases x <;> rfl
  mirrors := setup_mirrors _

theorem glitch_free_switch_cal_on :
    let s : Session := ⟨.initial, setup (powerOn fun _ => .low)⟩
    let row : Row := ⟨"CAL ON", 0b00000010, 0, 0, 0⟩
    let after := (setDevice row.name (fun _ => .answered) s).1
    (∃ ws, after.board.gpio = { s.board.gpio with writes := s.board.gpio.writes ++ ws } ∧
      (((∀ x, row.mask x = 0) ∧ changes s.board.gpio.level ws = []) ∨
        ∃ o : Output, (∀ x, row.mask x = single o x) ∧
          ∃ new, new ≠ s.board.gpio.level o.pin ∧
            changes s.board.gpio.level ws = [(o.pin, new)])) ∧
    ∀ n, (sendAll (after.script.requests.take n) (fun _ => .answered) s.board).val = s.board.val ∨
      (sendAll (after.script.requests.take n) (fun _ => .answered) s.board).val = after.board.val :=
  glitch_free_switch powerOn_agrees (by decide +kernel) fun _ _ => rfl

end GpioCtrlBoard
