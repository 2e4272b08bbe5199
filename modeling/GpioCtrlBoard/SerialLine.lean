import GpioCtrlBoard.Chunks
import GpioCtrlBoard.NumberText

/-! # Commands on the serial line

The thread hands a received line to `decodeData` as it is, without the `\n`. A
command reaches the same string through the web server, which cuts it out of
the request line. A `\r` in front of the `\n` stays in the string: it turns a
query into an assignment of 0 and makes a three-digit value too long.
-/

namespace GpioCtrlBoard

/-- What one round of the serial thread leaves behind: the board, the text
    printed and the bytes which are still to be read. -/
structure SerialRound where
  board : Board
  reply : Str
  pending : Str

/-- One round of the loop, with the bytes received so far. -/
def heartBeatThread (bytes : Str) (b : Board) : SerialRound :=
  if bytes.length > 0 then
    let receivedData := readStringUntil '\n' bytes
    let (b, returnString) := decodeData receivedData b
    { board := b
      reply := returnString ++ "\r\n".toList
      pending := bytes.drop (receivedData.length + 1) }
  else
    { board := b, reply := [], pending := bytes }

theorem heartBeatThread_line {line : Str} (absent : '\n' ∉ line) (rest : Str) (b : Board) :
    heartBeatThread (line ++ '\n' :: rest) b =
      ⟨(decodeData line b).1, (decodeData line b).2 ++ "\r\n".toList, rest⟩ := by
  have nonempty : (line ++ '\n' :: rest).length > 0 := by
    simp only [List.length_append, List.length_cons]
    omega
  have behind : (line ++ '\n' :: rest).drop (line.length + 1) = rest := by
    rw [← List.drop_drop, List.drop_left]
    rfl
  simp only [heartBeatThread, if_pos nonempty, readStringUntil_append absent, behind]

/-! ## The same command through the web server -/

/-- The request line which carries a text as the value of its field. -/
def valueLine (c : Str) : Str := requestHead ++ (portValKey ++ (c ++ '&' :: requestTail))

theorem valueLine_no_cr {c : Str} (noCr : '\r' ∉ c) : '\r' ∉ valueLine c := by
  simp only [valueLine, List.mem_append, List.mem_cons, not_or]
  exact ⟨by decide, by decide, noCr, by decide, by decide⟩

theorem length_valueLine (c : Str) : (valueLine c).length = 13 + c.length + 10 := by
  simp only [valueLine, List.length_append, List.length_cons, ← Nat.add_assoc]
  rfl

/-- Whatever stands behind the two lines, both paths end in the same board. -/
theorem http_agrees_with_serial (b : Board) (c headers rest : Str) (noAmp : '&' ∉ c)
    (noCr : '\r' ∉ c) (noLf : '\n' ∉ c) (fits : (valueLine c).length < 2 ^ 32) :
    (handleWebServer (valueLine c ++ '\r' :: headers) b).board =
      (heartBeatThread (c ++ '\n' :: rest) b).board := by
  have lengths := length_valueLine c
  have nonempty : valueLine c ++ '\r' :: headers ≠ [] := by simp
  have routed : route (valueLine c) = .portVal c := route_portVal noAmp (by omega)
  rw [handleWebServer_board nonempty, readStringUntil_append (valueLine_no_cr noCr), routed,
    heartBeatThread_line noLf]
  rfl

/-- Both set the third port to 42; on the serial port more is waiting. -/
theorem http_agrees_with_serial_signed :
    (handleWebServer (valueLine "c+42".toList ++ '\r' :: "\n\r\n".toList)
        (powerOn fun _ => .low)).board =
      (heartBeatThread ("c+42".toList ++ '\n' :: "d9".toList) (powerOn fun _ => .low)).board ∧
    (heartBeatThread ("c+42".toList ++ '\n' :: "d9".toList) (powerOn fun _ => .low)).board.p2aVal = 42 :=
  ⟨http_agrees_with_serial _ _ _ _ (by decide) (by decide) (by decide) (by decide), by decide +kernel⟩

/-! ## Rounds of the thread -/

/-- So many rounds, with the replies in order. -/
def serialRounds : Nat → Str → Board → Board × List Str
  | 0, _, b => (b, [])
  | n + 1, bytes, b =>
    let first := heartBeatThread bytes b
    let (final, replies) := serialRounds n first.pending first.board
    (final, first.reply :: replies)

/-- The replies which `decodeData` gives to a sequence of lines. -/
def lineReplies : List Str → Board → List Str
  | [], _ => []
  | line :: lines, b => ((decodeData line b).2 ++ "\r\n".toList) :: lineReplies lines (decodeData line b).1

theorem serialRounds_lines (lines : List Str) (clean : ∀ line ∈ lines, '\n' ∉ line) (b : Board) :
    serialRounds lines.length (lines.flatMap (· ++ ['\n'])) b = (decodeAll lines b, lineReplies lines b) := by
  induction lines generalizing b with
  | nil => rfl
  | cons line lines ih =>
      have here : '\n' ∉ line := clean line List.mem_cons_self
      have later := ih (fun l member => clean l (List.mem_cons_of_mem line member)) (decodeData line b).1
      simp only [List.flatMap_cons, List.append_assoc, List.singleton_append, List.length_cons,
        serialRounds, heartBeatThread_line here, later]
      rfl

/-! ## Line endings -/

/-- The commands of the board: the value of a port is asked for or set. -/
inductive SerialCommand where
  | query (x : Port)
  | set (x : Port) (v : UInt8)

inductive LineEnd where
  | lf
  | crlf
  deriving DecidableEq

namespace SerialCommand

def text : SerialCommand → Str
  | query x => [x.letter]
  | set x v => command x v

/-- What is received in front of the `\n`. -/
def line (c : SerialCommand) : LineEnd → Str
  | .lf => c.text
  | .crlf => c.text ++ ['\r']

/-- The values after the command, as it is meant. -/
def apply : SerialCommand → (Port → UInt8) → Port → UInt8
  | query _, val => val
  | set x v, val => Function.update val x v

/-- The states in which a `\r` makes no difference to the command. -/
def Unharmed : SerialCommand → (Port → UInt8) → Prop
  | query x, val => val x = 0
  | set x v, val => v < 100 ∨ val x = v

/-- The port which the command addresses. -/
def port : SerialCommand → Port
  | query x | set x _ => x

theorem text_eq (c : SerialCommand) : ∃ d, c.text = c.port.letter :: d := by
  cases c with
  | query x => exact ⟨[], rfl⟩
  | set x v => exact ⟨decimal v.toNat, rfl⟩

theorem charAt_line (c : SerialCommand) (e : LineEnd) : (c.line e).charAt 0 = c.port.letter := by
  obtain ⟨d, text⟩ := c.text_eq
  cases e with
  | lf | crlf => rw [line, text]; rfl

theorem line_no_lf (c : SerialCommand) (e : LineEnd) : '\n' ∉ c.line e := by
  have noLetter : ∀ x : Port, '\n' ≠ x.letter := by
    intro x
    cases x <;> decide
  have plain : '\n' ∉ c.text := by
    cases c with
    | query x => exact List.not_mem_cons_of_ne_of_not_mem (noLetter x) List.not_mem_nil
    | set x v =>
        exact List.not_mem_cons_of_ne_of_not_mem (noLetter x) (not_mem_decimal rfl v.toNat)
  cases e with
  | lf => exact plain
  | crlf =>
      simp only [line, List.mem_append, not_or]
      exact ⟨plain, by decide⟩

/-- With a plain `\n` a command does what it is meant to do. -/
theorem apply_lf (c : SerialCommand) (b : Board) : (decodeData c.text b).1.val = c.apply b.val := by
  cases c with
  | query x =>
      apply decodeData_val_rejected
      rw [text, accepted_letter, if_neg (by simp)]
  | set x v => exact decodeData_val_command x v b

theorem hundred_le_iff (v : UInt8) : 100 ≤ v.toNat ↔ (decimal v.toNat).length = 3 := by
  have short := (length_decimal_byte v).2
  have two := Nat.length_toDigits_le_iff (b := 10) (n := v.toNat) (k := 2) (by decide) (by decide)
  simp only [decimal] at *
  omega

/-- With `\r\n` a query assigns 0, a value below 100 is read in front of the
    `\r`, and a longer one is dropped. -/
def crlfAssigns : SerialCommand → Option (Port × UInt8)
  | query x => some (x, 0)
  | set x v => if v < 100 then some (x, v) else none

theorem accepted_crlf (c : SerialCommand) : accepted (c.line .crlf) = c.crlfAssigns := by
  cases c with
  | query x =>
      exact accepted_eq_some.mpr ⟨['\r'], rfl, by decide, by decide, by decide⟩
  | set x v =>
      have digits : ∀ c ∈ decimal v.toNat, c.isDigit := fun c => isDigit_of_mem_decimal
      have lengths := length_decimal_byte v
      have long := hundred_le_iff v
      have line : (set x v).line .crlf = x.letter :: (decimal v.toNat ++ ['\r']) := rfl
      have hundred : (100 : UInt8).toNat = 100 := rfl
      rw [line, crlfAssigns]
      simp only [UInt8.lt_iff_toNat_lt]
      split
      · refine accepted_eq_some.mpr ⟨_, rfl, by simp, ?_, ?_⟩
        · simp only [List.length_append, List.length_singleton]
          omega
        · rw [Str.toInt, atol_digits_append (List.ne_nil_of_length_pos lengths.1) digits (by decide),
            decimal, Nat.ofDigitChars_ten_toDigits]
      · rw [accepted_letter, if_neg]
        rintro ⟨-, short, -⟩
        simp only [List.length_append, List.length_singleton] at short
        omega

theorem assign_val (b : Board) (x : Port) : b.assign x (b.val x) = b := by
  cases x <;> rfl

/-- A command which is not harmed by the `\r` is decoded alike. -/
theorem decode_same {c : SerialCommand} {b : Board} (unharmed : c.Unharmed b.val) :
    decodeData (c.line .crlf) b = decodeData (c.line .lf) b := by
  have same : assigned (c.line .crlf) b = assigned (c.line .lf) b := by
    simp only [assigned, accepted_crlf]
    cases c with
    | query x =>
        have silent : accepted ((query x).line .lf) = none := by
          rw [line, text, accepted_letter, if_neg (by simp)]
        have kept := assign_val b x
        rw [show b.val x = 0 from unharmed] at kept
        rw [silent, crlfAssigns]
        exact kept
    | set x v =>
        have taken : accepted ((set x v).line .lf) = some (x, v) := accepted_command x v
        rw [taken]
        rcases unharmed with small | held
        · rw [crlfAssigns, if_pos small]
        · have kept := assign_val b x
          rw [held] at kept
          by_cases small : v < 100
          · rw [crlfAssigns, if_pos small]
          · rw [crlfAssigns, if_neg small]
            exact kept.symm
  rw [decodeData_eq, decodeData_eq, same, charAt_line, charAt_line]

/-- A command which is harmed is answered differently. -/
theorem unharmed_of_reply {c : SerialCommand} {b : Board}
    (same : (decodeData (c.line .crlf) b).2 = (decodeData (c.line .lf) b).2) : c.Unharmed b.val := by
  simp only [decodeData_reply, charAt_line, Port.ofLetter_letter, List.append_cancel_left_eq] at same
  have value := congrArg Str.toInt same
  rw [toInt_decimal, toInt_decimal, Int.natCast_inj, UInt8.toNat_inj, line, apply_lf] at value
  have taken := accepted_crlf c
  cases c with
  | query x =>
      rw [decodeData_val_accepted taken, port, Function.update_self] at value
      exact value.symm
  | set x v =>
      by_cases small : v < 100
      · exact .inl small
      · rw [crlfAssigns, if_neg small] at taken
        rw [decodeData_val_rejected taken, port, apply, Function.update_self] at value
        exact .inr value

end SerialCommand

/-- What the serial port receives for a sequence of commands and line endings. -/
def received (cs : List (SerialCommand × LineEnd)) : Str :=
  cs.flatMap fun c => c.1.text ++ match c.2 with
    | .lf => "\n".toList
    | .crlf => "\r\n".toList

theorem received_lines (cs : List (SerialCommand × LineEnd)) :
    received cs = (cs.map fun c => c.1.line c.2).flatMap (· ++ ['\n']) := by
  rw [received, List.flatMap_map]
  congr 1
  funext c
  obtain ⟨c, e⟩ := c
  cases e with
  | lf => rfl
  | crlf => exact (List.append_assoc c.text ['\r'] ['\n']).symm

theorem serialRounds_received (cs : List (SerialCommand × LineEnd)) (b : Board) :
    serialRounds cs.length (received cs) b =
      (decodeAll (cs.map fun c => c.1.line c.2) b, lineReplies (cs.map fun c => c.1.line c.2) b) := by
  have clean : ∀ line ∈ cs.map fun c => c.1.line c.2, '\n' ∉ line := by
    intro line member
    obtain ⟨c, -, rfl⟩ := List.mem_map.mp member
    exact c.1.line_no_lf c.2
  have rounds := serialRounds_lines _ clean b
  rw [List.length_map] at rounds
  rw [received_lines, rounds]

/-- The same commands, each with a plain `\n`. -/
def plainEnds (cs : List (SerialCommand × LineEnd)) : List (SerialCommand × LineEnd) :=
  cs.map fun c => (c.1, .lf)

/-- No command which ends with `\r\n` meets a state in which that matters. -/
def EndingsUnharmed : List (SerialCommand × LineEnd) → (Port → UInt8) → Prop
  | [], _ => True
  | (c, e) :: cs, val => (e = .crlf → c.Unharmed val) ∧ EndingsUnharmed cs (c.apply val)

theorem decode_same_of_unharmed {c : SerialCommand} {e : LineEnd} {b : Board}
    (unharmed : e = .crlf → c.Unharmed b.val) : decodeData (c.line e) b = decodeData (c.line .lf) b := by
  cases e with
  | lf => rfl
  | crlf => exact SerialCommand.decode_same (unharmed rfl)

theorem endings_unharmed_of_replies {cs : List (SerialCommand × LineEnd)} {b : Board}
    (same : lineReplies (cs.map fun c => c.1.line c.2) b =
      lineReplies ((plainEnds cs).map fun c => c.1.line c.2) b) : EndingsUnharmed cs b.val := by
  induction cs generalizing b with
  | nil => trivial
  | cons c cs ih =>
      obtain ⟨c, e⟩ := c
      obtain ⟨first, later⟩ := List.cons.inj same
      have unharmed : e = .crlf → c.Unharmed b.val := by
        rintro rfl
        exact SerialCommand.unharmed_of_reply (List.append_cancel_right first)
      refine ⟨unharmed, ?_⟩
      -- The two runs have the same board behind the first command.
      simp only [decode_same_of_unharmed unharmed] at later
      rw [← SerialCommand.apply_lf]
      exact ih later

theorem decoded_alike {cs : List (SerialCommand × LineEnd)} {b : Board}
    (unharmed : EndingsUnharmed cs b.val) :
    decodeAll (cs.map fun c => c.1.line c.2) b = decodeAll ((plainEnds cs).map fun c => c.1.line c.2) b ∧
      lineReplies (cs.map fun c => c.1.line c.2) b =
        lineReplies ((plainEnds cs).map fun c => c.1.line c.2) b := by
  induction cs generalizing b with
  | nil => exact ⟨rfl, rfl⟩
  | cons c cs ih =>
      obtain ⟨c, e⟩ := c
      obtain ⟨here, rest⟩ := unharmed
      have step : decodeData (c.line e) b = decodeData (c.line .lf) b := decode_same_of_unharmed here
      rw [← SerialCommand.apply_lf] at rest
      obtain ⟨boards, replies⟩ := ih rest
      constructor
      · simp only [plainEnds, List.map_cons, decodeAll_cons, step]
        exact boards
      · simp only [plainEnds, List.map_cons, lineReplies, step]
        exact congrArg _ replies

/-- The line endings do not matter to a sequence of commands exactly when every
    query which ends with `\r\n` finds 0 and every such value from 100 on finds
    itself in its port. -/
theorem line_endings_iff (b : Board) (cs : List (SerialCommand × LineEnd)) :
    (SameOutputs (serialRounds cs.length (received cs) b).1
        (serialRounds cs.length (received (plainEnds cs)) b).1 ∧
      (serialRounds cs.length (received cs) b).2 =
        (serialRounds cs.length (received (plainEnds cs)) b).2) ↔
      EndingsUnharmed cs b.val := by
  have plain := serialRounds_received (plainEnds cs) b
  have count : (plainEnds cs).length = cs.length := List.length_map _
  rw [count] at plain
  rw [serialRounds_received, plain]
  constructor
  · rintro ⟨-, replies⟩
    exact endings_unharmed_of_replies replies
  · intro unharmed
    obtain ⟨boards, replies⟩ := decoded_alike unharmed
    refine ⟨?_, replies⟩
    rw [boards]
    exact ⟨rfl, rfl⟩

/-- A query which ends with `\r\n` switches port A off. -/
theorem crlf_query_clears :
    ¬ (SameOutputs
        (serialRounds 2 (received [(.set .p1a 7, .lf), (.query .p1a, .crlf)]) (powerOn fun _ => .low)).1
        (serialRounds 2 (received (plainEnds [(.set .p1a 7, .lf), (.query .p1a, .crlf)]))
          (powerOn fun _ => .low)).1 ∧
      (serialRounds 2 (received [(.set .p1a 7, .lf), (.query .p1a, .crlf)]) (powerOn fun _ => .low)).2 =
        (serialRounds 2 (received (plainEnds [(.set .p1a 7, .lf), (.query .p1a, .crlf)]))
          (powerOn fun _ => .low)).2) := by
  rintro ⟨-, replies⟩
  revert replies
  decide +kernel

end GpioCtrlBoard
