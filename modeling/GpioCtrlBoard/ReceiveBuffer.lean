import GpioCtrlBoard.Chunks

/-! # The receive buffer of a connection

`available` moves what has arrived to the front of the socket's buffer and
leaves the rest as it was. A single `read` takes the next byte of the buffer
and counts `_remaining` down without looking at it, so a line which has not
been received in full goes on with what an earlier request has left there.
-/

namespace GpioCtrlBoard

/-- The contents of a socket's buffer of `size` bytes. -/
structure Buffer (size : Nat) where
  bytes : Str
  full : bytes.length = size

/-- What has arrived in one piece; it fits into the buffer. -/
structure Received (size : Nat) where
  bytes : Str
  fits : bytes.length ≤ size

/-- A client with the buffer of its socket. -/
structure Client (size : Nat) where
  receive : Buffer size
  index : Nat
  remaining : Int

/-- The client which `server.available` makes for a socket. -/
def Client.new {size : Nat} (receive : Buffer size) : Client size :=
  { receive := receive, index := 0, remaining := 0 }

/-- `recvfrom` copies what has arrived over the front of the buffer. -/
def Buffer.recvfrom {size : Nat} (buffer : Buffer size) (chunk : Received size) : Buffer size where
  bytes := chunk.bytes ++ buffer.bytes.drop chunk.bytes.length
  full := by
    have fits := chunk.fits
    rw [List.length_append, List.length_drop, buffer.full]
    omega

namespace Client

variable {size : Nat}

def available (chunk : Received size) (c : Client size) : Client size :=
  if c.remaining = 0 then
    let ret : Nat := chunk.bytes.length
    { receive := c.receive.recvfrom chunk
      index := 0
      remaining := if ret ≠ 0 then ret else c.remaining }
  else c

/-- The bytes copied, `none` for the result -1. -/
def socketRecv (len : Nat) (c : Client size) : Option Str × Client size :=
  if c.index = size then (none, c)
  else if c.index + len < size then
    (some ((c.receive.bytes.drop c.index).take len), { c with index := c.index + len })
  else
    let truncate := size - c.index
    (some ((c.receive.bytes.drop c.index).take truncate), { c with index := c.index + truncate })

/-- `read()`, with `none` for -1. -/
def read (c : Client size) : Option Char × Client size :=
  match c.socketRecv 1 with
  | (some (b :: _), c) => (some b, { c with remaining := c.remaining - 1 })
  | (_, c) => (none, c)

/-- `readStringUntil(terminator, max)`: NUL ends the line as well, and so does
    the first read that fails. -/
def readStringUntil (terminator : Char) : Nat → Client size → Str
  | 0, _ => []
  | max + 1, c =>
    match c.read with
    | (none, _) => []
    | (some ch, c) =>
      if ch = '\x00' ∨ ch = terminator then [] else ch :: readStringUntil terminator max c

/-- `handleWebServer` on a client's socket; `max` is the cap of `readStringUntil`. -/
def handleWebServer (max : Nat) (chunk : Received size) (c : Client size) (b : Board) : Response :=
  let c := c.available chunk
  if c.remaining ≠ 0 then
    handleRequest (c.readStringUntil '\r' max) b
  else
    { board := b, client := [], serial := [] }

/-! ## The line which is read -/

theorem read_end {c : Client size} (nothing : c.receive.bytes.drop c.index = [])
    (inside : c.index ≤ size) : c.read = (none, c) := by
  have length := congrArg List.length nothing
  rw [List.length_drop, c.receive.full, List.length_nil] at length
  have atEnd : c.index = size := by omega
  simp only [read, socketRecv, if_pos atEnd]

theorem read_next {c : Client size} {ch : Char} {rest : Str}
    (next : c.receive.bytes.drop c.index = ch :: rest) :
    c.read = (some ch, { c with index := c.index + 1, remaining := c.remaining - 1 }) := by
  have length := congrArg List.length next
  rw [List.length_drop, c.receive.full, List.length_cons] at length
  have inside : c.index ≠ size := by omega
  by_cases last : c.index + 1 < size
  · simp only [read, socketRecv, if_neg inside, if_pos last, next, List.take_succ_cons]
  · have one : size - c.index = 1 := by omega
    simp only [read, socketRecv, if_neg inside, if_neg last, next, one, List.take_succ_cons]

/-- The text read is the buffer from the index on, up to the terminator, a NUL
    or the cap. -/
theorem readStringUntil_eq (terminator : Char) (max : Nat) {c : Client size}
    (inside : c.index ≤ size) :
    c.readStringUntil terminator max =
      ((c.receive.bytes.drop c.index).take max).takeWhile
        fun ch => ch ≠ '\x00' ∧ ch ≠ terminator := by
  induction max generalizing c with
  | zero => rfl
  | succ max ih =>
      cases next : c.receive.bytes.drop c.index with
      | nil =>
          rw [readStringUntil, read_end next inside]
          rfl
      | cons ch rest =>
          have length := congrArg List.length next
          rw [List.length_drop, c.receive.full, List.length_cons] at length
          have later : c.receive.bytes.drop (c.index + 1) = rest := by
            rw [← List.drop_drop, next]
            rfl
          rw [readStringUntil, read_next next]
          simp only [List.take_succ_cons, List.takeWhile_cons]
          by_cases stop : ch = '\x00' ∨ ch = terminator
          · have ends : ¬ (ch ≠ '\x00' ∧ ch ≠ terminator) := by tauto
            simp only [if_pos stop, decide_eq_false ends, Bool.false_eq_true, if_false]
          · have goes : ch ≠ '\x00' ∧ ch ≠ terminator := by tauto
            rw [if_neg stop, ih (by change c.index + 1 ≤ size; omega), later]
            simp only [decide_eq_true goes, if_true]

end Client

/-- The bytes which go into a request line. -/
def inLine (ch : Char) : Bool := ch ≠ '\x00' ∧ ch ≠ '\r'

/-- The line which is read when a chunk has arrived on top of a buffer. -/
def receivedLine {size : Nat} (max : Nat) (chunk : Received size) (stale : Buffer size) : Str :=
  ((stale.recvfrom chunk).bytes.take max).takeWhile inLine

theorem handleWebServer_line {size : Nat} (max : Nat) (chunk : Received size) (stale : Buffer size)
    (b : Board) (nonempty : chunk.bytes ≠ []) :
    (Client.new stale).handleWebServer max chunk b = handleRequest (receivedLine max chunk stale) b := by
  have fresh : (Client.new stale).remaining = 0 := rfl
  have some : chunk.bytes.length ≠ 0 := by
    rw [ne_eq, List.length_eq_zero_iff]
    exact nonempty
  have nonzero : (chunk.bytes.length : Int) ≠ 0 := by omega
  simp only [Client.handleWebServer, Client.available, if_pos fresh, if_pos some, if_pos nonzero]
  rw [Client.readStringUntil_eq '\r' max (Nat.zero_le size)]
  rfl

theorem handleWebServer_received {size : Nat} (max : Nat) (chunk : Received size)
    (stale : Buffer size) (b : Board) :
    ((Client.new stale).handleWebServer max chunk b).board =
      if chunk.bytes = [] then b else (route (receivedLine max chunk stale)).act b := by
  by_cases empty : chunk.bytes = []
  · have fresh : (Client.new stale).remaining = 0 := rfl
    have none : chunk.bytes.length = 0 := by rw [empty, List.length_nil]
    simp only [Client.handleWebServer, Client.available, if_pos fresh]
    simp only [none, fresh, ne_eq, not_true, if_false, if_pos empty]
  · rw [handleWebServer_line max chunk stale b empty, handleRequest_board, if_neg empty]

/-- A line which has arrived with its end, without a NUL and within the cap is
    read as it is, whatever the buffer held. -/
theorem receivedLine_whole {size max : Nat} {chunk : Received size} {line rest : Str}
    (bytes : chunk.bytes = line ++ '\r' :: rest) (clean : ∀ ch ∈ line, inLine ch)
    (short : line.length ≤ max) (stale : Buffer size) : receivedLine max chunk stale = line := by
  have buffer : (stale.recvfrom chunk).bytes =
      line ++ '\r' :: (rest ++ stale.bytes.drop chunk.bytes.length) := by
    rw [Buffer.recvfrom]
    simp only [bytes, List.append_assoc, List.cons_append]
  rw [receivedLine, buffer, List.take_append, List.take_of_length_le short,
    List.takeWhile_append_of_pos clean]
  cases max - line.length with
  | zero => exact List.append_nil line
  | succ k => exact List.append_nil line

/-- On such a line the capped reading from the buffer and the plain one agree, so
    the two handlers do as well. -/
theorem handleWebServer_whole {size max : Nat} {chunk : Received size} {line rest : Str}
    (bytes : chunk.bytes = line ++ '\r' :: rest) (clean : ∀ ch ∈ line, inLine ch)
    (short : line.length ≤ max) (stale : Buffer size) (b : Board) :
    (Client.new stale).handleWebServer max chunk b = handleWebServer chunk.bytes b := by
  have nonempty : chunk.bytes ≠ [] := by
    rw [bytes]
    simp
  have noReturn : '\r' ∉ line := fun member => absurd (clean '\r' member) (by decide)
  rw [handleWebServer_line max chunk stale b nonempty, receivedLine_whole bytes clean short,
    handleWebServer, if_pos (List.length_pos_of_ne_nil nonempty), bytes, readStringUntil_append noReturn]

/-- The number of bytes of the buffer which are read behind a chunk, at most. -/
def room {size : Nat} (max : Nat) (chunk : Received size) : Nat := min max size - chunk.bytes.length

/-- A chunk which ends the line, or leaves no room behind it, is read alone. -/
theorem receivedLine_closed {size max : Nat} {chunk : Received size}
    (closed : (∃ ch ∈ chunk.bytes, inLine ch = false) ∨ room max chunk = 0) (stale stale' : Buffer size) :
    receivedLine max chunk stale = receivedLine max chunk stale' := by
  by_cases long : max ≤ chunk.bytes.length
  · simp only [receivedLine, Buffer.recvfrom, List.take_append_of_le_length long]
  · have fits := chunk.fits
    simp only [receivedLine, Buffer.recvfrom,
      List.take_append, List.take_of_length_le (Nat.le_of_not_le long)]
    rcases closed with ended | full
    · rw [TextSearch.takeWhile_append_of_stop ended, TextSearch.takeWhile_append_of_stop ended]
    · have nothing : ∀ buffer : Buffer size, buffer.bytes.drop chunk.bytes.length = [] := by
        intro buffer
        rw [List.drop_eq_nil_iff, buffer.full]
        rw [room] at full
        omega
      rw [nothing, nothing]

/-- A buffer which holds a text behind its first `n` bytes, and nothing else. -/
def Buffer.behind {size : Nat} (n : Nat) (u : Str) (fits : n + u.length ≤ size) : Buffer size where
  bytes := List.replicate n '\x00' ++ (u ++ List.replicate (size - n - u.length) '\x00')
  full := by
    simp only [List.length_append, List.length_replicate]
    omega

/-- Behind the text the first NUL ends the line. -/
theorem Buffer.takeWhile_behind {size n m : Nat} {u : Str} (fits : n + u.length ≤ size)
    (room : u.length ≤ m) (kept : ∀ ch ∈ u, inLine ch) :
    (((Buffer.behind n u fits).bytes.drop n).take m).takeWhile inLine = u := by
  have rest : (Buffer.behind n u fits).bytes.drop n =
      u ++ List.replicate (size - n - u.length) '\x00' := List.drop_left' (List.length_replicate ..)
  rw [rest, List.take_append, List.take_of_length_le room, List.takeWhile_append_of_pos kept,
    List.take_replicate]
  cases min (m - u.length) (size - n - u.length) with
  | zero => exact List.append_nil u
  | succ k => exact List.append_nil u

/-- Any other chunk is read on into the stale bytes. -/
theorem receivedLine_open {size max : Nat} {chunk : Received size}
    (clean : ∀ ch ∈ chunk.bytes, inLine ch) (some : 0 < room max chunk) (stale : Buffer size) :
    receivedLine max chunk stale = chunk.bytes ++
      ((stale.bytes.drop chunk.bytes.length).take (max - chunk.bytes.length)).takeWhile inLine := by
  have early : chunk.bytes.length ≤ max := by
    rw [room] at some
    omega
  rw [receivedLine, Buffer.recvfrom, List.take_append, List.take_of_length_le early,
    List.takeWhile_append_of_pos clean]

/-- The lines which can come out of it are the chunk with any text of the line
    for which there is room. -/
theorem exists_receivedLine_iff {size max : Nat} {chunk : Received size}
    (clean : ∀ ch ∈ chunk.bytes, inLine ch) (some : 0 < room max chunk) (line : Str) :
    (∃ stale : Buffer size, receivedLine max chunk stale = line) ↔
      ∃ u, line = chunk.bytes ++ u ∧ u.length ≤ room max chunk ∧ ∀ ch ∈ u, inLine ch := by
  constructor
  · rintro ⟨stale, rfl⟩
    refine ⟨_, receivedLine_open clean some stale, ?_, ?_⟩
    · have taken := (List.takeWhile_prefix inLine (l :=
        (stale.bytes.drop chunk.bytes.length).take (max - chunk.bytes.length))).length_le
      rw [List.length_take, List.length_drop, stale.full] at taken
      rw [room]
      omega
    · intro ch member
      exact List.mem_takeWhile_imp member
  · rintro ⟨u, rfl, short, kept⟩
    have space := short
    rw [room] at space some
    have fits : chunk.bytes.length + u.length ≤ size := by omega
    refine ⟨Buffer.behind chunk.bytes.length u fits, ?_⟩
    rw [receivedLine_open clean some, Buffer.takeWhile_behind fits (by omega) kept]

/-! ## Lines of one effect -/

/-- All that a route does to a board which is not known. -/
def Route.effect (r : Route) : Bool × Bool × Option (Port × UInt8) :=
  (r.isPortVal, decide (r = .page), r.assigns)

theorem sameState_iff_effect (r r' : Route) :
    (∀ b, SameState (r.act b) (r'.act b)) ↔ r.effect = r'.effect := by
  have single : ∀ b, r.act b = Route.actAll [r] b := fun b => rfl
  have assigns : [r].filterMap Route.assigns = r.assigns.toList := by
    cases h : r.assigns <;> simp [h]
  simp only [single, actAll_same_iff, harmless_all_iff, assigns, WriteStore.lastWrite_toList_inj]
  cases r <;> cases r' <;> simp [Route.effect, Route.isPortVal, Route.assigns, Route.sincePage]

/-- Every board ends in the same state whatever an earlier request has left in
    the buffer. -/
def JudgedByOwnBytes {size : Nat} (max : Nat) (chunk : Received size) : Prop :=
  ∀ (stale stale' : Buffer size) (b : Board),
    SameState ((Client.new stale).handleWebServer max chunk b).board
      ((Client.new stale').handleWebServer max chunk b).board

theorem judged_of_nil {size max : Nat} {chunk : Received size} (empty : chunk.bytes = []) :
    JudgedByOwnBytes max chunk := by
  intro stale stale' b
  rw [handleWebServer_received, handleWebServer_received, if_pos empty, if_pos empty]
  exact ⟨⟨rfl, rfl⟩, rfl⟩

theorem judged_iff_lines {size max : Nat} {chunk : Received size} (nonempty : chunk.bytes ≠ []) :
    JudgedByOwnBytes max chunk ↔ ∀ stale stale' : Buffer size,
      (route (receivedLine max chunk stale)).effect = (route (receivedLine max chunk stale')).effect := by
  simp only [JudgedByOwnBytes, handleWebServer_received, if_neg nonempty, sameState_iff_effect]

theorem judged_of_closed {size max : Nat} {chunk : Received size} (nonempty : chunk.bytes ≠ [])
    (closed : (∃ ch ∈ chunk.bytes, inLine ch = false) ∨ room max chunk = 0) :
    JudgedByOwnBytes max chunk := by
  rw [judged_iff_lines nonempty]
  intro stale stale'
  rw [receivedLine_closed closed stale stale']

/-- A chunk which the buffer goes on from is judged by its own bytes iff no text
    for which there is room changes what it does. -/
theorem judged_iff_texts {size max : Nat} {chunk : Received size} (nonempty : chunk.bytes ≠ [])
    (clean : ∀ ch ∈ chunk.bytes, inLine ch) (some : 0 < room max chunk) :
    JudgedByOwnBytes max chunk ↔ ∀ u, u.length ≤ room max chunk → (∀ ch ∈ u, inLine ch) →
      (route (chunk.bytes ++ u)).effect = (route chunk.bytes).effect := by
  rw [judged_iff_lines nonempty]
  have lines := exists_receivedLine_iff clean some
  constructor
  · intro same u fits kept
    obtain ⟨stale, line⟩ := (lines (chunk.bytes ++ u)).mpr ⟨u, rfl, fits, kept⟩
    obtain ⟨stale', alone⟩ := (lines chunk.bytes).mpr
      ⟨[], (List.append_nil _).symm, Nat.zero_le _, by simp⟩
    rw [← line, same stale stale', alone]
  · intro same stale stale'
    obtain ⟨u, line, fits, kept⟩ := (lines _).mp ⟨stale, rfl⟩
    obtain ⟨u', line', fits', kept'⟩ := (lines _).mp ⟨stale', rfl⟩
    rw [line, line', same u fits kept, same u' fits' kept']

end GpioCtrlBoard
