import GpioCtrlBoard.Attenuator
import GpioCtrlBoard.ReceiveBuffer

/-! # Replies over whole runs

Requests and serial commands act on one board in any order. The reply to a
request is a text of five items; read back item by item it gives the counter
and the four bytes which the board holds once the request has been applied.
-/

namespace GpioCtrlBoard

/-! ## Reading a reply back -/

/-- The items of a reply, in order. -/
def statusKeys : List Str :=
  ["Count=".toList, "portA=".toList, "portB=".toList, "portC=".toList, "portD=".toList]

/-- What the items are to say. -/
def status (b : Board) : List Nat :=
  [b.count.toNat, b.p1aVal.toNat, b.p1bVal.toNat, b.p2aVal.toNat, b.p2bVal.toNat]

/-- The decimal number behind a key. -/
def readItem (key item : Str) : Option Nat :=
  let suffix := item.drop key.length
  if key <+: item ∧ suffix ≠ [] ∧ suffix.all Char.isDigit then
    some (Nat.ofDigitChars 10 suffix 0)
  else none

/-- A reply without its header, split at the blanks and read item by item. -/
def readStatus (answer : Str) : Option (List Nat) :=
  let items := (content answer).splitOn ' '
  if items.length = statusKeys.length then
    (statusKeys.zip items).mapM fun entry => readItem entry.1 entry.2
  else none

theorem readItem_decimal (key : Str) (n : Nat) : readItem key (key ++ decimal n) = some n := by
  have suffix : (key ++ decimal n).drop key.length = decimal n := List.drop_left
  have nonempty : decimal n ≠ [] := List.ne_nil_of_length_pos Nat.length_toDigits_pos
  have digits : (decimal n).all Char.isDigit := List.all_eq_true.mpr fun c => isDigit_of_mem_decimal
  have value : Nat.ofDigitChars 10 (decimal n) 0 = n := Nat.ofDigitChars_ten_toDigits
  simp only [readItem, suffix, value, List.prefix_append, nonempty, digits, ne_eq, not_false_iff,
    and_self, if_true]

/-- The header ends with the first blank line of the answer. -/
theorem content_header (body : Str) : content (header.toList ++ body) = body := by
  have found : TextSearch.find? "\r\n\r\n".toList (header.toList ++ body) = some 40 := rfl
  have length : header.toList.length = 40 + 4 := rfl
  simp only [content, found]
  rw [← length, List.drop_left]

/-- The items which `clientResponse` prints. -/
def statusItems (b : Board) : List Str :=
  (statusKeys.zip (status b)).map fun entry => entry.1 ++ decimal entry.2

theorem clientResponse_client (b : Board) :
    (clientResponse b).client = header.toList ++ [' '].intercalate (statusItems b) := by
  have a : " portA=".toList = ' ' :: "portA=".toList := rfl
  have b' : " portB=".toList = ' ' :: "portB=".toList := rfl
  have c : " portC=".toList = ' ' :: "portC=".toList := rfl
  have d : " portD=".toList = ' ' :: "portD=".toList := rfl
  simp only [clientResponse, statusItems, statusKeys, status, a, b', c, d, List.zip_cons_cons,
    List.zip_nil_right, List.map_cons, List.map_nil, List.intercalate_cons_cons,
    List.intercalate_singleton, List.append_assoc, List.cons_append, List.nil_append]

theorem statusItems_no_blank (b : Board) : ∀ item ∈ statusItems b, ' ' ∉ item := by
  intro item member
  obtain ⟨entry, inside, rfl⟩ := List.mem_map.mp member
  have plain : ∀ key ∈ statusKeys, ' ' ∉ key := by decide
  rw [List.mem_append, not_or]
  exact ⟨plain entry.1 (List.of_mem_zip inside).1, not_mem_decimal rfl entry.2⟩

/-- The script's reading inverts what the board prints. -/
theorem readStatus_clientResponse (b : Board) :
    readStatus (clientResponse b).client = some (status b) := by
  have items : (content (clientResponse b).client).splitOn ' ' = statusItems b := by
    rw [clientResponse_client, content_header]
    exact List.splitOn_intercalate ' ' (statusItems_no_blank b) (List.cons_ne_nil _ _)
  have count : (statusItems b).length = statusKeys.length := rfl
  simp only [readStatus, items, if_pos count]
  simp only [statusItems, statusKeys, status, List.zip_cons_cons, List.zip_nil_right, List.map_cons,
    List.map_nil, List.mapM_cons, List.mapM_nil, readItem_decimal]
  rfl

/-! ## Runs of requests and serial commands -/

/-- Requests which are not for a page are answered with the status of the board
    they leave. -/
theorem handleRequest_client {request : Str} (noPage : route request ≠ .page) (b : Board) :
    (handleRequest request b).client = (clientResponse ((route request).act b)).client := by
  unfold route at noPage ⊢
  unfold handleRequest
  by_cases portVal : Str.indexOf request portValKey > 0
  · simp only [if_pos portVal]
    rfl
  · by_cases getValues : Str.indexOf request getValuesKey > 0
    · simp only [if_neg portVal, if_pos getValues]
      rfl
    · simp [if_neg portVal, if_neg getValues] at noPage

/-- A request as the handler finds it: the chunk which has arrived, on top of
    what an earlier one has left in the buffer of its socket. -/
structure Delivered where
  size : Nat
  stale : Buffer size
  chunk : Received size
  nonempty : chunk.bytes ≠ []

namespace Delivered

/-- The line which is read; `max` is the cap of `readStringUntil`. -/
def line (max : Nat) (d : Delivered) : Str := receivedLine max d.chunk d.stale

def route (max : Nat) (d : Delivered) : Route := GpioCtrlBoard.route (d.line max)

def handle (max : Nat) (d : Delivered) (b : Board) : Response :=
  (Client.new d.stale).handleWebServer max d.chunk b

theorem handle_board (max : Nat) (d : Delivered) (b : Board) :
    (d.handle max b).board = (d.route max).act b := by
  unfold handle
  rw [handleWebServer_line max d.chunk d.stale b d.nonempty]
  exact handleRequest_board _ b

theorem handle_client {max : Nat} {d : Delivered} (b : Board) (noPage : d.route max ≠ .page) :
    (d.handle max b).client = (clientResponse ((d.route max).act b)).client := by
  unfold handle
  rw [handleWebServer_line max d.chunk d.stale b d.nonempty]
  exact handleRequest_client noPage b

end Delivered

inductive BoardEvent where
  | request (d : Delivered)
  | serial (s : Str)

def BoardEvent.apply (max : Nat) : BoardEvent → Board → Board
  | request d, b => (d.handle max b).board
  | serial s, b => (decodeData s b).1

def BoardEvent.route? (max : Nat) : BoardEvent → Option Route
  | request d => some (d.route max)
  | serial _ => none

def runEvents (max : Nat) (evs : List BoardEvent) (b : Board) : Board :=
  evs.foldl (fun b ev => ev.apply max b) b

/-- The requests of a run, by what their lines ask for. -/
def requestRoutes (max : Nat) (evs : List BoardEvent) : List Route := evs.filterMap (BoardEvent.route? max)

theorem runEvents_snoc (max : Nat) (evs : List BoardEvent) (ev : BoardEvent) (b : Board) :
    runEvents max (evs ++ [ev]) b = ev.apply max (runEvents max evs b) := by
  simp only [runEvents, List.foldl_append, List.foldl_cons, List.foldl_nil]

theorem requestRoutes_snoc (max : Nat) (evs : List BoardEvent) (ev : BoardEvent) :
    requestRoutes max (evs ++ [ev]) = requestRoutes max evs ++ (ev.route? max).toList := by
  rw [requestRoutes, List.filterMap_append]
  cases ev with
  | request d | serial s => rfl

/-- The counter is kept by every step of a run. -/
theorem runEvents_count (max : Nat) (power : Pin → Level) (evs : List BoardEvent) :
    (runEvents max evs (setup (powerOn power))).count =
      UInt32.ofNat (Route.sincePage (requestRoutes max evs)) := by
  induction evs using List.reverseRecOn with
  | nil => rfl
  | append_singleton evs ev ih =>
      rw [runEvents_snoc, requestRoutes_snoc]
      cases ev with
      | serial s =>
          simp only [BoardEvent.apply, BoardEvent.route?, decodeData_count, Option.toList_none,
            List.append_nil]
          exact ih
      | request d =>
          simp only [BoardEvent.apply, BoardEvent.route?, Option.toList_some]
          rw [d.handle_board]
          cases d.route max with
          | portVal cmd => simp only [Route.act, decodeData_count, ih, Route.sincePage_portVal]
          | getValues =>
              simp only [Route.act, ih, Route.sincePage_getValues, UInt32.ofNat_add]
              rfl
          | page =>
              simp only [Route.act, Route.sincePage_page]
              rfl

theorem Route.act_frame {r : Route} (noPort : r.isPortVal = false) (b : Board) :
    (r.act b).val = b.val ∧ (r.act b).gpio = b.gpio := by
  cases r with
  | portVal cmd => simp [Route.isPortVal] at noPort
  | getValues | page => exact ⟨by funext x; cases x <;> rfl, rfl⟩

/-- After any run, a further request moves the counter as its kind says, leaves
    the outputs alone unless it is for a port, and is answered with the state
    which it leaves. Its kind is that of the line which is read: the line sent,
    once it has arrived with its end, without a NUL and within the cap. -/
theorem replies_report_state (max : Nat) (power : Pin → Level) (evs : List BoardEvent) (d : Delivered) :
    let b := runEvents max evs (setup (powerOn power))
    let response := d.handle max b
    response.board.count.toNat = Route.sincePage (requestRoutes max (evs ++ [.request d])) % 2 ^ 32 ∧
    ((d.route max).isPortVal = true → response.board.count = b.count) ∧
    ((d.route max).isPortVal = false → response.board.val = b.val ∧ response.board.gpio = b.gpio) ∧
    (d.route max ≠ .page → readStatus response.client = some (status response.board)) ∧
    ∀ line rest, d.chunk.bytes = line ++ '\r' :: rest → (∀ ch ∈ line, inLine ch) → line.length ≤ max →
      d.line max = line := by
  intro b response
  have board : response.board = (d.route max).act b := d.handle_board max b
  refine ⟨?_, ?_, ?_, ?_, ?_⟩
  · have counted := runEvents_count max power (evs ++ [.request d])
    rw [runEvents_snoc] at counted
    have same : response.board.count = UInt32.ofNat _ := counted
    rw [same, UInt32.toNat_ofNat']
  · intro isPort
    rw [board]
    cases kind : d.route max with
    | portVal cmd => exact decodeData_count cmd b
    | getValues | page => simp [kind, Route.isPortVal] at isPort
  · intro noPort
    rw [board]
    exact Route.act_frame noPort b
  · intro noPage
    rw [d.handle_client b noPage, board]
    exact readStatus_clientResponse _
  · intro line rest bytes clean short
    exact receivedLine_whole bytes clean short d.stale

end GpioCtrlBoard
