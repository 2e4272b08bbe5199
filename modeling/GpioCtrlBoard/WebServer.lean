import GpioCtrlBoard.PortStore
import GpioCtrlBoard.WebPage

/-! # The web server

A request line is routed by where `portVal=` and `getValues` first occur in it.
`Route` is the outcome of that search alone; handling a line is then the action
of its route on the board. The search results are `int`, the bounds they feed
are `unsigned int`.
-/

namespace GpioCtrlBoard

/-- What handling a request leaves behind: the board, the text sent to the
    client and the text printed on the serial port. -/
structure Response where
  board : Board
  client : Str
  serial : Str

def portValKey : Str := "portVal=".toList
def getValuesKey : Str := "getValues".toList

/-- What stands before and behind the path of a request line. -/
def requestHead : Str := "GET /".toList
def requestTail : Str := " HTTP/1.1".toList

def httpFilterString (httpRqst : Str) (index : Int) : Str :=
  let posVal := Str.indexOfChar httpRqst '=' (toUnsigned index)
  let endNumber := Str.indexOfChar httpRqst '&' (toUnsigned (posVal + 1))
  Str.substring httpRqst (toUnsigned (posVal + 1)) (toUnsigned endNumber)

def clientResponse (b : Board) : Response where
  board := b
  client := header.toList ++ "Count=".toList ++ decimal b.count.toNat ++
    " portA=".toList ++ decimal b.p1aVal.toNat ++ " portB=".toList ++ decimal b.p1bVal.toNat ++
    " portC=".toList ++ decimal b.p2aVal.toNat ++ " portD=".toList ++ decimal b.p2bVal.toNat
  serial := "Count=".toList ++ decimal b.count.toNat ++ "\r\n".toList

/-- The body of `handleWebServer`, once the request line has been read. -/
def handleRequest (request : Str) (b : Board) : Response :=
  let indexFound := Str.indexOf request portValKey
  if indexFound > 0 then
    clientResponse (decodeData (httpFilterString request indexFound) b).1
  else if Str.indexOf request getValuesKey > 0 then
    clientResponse { b with count := b.count + 1 }
  else
    { board := { b with count := 0 }, client := header.toList ++ html.toList, serial := [] }

/-- One call with the bytes `client.available()` has moved into the buffer. What
    is left behind the request line is dropped with the connection. -/
def handleWebServer (received : Str) (b : Board) : Response :=
  if received.length > 0 then
    handleRequest (readStringUntil '\r' received) b
  else
    { board := b, client := [], serial := [] }

/-! ## Routing -/

inductive Route where
  | portVal (cmd : Str)
  | getValues
  | page
  deriving DecidableEq

def route (request : Str) : Route :=
  let indexFound := Str.indexOf request portValKey
  if indexFound > 0 then .portVal (httpFilterString request indexFound)
  else if Str.indexOf request getValuesKey > 0 then .getValues
  else .page

/-- The board after the action of a route. -/
def Route.act : Route → Board → Board
  | .portVal cmd, b => (decodeData cmd b).1
  | .getValues, b => { b with count := b.count + 1 }
  | .page, b => { b with count := 0 }

theorem handleRequest_board (request : Str) (b : Board) :
    (handleRequest request b).board = (route request).act b := by
  simp only [handleRequest, route]
  split
  · rfl
  · split <;> rfl

theorem handleWebServer_board {received : Str} (nonempty : received ≠ []) (b : Board) :
    (handleWebServer received b).board = (route (readStringUntil '\r' received)).act b := by
  rw [handleWebServer, if_pos (List.length_pos_of_ne_nil nonempty), handleRequest_board]

/-! ## Searching the line -/

theorem indexOfChar_append {pre rest : Str} {ch : Char} {s : Str} (start : Nat)
    (same : s.drop start = pre ++ ch :: rest) (absent : ch ∉ pre) :
    Str.indexOfChar s ch start = (start + pre.length : Nat) := by
  simp only [Str.indexOfChar, same, TextSearch.idxOf?_append_cons absent]

theorem portValKey_chars : portValKey = ['p', 'o', 'r', 't', 'V', 'a', 'l', '='] := rfl

/-- The key of a request line stands right behind its head. -/
theorem find_portVal (rest : Str) :
    TextSearch.find? portValKey (requestHead ++ (portValKey ++ rest)) = some 5 := by
  have earlier : ∀ i < requestHead.length,
      ¬ portValKey <+: (requestHead ++ (portValKey ++ rest)).drop i := by
    intro i inside
    have inside : i < 5 := inside
    have line : requestHead ++ (portValKey ++ rest) =
        'G' :: 'E' :: 'T' :: ' ' :: '/' :: (portValKey ++ rest) := rfl
    rw [line, portValKey_chars]
    interval_cases i <;> simp
  exact TextSearch.find?_append requestHead (List.prefix_append portValKey rest) earlier

end GpioCtrlBoard
