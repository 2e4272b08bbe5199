import GpioCtrlBoard.MultiPort
import GpioCtrlBoard.Lib.XorParity

/-! # The attenuator script

The script keeps its own copy of the four port bytes. A table command toggles
the copy and sends all four bytes as absolute values, one request each. A
request may be lost on the way to the board, or its answer on the way back;
`portWrite` swallows the exception either way, a `READ` does not.
-/

namespace GpioCtrlBoard

open WriteStore

/-- A row of `tableVal`: the command and its toggle mask for every port. -/
structure Row where
  name : String
  portA : Nat
  portB : Nat
  portC : Nat
  portD : Nat
  deriving DecidableEq

def Row.mask (row : Row) : Port → Nat
  | .p1a => row.portA
  | .p1b => row.portB
  | .p2a => row.portC
  | .p2b => row.portD

def tableVal : List Row := [
  ⟨"CAL ON", 0b00000010, 0, 0, 0⟩,
  ⟨"CAL A0.5", 0b00000001, 0, 0, 0⟩,
  ⟨"CAL A1", 0b00000100, 0, 0, 0⟩,
  ⟨"CAL A2", 0b00010000, 0, 0, 0⟩,
  ⟨"CAL A4", 0b01000000, 0, 0, 0⟩,
  ⟨"CAL A8", 0, 0b10000000, 0, 0⟩,
  ⟨"CAL A16", 0, 0b00100000, 0, 0⟩,
  ⟨"CAL B0.5", 0, 0b00000001, 0, 0⟩,
  ⟨"CAL B1", 0, 0b00001000, 0, 0⟩,
  ⟨"CAL B2", 0, 0b00000100, 0, 0⟩,
  ⟨"CAL B4", 0, 0b00000010, 0, 0⟩,
  ⟨"CAL B8", 0, 0b00010000, 0, 0⟩,
  ⟨"CAL B16", 0, 0b01000000, 0, 0⟩,
  ⟨"AMP A0", 0, 0, 0, 0⟩,
  ⟨"AMP A0.5", 0, 0, 0b00000001, 0⟩,
  ⟨"AMP A1", 0, 0, 0b00000010, 0⟩,
  ⟨"AMP A2", 0, 0, 0b00000100, 0⟩,
  ⟨"AMP A4", 0, 0, 0b00001000, 0⟩,
  ⟨"AMP A8", 0, 0, 0b00010000, 0⟩,
  ⟨"AMP A16", 0, 0, 0b00100000, 0⟩,
  ⟨"AMP B0.5", 0, 0, 0, 0b00000001⟩,
  ⟨"AMP B1", 0, 0, 0, 0b00000010⟩,
  ⟨"AMP B2", 0, 0, 0, 0b00000100⟩,
  ⟨"AMP B4", 0, 0, 0, 0b00001000⟩,
  ⟨"AMP B8", 0, 0, 0, 0b00010000⟩,
  ⟨"AMP B16", 0, 0, 0, 0b00100000⟩,
  ⟨"READ", 0, 0, 0, 0⟩]

/-! ## Requests -/

/-- The fate of one request: it never arrives, the board acts and the answer is
    lost, or the answer comes back. -/
inductive Delivery where
  | lost
  | replyLost
  | answered
  deriving DecidableEq

def Delivery.reaches : Delivery → Bool
  | .lost => false
  | .replyLost | .answered => true

/-- The request line which `requests.get` sends for a path of the board. -/
def requestLine (path : Str) : Str := "GET ".toList ++ (path ++ requestTail)

/-- What stands behind the first blank line of an HTTP answer. -/
def content (answer : Str) : Str :=
  match TextSearch.find? "\r\n\r\n".toList answer with
  | some position => answer.drop (position + 4)
  | none => []

/-- `none` stands for the exception which `requests.get` raises. -/
def queryValues (path : Str) (fate : Delivery) (b : Board) : Board × Option (List Str) :=
  match fate with
  | .lost => (b, none)
  | .replyLost => ((handleRequest (requestLine path) b).board, none)
  | .answered =>
    let response := handleRequest (requestLine path) b
    (response.board, some ((content response.client).splitOn ' '))

def portWrite (port : Char) (val : Nat) (fate : Delivery) (b : Board) : Board :=
  (queryValues ("/portVal=".toList ++ (port :: decimal val ++ "&".toList)) fate b).1

/-! ## Commands -/

/-- The globals `portA` to `portD`. -/
structure Script where
  portA : Nat
  portB : Nat
  portC : Nat
  portD : Nat
  deriving DecidableEq

namespace Script

def initial : Script := ⟨0, 0, 0, 0⟩

def port (s : Script) : Port → Nat
  | .p1a => s.portA
  | .p1b => s.portB
  | .p2a => s.portC
  | .p2b => s.portD

/-- The four assignments at the head of `updatePort`. -/
def toggle (s : Script) (row : Row) : Script where
  portA := s.portA ^^^ row.portA
  portB := s.portB ^^^ row.portB
  portC := s.portC ^^^ row.portC
  portD := s.portD ^^^ row.portD

@[simp] theorem port_toggle (s : Script) (row : Row) (x : Port) :
    (s.toggle row).port x = s.port x ^^^ row.mask x := by
  cases x <;> rfl

theorem ext_port {s s' : Script} (same : s.port = s'.port) : s = s' := by
  cases s
  cases s'
  have a := congrFun same .p1a
  have b := congrFun same .p1b
  have c := congrFun same .p2a
  have d := congrFun same .p2b
  simp only [port] at a b c d
  subst a b c d
  rfl

end Script

/-- The script and the board it talks to. -/
structure Session where
  script : Script
  board : Board

/-- `fate k` is the fate of the `k`-th request of the call. -/
def updatePort (row : Row) (fate : Nat → Delivery) (s : Session) : Session :=
  let script := s.script.toggle row
  let board := portWrite 'a' script.portA (fate 0) s.board
  let board := portWrite 'b' script.portB (fate 1) board
  let board := portWrite 'c' script.portC (fate 2) board
  let board := portWrite 'd' script.portD (fate 3) board
  { script := script, board := board }

/-- What `setDevice` returns: the values read, a text, or the exception of a
    failed `READ`. -/
inductive DeviceReply where
  | values (items : List Str)
  | text (txt : String)
  | raised

def setDevice (cmd : String) (fate : Nat → Delivery) (s : Session) : Session × DeviceReply :=
  search tableVal
where
  /-- The loop over the rows. -/
  search : List Row → Session × DeviceReply
  | [] => (s, .text "No cmd")
  | row :: rows =>
    if cmd = "READ" then
      match queryValues "/getValues".toList (fate 0) s.board with
      | (board, some items) => ({ s with board := board }, .values items)
      | (board, none) => ({ s with board := board }, .raised)
    else if cmd = row.name then (updatePort row fate s, .text cmd)
    else search rows

/-- The four requests at the end of the script's start. -/
def startUp (fate : Nat → Delivery) (b : Board) : Session :=
  let board := portWrite 'a' 0 (fate 0) b
  let board := portWrite 'b' 0 (fate 1) board
  let board := portWrite 'c' 0 (fate 2) board
  let board := portWrite 'd' 0 (fate 3) board
  { script := .initial, board := board }

/-! ## What the board makes of the requests -/

theorem requestLine_portVal (x : Port) (v : UInt8) :
    requestLine ("/portVal=".toList ++ (x.letter :: decimal v.toNat ++ "&".toList)) =
      requestHead ++ (portValKey ++ (command x v ++ '&' :: requestTail)) := by
  have path : "/portVal=".toList = '/' :: portValKey := rfl
  have head : requestHead = "GET ".toList ++ ['/'] := rfl
  have amp : "&".toList = ['&'] := rfl
  simp only [requestLine, path, head, amp, command, List.append_assoc, List.cons_append,
    List.nil_append]

theorem queryValues_board (path : Str) (fate : Delivery) (b : Board) :
    (queryValues path fate b).1 =
      if fate.reaches then (handleRequest (requestLine path) b).board else b := by
  cases fate with
  | lost | replyLost | answered => rfl

/-- A byte sent to a port arrives as its command or not at all. -/
theorem portWrite_board (x : Port) (v : UInt8) (fate : Delivery) (b : Board) :
    portWrite x.letter v.toNat fate b =
      if fate.reaches then (decodeData (command x v) b).1 else b := by
  have short := length_command x v
  have routed : route (requestHead ++ (portValKey ++ (command x v ++ '&' :: requestTail))) =
      .portVal (command x v) := route_portVal (command_no_amp x v) (by omega)
  rw [portWrite, queryValues_board, requestLine_portVal, handleRequest_board, routed]
  rfl

def ports : List Port := [.p1a, .p1b, .p2a, .p2b]

theorem mem_ports (x : Port) : x ∈ ports := by
  cases x <;> decide

namespace Script

/-- The arguments of the four `portWrite` calls of an update. -/
def requests (s : Script) : List (Char × Nat) :=
  [('a', s.portA), ('b', s.portB), ('c', s.portC), ('d', s.portD)]

def InRange (s : Script) : Prop := ∀ x, s.port x < 2 ^ pbit

def byte (s : Script) (x : Port) : UInt8 := UInt8.ofNat (s.port x)

theorem InRange.byte_toNat {s : Script} (inRange : s.InRange) (x : Port) :
    (s.byte x).toNat = s.port x :=
  toNat_ofNat (inRange x)

theorem InRange.requests_eq {s : Script} (inRange : s.InRange) :
    s.requests = ports.map fun x => (x.letter, (s.byte x).toNat) := by
  simp only [ports, List.map_cons, List.map_nil, inRange.byte_toNat]
  rfl

end Script

/-- `portWrite` for every request of a list. -/
def sendAll : List (Char × Nat) → (Nat → Delivery) → Board → Board
  | [], _, b => b
  | (port, val) :: reqs, fate, b => sendAll reqs (fun k => fate (k + 1)) (portWrite port val (fate 0) b)

theorem updatePort_board (row : Row) (fate : Nat → Delivery) (s : Session) :
    (updatePort row fate s).board = sendAll (s.script.toggle row).requests fate s.board := rfl

/-- The commands which send a byte to every listed port. -/
def commands (val : Port → UInt8) (ks : List Port) : List Str := ks.map fun x => command x (val x)

theorem decodeAll_commands_val (val : Port → UInt8) (ks : List Port) (b : Board) (x : Port) :
    (decodeAll (commands val ks) b).val x = if x ∈ ks then val x else b.val x := by
  have texts : commands val ks = (ks.map fun x => (x, val x)).map fun w => command w.1 w.2 := by
    rw [List.map_map]
    rfl
  rw [texts, decodeAll_val, filterMap_accepted_commands]
  exact writeAll_map _ _ _ _

/-- The requests act as the commands of those which arrive, in their order. -/
theorem sendAll_arrived (byte : Port → UInt8) {ks : List Port} (distinct : ks.Nodup)
    (fate : Nat → Delivery) (b : Board) :
    sendAll (ks.map fun x => (x.letter, (byte x).toNat)) fate b =
      decodeAll (commands byte (ks.filter fun x => (fate (ks.idxOf x)).reaches)) b := by
  induction ks generalizing fate b with
  | nil => rfl
  | cons k ks ih =>
      obtain ⟨absent, distinct⟩ := List.nodup_cons.mp distinct
      have first : (k :: ks).idxOf k = 0 := List.idxOf_cons_self
      have later : (ks.filter fun x => (fate ((k :: ks).idxOf x)).reaches) =
          ks.filter fun x => (fate (ks.idxOf x + 1)).reaches := by
        apply List.filter_congr
        intro x inside
        have other : k ≠ x := fun same => absent (same ▸ inside)
        rw [List.idxOf_cons_ne ks other]
      rw [List.map_cons, sendAll, ih distinct, portWrite_board, List.filter_cons, first, later]
      cases (fate 0).reaches with
      | true => rfl
      | false => rfl

/-- Each port gets its byte if its own request arrives, and keeps the old one
    otherwise. -/
theorem sendAll_val (byte : Port → UInt8) {ks : List Port} (distinct : ks.Nodup)
    (fate : Nat → Delivery) (b : Board) (y : Port) :
    (sendAll (ks.map fun x => (x.letter, (byte x).toNat)) fate b).val y =
      if y ∈ ks ∧ (fate (ks.idxOf y)).reaches then byte y else b.val y := by
  rw [sendAll_arrived byte distinct, decodeAll_commands_val]
  simp only [List.mem_filter]

/-- What an update does to the board: a port whose request arrives gets the
    script's new byte. -/
theorem updatePort_arrived {row : Row} {s : Session} (inRange : (s.script.toggle row).InRange)
    (fate : Nat → Delivery) :
    (updatePort row fate s).board = decodeAll
      (commands (s.script.toggle row).byte (ports.filter fun x => (fate (ports.idxOf x)).reaches))
      s.board := by
  rw [updatePort_board, inRange.requests_eq]
  exact sendAll_arrived _ (by decide) fate s.board

theorem updatePort_val {row : Row} {s : Session} (inRange : (s.script.toggle row).InRange)
    (fate : Nat → Delivery) (x : Port) :
    (updatePort row fate s).board.val x =
      if (fate (ports.idxOf x)).reaches then (s.script.toggle row).byte x else s.board.val x := by
  rw [updatePort_board, inRange.requests_eq, sendAll_val _ (by decide)]
  simp only [mem_ports, true_and]

/-- The first `n` requests of an update which arrives in full. -/
theorem Script.InRange.sendAll_take {s : Script} (inRange : s.InRange) {fate : Nat → Delivery}
    (reached : ∀ k < 4, (fate k).reaches) (n : Nat) (b : Board) :
    sendAll (s.requests.take n) fate b = decodeAll (commands s.byte (ports.take n)) b := by
  have distinct : (ports.take n).Nodup := List.Nodup.sublist (List.take_sublist n ports) (by decide)
  have all : ((ports.take n).filter fun x => (fate ((ports.take n).idxOf x)).reaches) = ports.take n := by
    apply List.filter_eq_self.mpr
    intro x inside
    have early : (ports.take n).idxOf x < (ports.take n).length := List.idxOf_lt_length_of_mem inside
    have few : (ports.take n).length ≤ 4 := List.length_take_le' n ports
    exact reached _ (Nat.lt_of_lt_of_le early few)
  rw [inRange.requests_eq, ← List.map_take, sendAll_arrived _ distinct, all]

end GpioCtrlBoard
