import GpioCtrlBoard.Lib.LabelledRun

/-! # The sockets of the web server

`loop` calls `handleWebServer` again and again. Each call looks at the sockets one
after the other, serves at most one of them and may open a new listening socket.
Every call of the stack is a step of its own. Between any two steps the stack
works on, and its timer interrupt may call `poll`, which accepts connections.

The stack itself is a parameter. What the server relies on is its contract.
-/

namespace GpioCtrlBoard

open LabelledRun

/-- What `getopt` leaves in the variable `state`; `other` stands for the values
    which `socketStatus` has no case for. -/
inductive SocketState where
  | SS_CLOSED
  | SS_CLOSING
  | SS_CONNECTING
  | SS_CONNECTED
  | SS_LISTENING
  | other
  deriving DecidableEq

/-- The results of `socketStatus`; `one` is the `true` behind its switch. -/
inductive SnSR where
  | CLOSED
  | INIT
  | LISTEN
  | ESTABLISHED
  | CLOSE_WAIT
  | one
  deriving DecidableEq

def SocketState.status : SocketState → SnSR
  | SS_CLOSED => .CLOSED
  | SS_CLOSING => .CLOSE_WAIT
  | SS_CONNECTING => .INIT
  | SS_CONNECTED => .ESTABLISHED
  | SS_LISTENING => .LISTEN
  | other => .one

/-- The calls of the stack. `setopt` stands for the four of `socketBegin`, `peek` for
    `recv` with `MSG_PEEK`. -/
inductive FnetCall (Handle : Type) where
  | socket
  | setopt (h : Handle)
  | bind (h : Handle)
  | listen (h : Handle)
  | accept (h : Handle)
  | shutdown (h : Handle)
  | close (h : Handle)
  | peek (h : Handle)
  | recvfrom (h : Handle)
  | send (h : Handle)
  | register
  | unregister

namespace FnetCall

variable {Handle : Type}

/-- The socket which a call is given. -/
def on : FnetCall Handle → Option Handle
  | setopt h | bind h | listen h | accept h | shutdown h | close h | peek h | recvfrom h | send h => some h
  | socket | register | unregister => none

end FnetCall

/-- What a call returns: whether it succeeded, the socket which it has made, and
    the number of bytes which it has copied. -/
structure Reply (Handle : Type) where
  ok : Bool
  made : Option Handle
  length : Nat

namespace FnetCall

variable {Handle : Type}

/-- The socket which is open from a call on. -/
def opens : FnetCall Handle → Reply Handle → Option Handle
  | socket, reply | accept _, reply => reply.made
  | _, _ => none

/-- The socket which is open no more. -/
def closes : FnetCall Handle → Option Handle
  | close h => some h
  | _ => none

end FnetCall

/-- The stack. A `Move` is what it does by itself between two calls. -/
structure Fnet where
  Handle : Type
  State : Type
  Move : Type
  call : FnetCall Handle → State → State × Reply Handle
  state : Handle → State → SocketState
  move : Move → State → State

/-- The states of a socket whose connection is over, or which was never brought
    to listen. -/
def SocketState.Over (state : SocketState) : Prop := state = .SS_CLOSED ∨ state = .other

/-- What the server relies on. A socket is open from the call which returns it to
    its `close`; a call on a socket which is open leaves the others open and does
    not make them listen, and neither does the stack by itself. -/
structure Fnet.Contract (F : Fnet) where
  isOpen : F.State → F.Handle → Prop
  fresh : ∀ {c : FnetCall F.Handle} {net : F.State} {h : F.Handle},
    (∀ g, c.on = some g → isOpen net g) → c.opens (F.call c net).2 = some h → ¬ isOpen net h
  open_call : ∀ {c : FnetCall F.Handle} {net : F.State} (h : F.Handle),
    (∀ g, c.on = some g → isOpen net g) →
    (isOpen (F.call c net).1 h ↔ c.opens (F.call c net).2 = some h ∨ isOpen net h ∧ c.closes ≠ some h)
  open_move : ∀ (m : F.Move) (net : F.State) (h : F.Handle), isOpen (F.move m net) h ↔ isOpen net h
  /-- `getopt` on a socket which is not open does not say that it listens. -/
  closed_silent : ∀ {net : F.State} {h : F.Handle}, ¬ isOpen net h → F.state h net ≠ .SS_LISTENING
  /-- Only a `listen` which succeeds brings a socket to listen. -/
  listening_call : ∀ {c : FnetCall F.Handle} {net : F.State} {h : F.Handle},
    (∀ g, c.on = some g → isOpen net g) → F.state h (F.call c net).1 = .SS_LISTENING →
    F.state h net = .SS_LISTENING ∨ (c = .listen h ∧ (F.call c net).2.ok = true)
  listening_move : ∀ {m : F.Move} {net : F.State} {h : F.Handle},
    F.state h (F.move m net) = .SS_LISTENING → F.state h net = .SS_LISTENING
  /-- What is over stays over unless a call is about this socket. -/
  over_call : ∀ {c : FnetCall F.Handle} {net : F.State} {h : F.Handle},
    (∀ g, c.on = some g → isOpen net g) → isOpen net h → c.on ≠ some h → (F.state h net).Over →
    (F.state h (F.call c net).1).Over
  over_move : ∀ {m : F.Move} {net : F.State} {h : F.Handle}, isOpen net h → (F.state h net).Over →
    (F.state h (F.move m net)).Over

/-- What `loop` does once `socketClose` is through. `sockindex` is `none` for
    `socket_num`. -/
inductive After (n : Nat) where
  | scan (i : Nat) (sockindex : Option (Fin n)) (listening : Bool)
  | make (sockindex : Option (Fin n))
  | idle
  deriving DecidableEq

/-- The next thing which `loop` does in `handleWebServer`. `begin_` to `giveUp` are in
    `server.begin`, with the `sockindex` of `server.available` kept for later. `left` says
    whether bytes of the request are left behind its first line. -/
inductive ServerPhase (n : Nat) where
  | idle
  | scan (i : Nat) (sockindex : Option (Fin n)) (listening : Bool)
  | look (i : Fin n) (stat : SnSR) (sockindex : Option (Fin n)) (listening : Bool)
  | shut (i : Fin n) (after : After n)
  | close (i : Fin n) (after : After n)
  | wait (i : Fin n) (after : After n)
  | begin_ (sockindex : Option (Fin n))
  | resort (i : Nat) (sockindex : Option (Fin n))
  | make (i : Fin n) (sockindex : Option (Fin n))
  | setopt (i : Fin n) (sockindex : Option (Fin n))
  | bind (i : Fin n) (sockindex : Option (Fin n))
  | discard (i : Fin n) (sockindex : Option (Fin n))
  | listen (i : Fin n) (sockindex : Option (Fin n))
  | mark (i : Fin n) (sockindex : Option (Fin n))
  | register (i : Fin n) (sockindex : Option (Fin n))
  | giveUp (i : Fin n) (sockindex : Option (Fin n))
  | client (sockindex : Option (Fin n))
  | serve (i : Fin n)
  | hangUp (i : Fin n)
  | connected (i : Fin n) (left : Bool)
  | available (i : Fin n) (left : Bool)
  | stop (i : Fin n)
  deriving DecidableEq

/-- The next phase after the `socketClose` of a slot. -/
def After.phase {n : Nat} (i : Fin n) : After n → ServerPhase n
  | scan k sockindex listening => .scan k sockindex listening
  | make sockindex => .make i sockindex
  | idle => .idle

/-- The static tables of the Ethernet library for one server, with the stack below
    them. `calls` is a record of the run: the calls of the stack, each with the
    state in which it was made. -/
structure Sockets (F : Fnet) (n : Nat) where
  ptr : Fin n → Option F.Handle
  serverPort : Fin n → Bool
  phase : ServerPhase n
  net : F.State
  calls : List (F.State × FnetCall F.Handle)

namespace Sockets

variable {F : Fnet} {n : Nat}

def setPtr (i : Fin n) (socket : Option F.Handle) (s : Sockets F n) : Sockets F n :=
  { s with ptr := Function.update s.ptr i socket }

def setPort (i : Fin n) (server : Bool) (s : Sockets F n) : Sockets F n :=
  { s with serverPort := Function.update s.serverPort i server }

def at_ (phase : ServerPhase n) (s : Sockets F n) : Sockets F n := { s with phase := phase }

def call (c : FnetCall F.Handle) (s : Sockets F n) : Sockets F n :=
  { s with net := (F.call c s.net).1, calls := s.calls ++ [(s.net, c)] }

/-- What a call would return. -/
def reply (c : FnetCall F.Handle) (s : Sockets F n) : Reply F.Handle := (F.call c s.net).2

/-- A call on the socket of a slot; `none` stands for a null pointer. -/
def on (i : Fin n) (c : F.Handle → FnetCall F.Handle)
    (next : Reply F.Handle → Sockets F n → Sockets F n) (s : Sockets F n) : Option (Sockets F n) :=
  (s.ptr i).map fun h => next (s.reply (c h)) (s.call (c h))

def socketStatus (s : Sockets F n) (i : Fin n) : SnSR :=
  match s.ptr i with
  | none => .CLOSED
  | some h => (F.state h s.net).status

/-! ## The server -/

/-- The next step of `loop`. `more` says whether another text is to be sent, and then
    whether bytes of the request are left. -/
def go (more : Bool) (s : Sockets F n) : Option (Sockets F n) :=
  match s.phase with
  | .idle => some (s.at_ (.scan 0 none false))
  | .scan i sockindex listening =>
    if inside : i < n then
      if s.serverPort ⟨i, inside⟩ then
        some (s.at_ (.look ⟨i, inside⟩ (s.socketStatus ⟨i, inside⟩) sockindex listening))
      else some (s.at_ (.scan (i + 1) sockindex listening))
    else some (s.at_ (if listening then .client sockindex else .begin_ sockindex))
  | .look i stat sockindex listening =>
    match stat with
    | .ESTABLISHED | .CLOSE_WAIT => s.on i .peek fun reply s => s.at_ <|
        if reply.length > 0 then .scan (i + 1) (some i) listening
        else if stat = .CLOSE_WAIT then .shut i (.scan (i + 1) sockindex listening)
        else .scan (i + 1) sockindex listening
    | .LISTEN => some (s.at_ (.scan (i + 1) sockindex true))
    | .CLOSED => some ((s.setPort i false).at_ (.scan (i + 1) sockindex listening))
    | .INIT | .one => some (s.at_ (.scan (i + 1) sockindex listening))
  | .shut i after => s.on i .shutdown fun _ s => s.at_ (.close i after)
  | .close i after => s.on i .close fun _ s => s.at_ (.wait i after)
  -- `socketClose` waits until `socketStatus` has no case for the state.
  | .wait i after => some (if s.socketStatus i = .one then (s.setPtr i none).at_ (after.phase i) else s)
  | .begin_ sockindex =>
    match (List.finRange n).find? fun i => (s.ptr i).isNone with
    | some i => some (s.at_ (.make i sockindex))
    | none => some (s.at_ (.resort 0 sockindex))
  | .resort i sockindex =>
    if inside : i < n then
      if s.socketStatus ⟨i, inside⟩ = .CLOSE_WAIT then some (s.at_ (.close ⟨i, inside⟩ (.make sockindex)))
      else some (s.at_ (.resort (i + 1) sockindex))
    else some (s.at_ (.client sockindex))
  | .make i sockindex =>
    let made := (s.reply .socket).made
    some (((s.call .socket).setPtr i made).at_ (if made.isSome then .setopt i sockindex else .client sockindex))
  | .setopt i sockindex => s.on i .setopt fun _ s => s.at_ (.bind i sockindex)
  | .bind i sockindex => s.on i .bind fun reply s =>
      if reply.ok then (s.setPort i false).at_ (.listen i sockindex) else s.at_ (.discard i sockindex)
  -- The socket is closed, and the slot keeps its pointer.
  | .discard i sockindex => s.on i .close fun _ s => s.at_ (.client sockindex)
  | .listen i sockindex => s.on i .listen fun reply s =>
      s.at_ (if reply.ok then .mark i sockindex else .giveUp i sockindex)
  | .mark i sockindex => some ((s.setPort i true).at_ (.register i sockindex))
  | .register i sockindex =>
    some ((s.call .register).at_ (if (s.reply .register).ok then .client sockindex else .giveUp i sockindex))
  | .giveUp i sockindex => s.on i .shutdown fun _ s => s.at_ (.client sockindex)
  | .client none => some (s.at_ .idle)
  | .client (some i) =>
    if (s.ptr i).isNone then some (s.at_ (.connected i false))
    else s.on i .recvfrom fun reply s => s.at_ (if reply.length > 0 then .serve i else .connected i false)
  | .serve i => if more then s.on i .send fun _ s => s else some (s.at_ (.hangUp i))
  | .hangUp i => s.on i .shutdown fun _ s => s.at_ (.connected i more)
  | .connected i left =>
    match s.socketStatus i with
    | .LISTEN | .CLOSED => some (s.at_ (.stop i))
    | .CLOSE_WAIT => some (s.at_ (.available i left))
    | .INIT | .ESTABLISHED | .one => some (s.at_ .idle)
  | .available i left =>
    if (s.ptr i).isNone then some (s.at_ (.stop i))
    else if left then some (s.at_ .idle)
    else s.on i .recvfrom fun reply s => s.at_ (if reply.length > 0 then .idle else .stop i)
  | .stop i => some (s.at_ (if (s.ptr i).isNone then .idle else .shut i .idle))

/-! ## The interrupt -/

/-- `poll` on one slot. -/
def pollSlot (s : Sockets F n) (i : Fin n) : Sockets F n :=
  match s.serverPort i, s.socketStatus i, s.ptr i with
  | true, .LISTEN, some h =>
    match (s.reply (.accept h)).made with
    | none => s.call (.accept h)
    | some tmp => (((s.call (.accept h)).call (.close h)).setPtr i (some tmp)).call .unregister
  | _, _, _ => s

def poll (s : Sockets F n) : Sockets F n := (List.finRange n).foldl pollSlot s

/-- The tables after `Ethernet.begin`, when `setup` calls `server.begin`; `serverPort` is
    not cleared. -/
def init (net : F.State) (serverPort : Fin n → Bool) : Sockets F n where
  ptr := fun _ => none
  serverPort := serverPort
  phase := .begin_ none
  net := net
  calls := []

end Sockets

/-- The steps of `loop`, of the interrupt and of the stack. `poll` may come at any
    time, registered or not. -/
inductive SocketEvent (F : Fnet) where
  | go (more : Bool)
  | poll
  | move (m : F.Move)

def Sockets.step {F : Fnet} {n : Nat} (s : Sockets F n) : SocketEvent F → Option (Sockets F n)
  | .go more => s.go more
  | .poll => some s.poll
  | .move m => some { s with net := F.move m s.net }

namespace Sockets

variable {F : Fnet} {n : Nat}

@[simp] theorem ptr_setPtr_self (s : Sockets F n) (i : Fin n) (socket : Option F.Handle) :
    (s.setPtr i socket).ptr i = socket := by
  simp only [setPtr, Function.update_self]

theorem ptr_setPtr_other (s : Sockets F n) {i j : Fin n} (socket : Option F.Handle) (other : j ≠ i) :
    (s.setPtr i socket).ptr j = s.ptr j := by
  simp only [setPtr, Function.update_of_ne other]

theorem on_some {s t : Sockets F n} {i : Fin n} {c : F.Handle → FnetCall F.Handle}
    {next : Reply F.Handle → Sockets F n → Sockets F n} (taken : s.on i c next = some t) :
    ∃ h, s.ptr i = some h ∧ t = next (s.reply (c h)) (s.call (c h)) := by
  obtain ⟨h, here, rfl⟩ := Option.map_eq_some_iff.mp taken
  exact ⟨h, here, rfl⟩

/-- What `poll` does to one slot. -/
theorem pollSlot_cases (s : Sockets F n) (i : Fin n) :
    s.pollSlot i = s ∨ ∃ h, s.serverPort i = true ∧ s.socketStatus i = .LISTEN ∧ s.ptr i = some h ∧
      (((s.reply (.accept h)).made = none ∧ s.pollSlot i = s.call (.accept h)) ∨
        ∃ tmp, (s.reply (.accept h)).made = some tmp ∧
          s.pollSlot i = (((s.call (.accept h)).call (.close h)).setPtr i (some tmp)).call .unregister) := by
  unfold pollSlot
  split
  · rename_i h marked listens here
    refine .inr ⟨h, marked, listens, here, ?_⟩
    cases made : (s.reply (.accept h)).made with
    | none => exact .inl ⟨rfl, rfl⟩
    | some tmp => exact .inr ⟨tmp, rfl, rfl⟩
  · exact .inl rfl

/-- What holds before `poll` and is kept for every slot holds after it. -/
theorem poll_induction {motive : Sockets F n → Prop} {s : Sockets F n} (start : motive s)
    (kept : ∀ u i, motive u → motive (pollSlot u i)) : motive s.poll := by
  unfold poll
  induction List.finRange n using List.reverseRecOn with
  | nil => exact start
  | append_singleton places i ih =>
      rw [List.foldl_append]
      exact kept _ i ih

theorem listens_iff {s : Sockets F n} {i : Fin n} :
    s.socketStatus i = .LISTEN ↔ ∃ h, s.ptr i = some h ∧ F.state h s.net = .SS_LISTENING := by
  unfold socketStatus
  cases s.ptr i with
  | none => simp
  | some h =>
      simp only [Option.some.injEq, exists_eq_left']
      cases F.state h s.net <;> simp [SocketState.status]

theorem socketStatus_closed {s : Sockets F n} {i : Fin n} (here : s.ptr i = none) :
    s.socketStatus i = .CLOSED := by
  simp only [socketStatus, here]

end Sockets

end GpioCtrlBoard
