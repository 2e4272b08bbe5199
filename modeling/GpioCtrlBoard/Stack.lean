import GpioCtrlBoard.Sockets

/-! # A small stack which keeps the contract

It has `size` sockets, and a socket which is closed is given out again. Runs of the
server can be computed on it.
-/

namespace GpioCtrlBoard

/-- What the stack knows of an open socket. `bytes` have been received. -/
structure Connection where
  state : SocketState
  bytes : Nat
  deriving DecidableEq

/-- `waiting` counts the connections which nobody has accepted yet; while the port is
    in use `bind` fails. -/
structure Pool (size : Nat) where
  sockets : Fin size → Option Connection
  waiting : Nat
  inUse : Bool

/-- The stack by itself: a connection comes in, bytes arrive, the peer is done or resets
    the connection, or the port is taken or freed by somebody else. -/
inductive PoolMove (size : Nat) where
  | connect
  | arrive (h : Fin size) (length : Nat)
  | leave (h : Fin size)
  | reset (h : Fin size)
  | take (inUse : Bool)

namespace Pool

variable {size : Nat}

def empty (size : Nat) : Pool size := { sockets := fun _ => none, waiting := 0, inUse := false }

def put (h : Fin size) (connection : Option Connection) (net : Pool size) : Pool size :=
  { net with sockets := Function.update net.sockets h connection }

def unused (net : Pool size) : Option (Fin size) := (List.finRange size).find? fun h => (net.sockets h).isNone

def state (h : Fin size) (net : Pool size) : SocketState :=
  match net.sockets h with
  | none => .other
  | some connection => connection.state

/-- A change to a socket which is open. -/
def change (h : Fin size) (f : Connection → Connection) (net : Pool size) : Pool size :=
  net.put h ((net.sockets h).map f)

def bytes (h : Fin size) (net : Pool size) : Nat := ((net.sockets h).map Connection.bytes).getD 0

def done (length : Nat) : Reply (Fin size) := { ok := true, made := none, length := length }

def refused : Reply (Fin size) := { ok := false, made := none, length := 0 }

/-- A socket is made where one is unused. -/
def make (state : SocketState) (net : Pool size) : Pool size × Reply (Fin size) :=
  match net.unused with
  | none => (net, refused)
  | some h => (net.put h (some { state := state, bytes := 0 }), { ok := true, made := some h, length := 0 })

def call (c : FnetCall (Fin size)) (net : Pool size) : Pool size × Reply (Fin size) :=
  match c with
  | .socket => net.make .other
  | .accept _ =>
    if net.waiting = 0 then (net, refused)
    else ({ net with waiting := net.waiting - 1 } : Pool size).make .SS_CONNECTED
  | .bind _ => (net, if net.inUse then refused else done 0)
  | .listen h => (net.change h fun connection => { connection with state := .SS_LISTENING }, done 0)
  | .close h => (net.put h none, done 0)
  | .peek h => (net, done (net.bytes h))
  | .recvfrom h => (net.change h fun connection => { connection with bytes := 0 }, done (net.bytes h))
  | .setopt _ | .shutdown _ | .send _ | .register | .unregister => (net, done 0)

def move (m : PoolMove size) (net : Pool size) : Pool size :=
  match m with
  | .connect => { net with waiting := net.waiting + 1 }
  | .arrive h length => net.change h fun connection => { connection with bytes := connection.bytes + length }
  | .leave h => net.change h fun connection =>
      if connection.state = .SS_CONNECTED then { connection with state := .SS_CLOSING } else connection
  | .reset h => net.change h fun connection =>
      if connection.state = .SS_CONNECTED ∨ connection.state = .SS_CLOSING then { connection with state := .SS_CLOSED }
      else connection
  | .take inUse => { net with inUse := inUse }

def fnet (size : Nat) : Fnet where
  Handle := Fin size
  State := Pool size
  Move := PoolMove size
  call := call
  state := state
  move := move

def handle (h : Fin size) : (fnet size).Handle := h

/-- The sockets of a stack which has four. -/
def nth (k : Nat) : Fin 4 := Fin.ofNat 4 k

instance : DecidableEq (fnet size).Handle := inferInstanceAs (DecidableEq (Fin size))

/-! ## The contract -/

def isOpen (net : Pool size) (h : Fin size) : Prop := (net.sockets h).isSome = true

theorem isOpen_put {net : Pool size} {g h : Fin size} {connection : Option Connection} :
    (net.put g connection).isOpen h ↔ (g = h ∧ connection.isSome = true) ∨ (g ≠ h ∧ net.isOpen h) := by
  unfold isOpen put
  by_cases same : h = g
  · subst same
    simp
  · simp [Function.update_of_ne same, Ne.symm same]

theorem state_put {net : Pool size} {g h : Fin size} {connection : Option Connection} :
    (net.put g connection).state h =
      if h = g then (connection.map Connection.state).getD .other else net.state h := by
  unfold state put
  by_cases same : h = g
  · subst same
    simp only [Function.update_self, if_true]
    cases connection <;> rfl
  · simp only [Function.update_of_ne same, if_neg same]

theorem make_cases (state : SocketState) (net : Pool size) :
    net.make state = (net, refused) ∨ ∃ h, net.sockets h = none ∧
      net.make state = (net.put h (some { state := state, bytes := 0 }), { ok := true, made := some h, length := 0 }) := by
  unfold make
  cases found : net.unused with
  | none => exact .inl rfl
  | some h =>
      have free := List.find?_some (p := fun h => (net.sockets h).isNone) found
      exact .inr ⟨h, Option.isNone_iff_eq_none.mp free, rfl⟩

theorem isOpen_change {net : Pool size} {g h : Fin size} {f : Connection → Connection} :
    (net.change g f).isOpen h ↔ net.isOpen h := by
  unfold change
  rw [isOpen_put]
  by_cases same : g = h
  · subst same
    simp [isOpen]
  · simp [same]

theorem state_change (net : Pool size) (g h : Fin size) (f : Connection → Connection) :
    (net.change g f).state h = net.state h ∨ ∃ connection, g = h ∧ net.sockets h = some connection ∧
      (net.change g f).state h = (f connection).state := by
  unfold change
  rw [state_put]
  split
  · rename_i same
    subst same
    cases here : net.sockets h with
    | none => exact .inl (by simp [state, here])
    | some connection => exact .inr ⟨connection, rfl, rfl, by simp⟩
  · exact .inl rfl

theorem isOpen_make {state : SocketState} {net : Pool size} {h : Fin size} :
    (net.make state).1.isOpen h ↔ (net.make state).2.made = some h ∨ net.isOpen h := by
  rcases net.make_cases state with same | ⟨g, free, same⟩ <;> rw [same]
  · simp [refused]
  · rw [isOpen_put]
    by_cases here : g = h
    · simp [here]
    · simp [here]

theorem fresh_make {state : SocketState} {net : Pool size} {h : Fin size} (made : (net.make state).2.made = some h) :
    ¬ net.isOpen h := by
  rcases net.make_cases state with same | ⟨g, free, same⟩ <;> rw [same] at made
  · cases made
  · obtain rfl := Option.some.inj made
    simp [isOpen, free]

/-- A socket which is open keeps its state while another is made. -/
theorem state_make {st : SocketState} {net : Pool size} {h : Fin size} :
    (net.make st).1.state h = net.state h ∨ (¬ net.isOpen h ∧ (net.make st).1.state h = st) := by
  rcases net.make_cases st with same | ⟨g, free, same⟩ <;> rw [same]
  · exact .inl rfl
  · rw [state_put]
    split
    · rename_i here
      subst here
      exact .inr ⟨by simp [isOpen, free], rfl⟩
    · exact .inl rfl

theorem isOpen_call (c : FnetCall (Fin size)) (net : Pool size) (h : Fin size) :
    (net.call c).1.isOpen h ↔ c.opens (net.call c).2 = some h ∨ net.isOpen h ∧ c.closes ≠ some h := by
  cases c with
  | socket => simpa [call, FnetCall.opens, FnetCall.closes] using isOpen_make
  | accept g =>
      simp only [call, FnetCall.opens, FnetCall.closes, ne_eq, reduceCtorEq, not_false_iff, and_true]
      split
      · simp [refused]
      · exact isOpen_make
  | close g =>
      have put : (net.call (.close g)).1.isOpen h ↔ _ := isOpen_put
      rw [put]
      simp [FnetCall.opens, FnetCall.closes, and_comm]
  | listen g | recvfrom g =>
      simpa [call, FnetCall.opens, FnetCall.closes] using isOpen_change
  | setopt | bind | shutdown | peek | send | register | unregister =>
      simp [call, FnetCall.opens, FnetCall.closes]

/-- What a call does to the state of a socket. -/
theorem state_call (c : FnetCall (Fin size)) (net : Pool size) (h : Fin size) :
    (net.call c).1.state h = net.state h ∨ (net.call c).1.state h = .other ∨
      (¬ net.isOpen h ∧ (net.call c).1.state h = .SS_CONNECTED) ∨
      (c = .listen h ∧ (net.call c).2.ok = true ∧ (net.call c).1.state h = .SS_LISTENING) := by
  cases c with
  | socket => exact state_make.imp id fun now => .inl now.2
  | accept g =>
      simp only [call]
      split
      · exact .inl rfl
      · exact state_make.imp id fun now => .inr (.inl now)
  | close g =>
      have put : (net.call (.close g)).1.state h = _ := state_put
      rw [put]
      split
      · exact .inr (.inl rfl)
      · exact .inl rfl
  | listen g =>
      rcases state_change net g h fun connection => { connection with state := .SS_LISTENING }
        with same | ⟨_, rfl, _, now⟩
      · exact .inl same
      · exact .inr (.inr (.inr ⟨rfl, rfl, now⟩))
  | recvfrom g =>
      rcases state_change net g h fun connection => { connection with bytes := 0 }
        with same | ⟨_, rfl, here, now⟩
      · exact .inl same
      · exact .inl (now.trans (by simp [state, here]))
  | setopt | bind | shutdown | peek | send | register | unregister => exact .inl rfl

theorem isOpen_move (m : PoolMove size) (net : Pool size) (h : Fin size) : (net.move m).isOpen h ↔ net.isOpen h := by
  cases m with
  | connect | take => exact Iff.rfl
  | arrive | leave | reset => exact isOpen_change

theorem state_move (m : PoolMove size) (net : Pool size) (h : Fin size) :
    (net.move m).state h = net.state h ∨ (net.state h = .SS_CONNECTED ∧ (net.move m).state h = .SS_CLOSING) ∨
      ((net.state h = .SS_CONNECTED ∨ net.state h = .SS_CLOSING) ∧ (net.move m).state h = .SS_CLOSED) := by
  cases m with
  | connect | take => exact .inl rfl
  | arrive g length =>
      rcases state_change net g h fun connection => { connection with bytes := connection.bytes + length }
        with same | ⟨_, rfl, here, now⟩
      · exact .inl same
      · exact .inl (now.trans (by simp [state, here]))
  | leave g =>
      rcases state_change net g h fun connection =>
        if connection.state = .SS_CONNECTED then { connection with state := .SS_CLOSING } else connection
        with same | ⟨connection, rfl, here, now⟩
      · exact .inl same
      · have was : net.state g = connection.state := by simp [state, here]
        split at now
        · rename_i connected
          exact .inr (.inl ⟨was.trans connected, now⟩)
        · exact .inl (now.trans was.symm)
  | reset g =>
      rcases state_change net g h fun connection =>
        if connection.state = .SS_CONNECTED ∨ connection.state = .SS_CLOSING then
          { connection with state := .SS_CLOSED } else connection
        with same | ⟨connection, rfl, here, now⟩
      · exact .inl same
      · have was : net.state g = connection.state := by simp [state, here]
        split at now
        · rename_i connected
          exact .inr (.inr ⟨connected.imp was.trans was.trans, now⟩)
        · exact .inl (now.trans was.symm)

theorem fresh_call {c : FnetCall (Fin size)} {net : Pool size} {h : Fin size}
    (opened : c.opens (net.call c).2 = some h) : ¬ net.isOpen h := by
  cases c with
  | socket => exact fresh_make opened
  | accept g =>
      simp only [call, FnetCall.opens] at opened
      split at opened
      · cases opened
      · have closed : ¬ ({ net with waiting := net.waiting - 1 } : Pool size).isOpen h := fresh_make opened
        exact closed
  | setopt | bind | listen | shutdown | close | peek | recvfrom | send | register | unregister => cases opened

/-- The contract of `fnet`. -/
def contract (size : Nat) : (fnet size).Contract where
  isOpen := isOpen
  fresh := fun _ => fresh_call
  open_call := fun h _ => isOpen_call _ _ h
  open_move := isOpen_move
  closed_silent := fun {net h} closed => by
    have none : net.sockets h = none := by simpa [isOpen] using closed
    simp [fnet, state, none]
  listening_call := fun {c net h} _ now => by
    rcases state_call c net h with same | other | ⟨-, connected⟩ | ⟨listen, ok, -⟩
    · exact .inl (same.symm.trans now)
    · cases other.symm.trans now
    · cases connected.symm.trans now
    · exact .inr ⟨listen, ok⟩
  listening_move := fun {m net h} now => by
    rcases state_move m net h with same | ⟨-, closing⟩ | ⟨-, closed⟩
    · exact same.symm.trans now
    · cases closing.symm.trans now
    · cases closed.symm.trans now
  over_call := fun {c net h} _ isOpen apart gone => by
    change ((net.call c).1.state h).Over
    rcases state_call c net h with same | other | ⟨closed, -⟩ | ⟨rfl, -, -⟩
    · rw [same]
      exact gone
    · exact .inr other
    · exact absurd isOpen closed
    · exact absurd rfl apart
  over_move := fun {m net h} _ gone => by
    change ((net.move m).state h).Over
    rcases state_move m net h with same | ⟨was, -⟩ | ⟨-, closed⟩
    · rw [same]
      exact gone
    · rcases gone with gone | gone
      · cases was.symm.trans gone
      · cases was.symm.trans gone
    · exact .inl closed

theorem closed_empty (h : (fnet size).Handle) : ¬ (contract size).isOpen (empty size) h := by
  change ¬ (none : Option Connection).isSome = true
  simp

end Pool

end GpioCtrlBoard
