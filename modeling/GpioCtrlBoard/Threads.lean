import GpioCtrlBoard.Lib.LabelledRun
import GpioCtrlBoard.Lib.RoundRobin

/-! # The thread library

Up to eight threads share the processor. A timer interrupt counts down the slice
of the running thread; at its end, or when the thread yields, the registers go
to the thread's own record and those of the next running thread come back.
Thread 0 is `loop`, which the search for a thread falls back on.
-/

namespace GpioCtrlBoard

open LabelledRun

/-- The states of a thread. -/
inductive ThreadState where
  | empty
  | running
  | ended
  | ending
  | suspended
  deriving DecidableEq, Repr

/-- The states of the threading system. `held` is the 0 which a `Suspend` sets. -/
inductive Activity where
  | held
  | started
  | stopped
  | firstRun
  deriving DecidableEq, Repr

/-- `software_stack_t`: what the context switch saves. -/
@[ext] structure SoftwareStack where
  r : Fin 8 → UInt32
  lr : UInt32
  s : Fin 32 → UInt32
  fpscr : UInt32

/-- Memory which `new` has cleared. -/
def SoftwareStack.zero : SoftwareStack := ⟨fun _ => 0, 0, fun _ => 0, 0⟩

/-- The registers of a thread, with its process stack pointer. -/
@[ext] structure Context where
  regs : SoftwareStack
  psp : Int

structure ThreadInfo where
  stackSize : Int
  stack : Int
  myStack : Bool
  save : SoftwareStack
  flags : ThreadState
  sp : Int
  ticks : UInt32

def ThreadInfo.context (thread : ThreadInfo) : Context := ⟨thread.save, thread.sp⟩

/-- The index of one of the `MAX_THREADS` threads. -/
abbrev ThreadId := Fin 8

/-- The object `threads` with the variables of the context switch. `cpu` holds
    the registers as the last switch has loaded them. -/
structure Threads where
  currentThread : ThreadId
  threadCount : Int
  threadp : ThreadId → Option ThreadInfo
  currentActive : Activity
  currentCount : UInt32
  currentSP : Int
  cpu : Context
  defaultStackSize : Int
  defaultTicks : UInt32

namespace Threads

/-- `Threads()`: thread 0 runs on the main stack, which ends at `estack`. -/
def init (estack : Int) (cpu : Context) : Threads where
  currentThread := 0
  threadCount := 0
  threadp := Function.update (fun _ => none) 0 (some
    { stackSize := 10240, stack := estack - 10240, myStack := false, save := .zero
      flags := .running, sp := 0, ticks := 10 })
  currentActive := .firstRun
  currentCount := 10
  currentSP := 0
  cpu := cpu
  defaultStackSize := 1024
  defaultTicks := 10

def setThread (i : ThreadId) (thread : ThreadInfo) (s : Threads) : Threads :=
  { s with threadp := Function.update s.threadp i (some thread) }

@[simp] theorem threadp_setThread_self (s : Threads) (i : ThreadId) (thread : ThreadInfo) :
    (s.setThread i thread).threadp i = some thread := by
  simp only [setThread, Function.update_self]

theorem threadp_setThread_other (s : Threads) {i j : ThreadId} (thread : ThreadInfo) (other : i ≠ j) :
    (s.setThread j thread).threadp i = s.threadp i := by
  simp only [setThread, Function.update_of_ne other]

def running (s : Threads) (i : ThreadId) : Bool :=
  match s.threadp i with
  | some thread => thread.flags = .running
  | none => false

/-! ## The context switch -/

/-- `stack_overflow_isr`, for the thread which overflowed. -/
def stackOverflowIsr (thread : ThreadInfo) : ThreadInfo := { thread with flags := .ended }

/-- Thread 0 is not checked; the others need more than 8 bytes. -/
def checkStack (i : ThreadId) (thread : ThreadInfo) : ThreadInfo :=
  if i ≠ 0 ∧ thread.sp - thread.stack ≤ 8 then stackOverflowIsr thread else thread

/-- `none` stands for the use of a null pointer, here and below. -/
def getNextThread (s : Threads) : Option Threads := do
  let thread ← s.threadp s.currentThread
  let thread := checkStack s.currentThread { thread with sp := s.currentSP }
  let s := s.setThread s.currentThread thread
  let next := RoundRobin.next s.running s.currentThread
  let thread ← s.threadp next
  return { s with
    currentThread := next
    currentCount := thread.ticks
    currentSP := thread.sp }

/-- The bit of the link register for the process stack. -/
def stackBit (i : ThreadId) : UInt32 := if i = 0 then 0 else 4

/-- The link register with which the interrupt returns to a thread: only the bit
    for the floating point frame is the thread's own. -/
def excReturn (i : ThreadId) (lr : UInt32) : UInt32 := (lr &&& 0x10) ||| 0xFFFFFFE9 ||| stackBit i

/-- What a thread finds in the processor when it is resumed. -/
def restored (i : ThreadId) (regs : SoftwareStack) : SoftwareStack :=
  { regs with lr := excReturn i regs.lr }

/-- `call_direct_active`, with the registers of the interrupted thread. -/
def callDirectActive (ctx : Context) (s : Threads) : Option Threads := do
  let thread ← s.threadp s.currentThread
  let s := s.setThread s.currentThread { thread with save := ctx.regs }
  -- Thread 0 runs on the main stack, whose pointer is left alone.
  let s := { s with currentSP := if s.currentThread = 0 then s.currentSP else ctx.psp }
  let s ← s.getNextThread
  let thread ← s.threadp s.currentThread
  return { s with
    cpu :=
      { regs := restored s.currentThread thread.save
        psp := if s.currentThread = 0 then ctx.psp else s.currentSP } }

/-- `call_direct`. -/
def callDirect (ctx : Context) (s : Threads) : Option Threads :=
  if s.currentActive = .started then s.callDirectActive ctx else some s

/-- `context_switch_check`. -/
def contextSwitchCheck (ctx : Context) (s : Threads) : Option Threads :=
  if s.currentCount = 0 then s.callDirect ctx
  else some { s with currentCount := s.currentCount - 1 }

/-- `context_switch`: nothing happens when another interrupt was interrupted. -/
def contextSwitch (nested : Bool) (ctx : Context) (s : Threads) : Option Threads :=
  if nested then some s else s.contextSwitchCheck ctx

/-! ## Calls of the running thread -/

def start (prevState : Option Activity) (s : Threads) : Threads :=
  { s with currentActive := prevState.getD .started }

def stop (s : Threads) : Threads := { s with currentActive := .stopped }

/-- A slot which `addThread` can take: a null pointer counts as a new, empty one. -/
def free : Option ThreadInfo → Bool
  | none => true
  | some thread => thread.flags = .ended ∨ thread.flags = .empty

def freeSlot (s : Threads) : Option ThreadId :=
  (RoundRobin.behind 0).find? fun i => free (s.threadp i)

/-- `sizeof(interrupt_stack_t)`. -/
def frameSize : Int := 32

/-- `loadstack`: the stack pointer below the first frame. -/
def loadstack (stackaddr stackSize : Int) : Int := stackaddr + stackSize - frameSize - 8

/-- The record of a new thread; a slot which is used again keeps the registers
    of its last thread, but for `lr`. -/
def newThread (old : Option ThreadInfo) (stackSize stack heap : Int) (ticks : UInt32) : ThreadInfo :=
  let base := if stack = 0 then heap else stack
  { stackSize := stackSize
    stack := base
    myStack := stack = 0
    save := { (match old with
      | some thread => thread.save
      | none => .zero) with lr := 0xFFFFFFF9 }
    flags := .running
    sp := loadstack base stackSize
    ticks := ticks }

/-- `addThread`, with the address which `new` returns for a stack. -/
def addThread (stackSize stack heap : Int) (s : Threads) : Threads × Int :=
  let oldState := s.currentActive
  let stackSize := if stackSize = -1 then s.defaultStackSize else stackSize
  match s.freeSlot with
  | some i =>
    let s := s.stop.setThread i (newThread (s.threadp i) stackSize stack heap s.defaultTicks)
    let s := { s with currentActive := oldState, threadCount := s.threadCount + 1 }
    (if oldState = .started ∨ oldState = .firstRun then s.start none else s, (i : Nat))
  | none => (if oldState = .started then s.stop.start none else s.stop, -1)

/-- The thread library at the end of `setup`, which adds `ctrlEthernetThread` and
    `heartBeatThread` with the default stack size. The first call starts the
    threads; here no tick comes before the second one has returned. -/
def boot (estack : Int) (cpu : Context) (heapEthernet heapHeartBeat : Int) : Threads :=
  (((init estack cpu).addThread (-1) 0 heapEthernet).1.addThread (-1) 0 heapHeartBeat).1

/-- The threads of the board in the order of their slots: `loop`,
    `ctrlEthernetThread`, `heartBeatThread`. -/
def turn (k : Nat) : ThreadId := Fin.ofNat 8 (k % 3)

def setState (id : ThreadId) (state : ThreadState) (s : Threads) : Option Threads := do
  let thread ← s.threadp id
  return s.setThread id { thread with flags := state }

def kill (id : ThreadId) (s : Threads) : Option Threads := s.setState id .ended

def suspend (id : ThreadId) (s : Threads) : Option Threads := s.setState id .suspended

def restart (id : ThreadId) (s : Threads) : Option Threads := s.setState id .running

/-- `setTimeSlice`: the tick which ends the slice is not counted. -/
def setTimeSlice (id : ThreadId) (ticks : UInt32) (s : Threads) : Option Threads := do
  let thread ← s.threadp id
  return s.setThread id { thread with ticks := ticks - 1 }

def setDefaultTimeSlice (ticks : UInt32) (s : Threads) : Threads := { s with defaultTicks := ticks - 1 }

def setDefaultStackSize (bytesSize : Int) (s : Threads) : Threads :=
  { s with defaultStackSize := bytesSize }

/-- `del_process`, to which the function of a thread returns. -/
def delProcess (s : Threads) : Option Threads := do
  let oldState := s.currentActive
  let s := s.stop
  let me ← s.threadp s.currentThread
  let s := { s with threadCount := s.threadCount - 1 }
  let s := s.setThread s.currentThread { me with flags := .ended }
  return s.start (some oldState)

end Threads

/-- The timer interrupt and the calls of the running thread. `kill`, `suspend`
    and `restart` are calls of `setState`. -/
inductive ThreadEvent where
  | tick (nested : Bool) (ctx : Context)
  | yield (ctx : Context)
  | yieldAndStart (ctx : Context)
  | start (prevState : Option Activity)
  | stop
  | addThread (stackSize stack heap : Int)
  | setState (id : ThreadId) (state : ThreadState)
  | setTimeSlice (id : ThreadId) (ticks : UInt32)
  | setDefaultTimeSlice (ticks : UInt32)
  | setDefaultStackSize (bytesSize : Int)
  | delProcess

namespace Threads

def step (s : Threads) : ThreadEvent → Option Threads
  | .tick nested ctx => s.contextSwitch nested ctx
  | .yield ctx => s.callDirect ctx
  | .yieldAndStart ctx => (s.start none).callDirectActive ctx
  | .start prevState => some (s.start prevState)
  | .stop => some s.stop
  | .addThread stackSize stack heap => some (s.addThread stackSize stack heap).1
  | .setState id state => s.setState id state
  | .setTimeSlice id ticks => s.setTimeSlice id ticks
  | .setDefaultTimeSlice ticks => some (s.setDefaultTimeSlice ticks)
  | .setDefaultStackSize bytesSize => some (s.setDefaultStackSize bytesSize)
  | .delProcess => s.delProcess

/-- The registers with which an event leaves the running thread, if it switches. -/
def switches (s : Threads) : ThreadEvent → Option Context
  | .tick nested ctx =>
    if nested = false ∧ s.currentCount = 0 ∧ s.currentActive = .started then some ctx else none
  | .yield ctx => if s.currentActive = .started then some ctx else none
  | .yieldAndStart ctx => some ctx
  | _ => none

/-- Interrupts of the timer and calls of `yield`. -/
def plain : ThreadEvent → Bool
  | .tick _ _ | .yield _ => true
  | _ => false

/-- The running thread is switched away with a stack which is used up. -/
def overflows (s : Threads) (e : ThreadEvent) : Bool :=
  match s.switches e, s.threadp s.currentThread with
  | some ctx, some thread => s.currentThread ≠ 0 ∧ ctx.psp - thread.stack ≤ 8
  | _, _ => false

/-! ## What a step can do -/

theorem getNextThread_spec {s t : Threads} (taken : s.getNextThread = some t) :
    ∃ thread, s.threadp s.currentThread = some thread ∧
      t.threadp = Function.update s.threadp s.currentThread
        (some (checkStack s.currentThread { thread with sp := s.currentSP })) ∧
      t.currentThread = RoundRobin.next t.running s.currentThread ∧
      (∃ next, t.threadp t.currentThread = some next ∧ t.currentCount = next.ticks ∧
        t.currentSP = next.sp) ∧
      t.currentActive = s.currentActive := by
  simp only [getNextThread, setThread, Option.bind_eq_bind, Option.pure_def,
    Option.bind_eq_some_iff, Option.some.injEq] at taken
  obtain ⟨thread, found, next, foundNext, rfl⟩ := taken
  exact ⟨thread, found, rfl, rfl, ⟨next, foundNext, rfl, rfl⟩, rfl⟩

/-- The record of the thread which is switched away. -/
def parked (s : Threads) (ctx : Context) (thread : ThreadInfo) : ThreadInfo :=
  checkStack s.currentThread { thread with
    save := ctx.regs
    sp := if s.currentThread = 0 then s.currentSP else ctx.psp }

/-- A stack with room left changes no flags. -/
theorem parked_flags {s : Threads} {ctx : Context} {thread : ThreadInfo}
    (room : ¬ (s.currentThread ≠ 0 ∧ ctx.psp - thread.stack ≤ 8)) :
    (s.parked ctx thread).flags = thread.flags := by
  rw [parked, checkStack]
  by_cases main : s.currentThread = 0
  · rw [if_neg fun overflow => overflow.1 main]
  · rw [if_neg main, if_neg room]

/-- The switch stores the running thread and loads the next one. -/
structure Switched (s : Threads) (ctx : Context) (t : Threads) : Prop where
  stored : ∃ thread, s.threadp s.currentThread = some thread ∧
    t.threadp = Function.update s.threadp s.currentThread (some (s.parked ctx thread))
  chosen : t.currentThread = RoundRobin.next t.running s.currentThread
  loaded : ∃ thread, t.threadp t.currentThread = some thread ∧ t.currentCount = thread.ticks ∧
    t.cpu.regs = restored t.currentThread thread.save ∧
    (t.currentThread ≠ 0 → t.cpu.psp = thread.sp)

theorem callDirectActive_switched {s t : Threads} {ctx : Context}
    (taken : s.callDirectActive ctx = some t) :
    Switched s ctx t ∧ t.currentActive = s.currentActive := by
  simp only [callDirectActive, Option.bind_eq_bind, Option.pure_def, Option.bind_eq_some_iff,
    Option.some.injEq] at taken
  obtain ⟨thread, found, u, chosen, resumed, foundResumed, rfl⟩ := taken
  obtain ⟨thread', found', stored, next, ⟨thread'', found'', count, sp⟩, active⟩ :=
    getNextThread_spec chosen
  simp only [setThread, Function.update_self, Option.some.injEq] at found' stored
  subst found'
  obtain rfl : resumed = thread'' := Option.some.inj (foundResumed.symm.trans found'')
  refine ⟨⟨⟨thread, found, ?_⟩, next, ⟨resumed, foundResumed, count, rfl, ?_⟩⟩, active⟩
  · rw [stored, Function.update_idem]
    rfl
  · intro notMain
    simp only [if_neg notMain]
    exact sp

theorem step_switched {s t : Threads} {e : ThreadEvent} {ctx : Context} (taken : s.step e = some t)
    (leaves : s.switches e = some ctx) : Switched s ctx t := by
  cases e with
  | tick nested ctx' =>
      simp only [switches, Option.ite_none_right_eq_some, Option.some.injEq] at leaves
      obtain ⟨⟨rfl, due, active⟩, rfl⟩ := leaves
      simp only [step, contextSwitch, Bool.false_eq_true, if_false, contextSwitchCheck, if_pos due,
        callDirect, if_pos active] at taken
      exact (callDirectActive_switched taken).1
  | yield ctx' =>
      simp only [switches, Option.ite_none_right_eq_some, Option.some.injEq] at leaves
      obtain ⟨active, rfl⟩ := leaves
      simp only [step, callDirect, if_pos active] at taken
      exact (callDirectActive_switched taken).1
  | yieldAndStart ctx' =>
      obtain rfl : ctx' = ctx := Option.some.inj leaves
      obtain ⟨stored, chosen, loaded⟩ := (callDirectActive_switched taken).1
      exact ⟨stored, chosen, loaded⟩
  | _ => simp [switches] at leaves

/-- What a thread was left with, whether it runs or not. -/
def context (s : Threads) (i : ThreadId) : Option Context := (s.threadp i).map ThreadInfo.context

def flags (s : Threads) (i : ThreadId) : Option ThreadState := (s.threadp i).map ThreadInfo.flags

/-- The processor as a thread takes over which was left with `c`. -/
def Loaded (i : ThreadId) (c : Context) (cpu : Context) : Prop :=
  cpu.regs = restored i c.regs ∧ (i ≠ 0 → cpu.psp = c.psp)

/-- A link register with which an interrupt leaves a thread comes back to it. -/
theorem excReturn_self {i : ThreadId} {lr : UInt32}
    (threadMode : lr = 0xFFFFFFE9 ||| stackBit i ∨ lr = 0xFFFFFFF9 ||| stackBit i) :
    excReturn i lr = lr := by
  by_cases main : i = 0
  · rw [stackBit, if_pos main] at threadMode
    rw [excReturn, stackBit, if_pos main]
    rcases threadMode with rfl | rfl <;> rfl
  · rw [stackBit, if_neg main] at threadMode
    rw [excReturn, stackBit, if_neg main]
    rcases threadMode with rfl | rfl <;> rfl

theorem running_iff {s : Threads} {i : ThreadId} :
    s.running i = true ↔ ∃ thread, s.threadp i = some thread ∧ thread.flags = .running := by
  rw [running]
  cases s.threadp i with
  | none => simp
  | some thread => simp

theorem running_iff_flags {s : Threads} {i : ThreadId} : s.running i = true ↔ s.flags i = some .running := by
  rw [running_iff, flags, Option.map_eq_some_iff]

theorem checkStack_context (i : ThreadId) (thread : ThreadInfo) :
    (checkStack i thread).context = thread.context := by
  rw [checkStack]
  split <;> rfl

theorem checkStack_flags (i : ThreadId) (thread : ThreadInfo) :
    (checkStack i thread).flags = thread.flags ∨ (checkStack i thread).flags = .ended := by
  rw [checkStack]
  split
  · exact .inr rfl
  · exact .inl rfl

namespace Switched

variable {s t : Threads} {ctx : Context} (switched : Switched s ctx t)
include switched

theorem context_other {i : ThreadId} (other : i ≠ s.currentThread) : t.context i = s.context i := by
  obtain ⟨thread, -, records⟩ := switched.stored
  rw [context, records, Function.update_of_ne other, context]

/-- The registers of the thread which leaves are the ones that are stored. -/
theorem context_left : ∃ c, t.context s.currentThread = some c ∧ c.regs = ctx.regs ∧
    (s.currentThread ≠ 0 → c.psp = ctx.psp) := by
  obtain ⟨thread, -, records⟩ := switched.stored
  refine ⟨_, by rw [context, records, Function.update_self, Option.map_some], ?_⟩
  rw [parked, checkStack_context]
  exact ⟨rfl, fun notMain => if_neg notMain⟩

/-- The thread which takes over finds what it was left with. -/
theorem context_loaded : ∃ c, t.context t.currentThread = some c ∧
    Loaded t.currentThread c t.cpu := by
  obtain ⟨thread, found, -, regs, psp⟩ := switched.loaded
  exact ⟨thread.context, by rw [context, found, Option.map_some], regs, psp⟩

/-- The thread which leaves may have ended; all other flags are kept. -/
theorem flags (i : ThreadId) : t.flags i = s.flags i ∨ t.flags i = some .ended := by
  obtain ⟨thread, found, records⟩ := switched.stored
  rw [Threads.flags, records, Threads.flags]
  by_cases same : i = s.currentThread
  · subst same
    rw [Function.update_self, found, Option.map_some, Option.map_some, parked]
    exact (checkStack_flags s.currentThread _).imp (congrArg some) (congrArg some)
  · rw [Function.update_of_ne same]
    exact .inl rfl

theorem granted_running : t.currentThread = 0 ∨ t.running t.currentThread = true := by
  rw [switched.chosen]
  rcases RoundRobin.next_cases t.running s.currentThread with ⟨main, -⟩ | ⟨-, isReady, -⟩
  · exact .inl main
  · exact .inr isReady

end Switched

/-- The slot which an event gives to a new thread. -/
def gives (s : Threads) : ThreadEvent → Option ThreadId
  | .addThread _ _ _ => s.freeSlot
  | _ => none

/-- The flags which an event writes. -/
def sets (s : Threads) : ThreadEvent → Option (ThreadId × ThreadState)
  | .addThread _ _ _ => s.freeSlot.map fun i => (i, .running)
  | .setState id state => some (id, state)
  | .delProcess => some (s.currentThread, .ended)
  | _ => none

/-- The thread which an event makes able to run. -/
def revives (s : Threads) (e : ThreadEvent) : Option ThreadId :=
  (s.sets e).bind fun written => if written.2 = .running then some written.1 else none

/-- A step which switches to no thread leaves the processor, the registers which
    the threads have left behind, and all flags but the one it writes. -/
structure Stayed (s : Threads) (e : ThreadEvent) (t : Threads) : Prop where
  current : t.currentThread = s.currentThread
  cpu : t.cpu = s.cpu
  kept : ∀ i, s.gives e ≠ some i → t.context i = s.context i
  flags : ∀ i, t.flags i = s.flags i ∨ ∃ state, s.sets e = some (i, state) ∧ t.flags i = some state

/-- Writes to the fields next to the records. -/
theorem Stayed.of_fields {s t : Threads} (e : ThreadEvent) (current : t.currentThread = s.currentThread)
    (cpu : t.cpu = s.cpu) (records : t.threadp = s.threadp) : Stayed s e t := by
  refine ⟨current, cpu, fun i _ => ?_, fun i => .inl ?_⟩
  · rw [context, records, context]
  · rw [Threads.flags, records, Threads.flags]

/-- A write to one record. -/
theorem Stayed.of_record {s t : Threads} {e : ThreadEvent} {id : ThreadId} {thread : ThreadInfo}
    (thread' : ThreadInfo) (found : s.threadp id = some thread) (current : t.currentThread = s.currentThread)
    (cpu : t.cpu = s.cpu) (records : t.threadp = (s.setThread id thread').threadp)
    (context : thread'.context = thread.context)
    (flags : thread'.flags = thread.flags ∨ s.sets e = some (id, thread'.flags)) : Stayed s e t := by
  refine ⟨current, cpu, fun i _ => ?_, fun i => ?_⟩
  · by_cases same : i = id
    · subst same
      rw [Threads.context, records, threadp_setThread_self, Threads.context, found,
        Option.map_some, Option.map_some, context]
    · rw [Threads.context, records, threadp_setThread_other s thread' same, Threads.context]
  · rw [Threads.flags, records, Threads.flags]
    by_cases same : i = id
    · subst same
      rw [threadp_setThread_self, found, Option.map_some, Option.map_some]
      rcases flags with same | written
      · exact .inl (congrArg some same)
      · exact .inr ⟨_, written, rfl⟩
    · rw [threadp_setThread_other s thread' same]
      exact .inl rfl

theorem freeSlot_some {s : Threads} {i : ThreadId} (found : s.freeSlot = some i) :
    i ≠ 0 ∧ free (s.threadp i) = true := by
  have isFree := List.find?_some (p := fun i => free (s.threadp i)) found
  refine ⟨?_, isFree⟩
  have member := List.mem_of_find?_eq_some found
  exact Fin.pos_iff_ne_zero.mp (RoundRobin.mem_behind.mp member)

theorem addThread_some (stackSize stack heap : Int) {s : Threads} {i : ThreadId}
    (found : s.freeSlot = some i) :
    (s.addThread stackSize stack heap).1.threadp = Function.update s.threadp i (some
        (newThread (s.threadp i) (if stackSize = -1 then s.defaultStackSize else stackSize)
          stack heap s.defaultTicks)) ∧
      (s.addThread stackSize stack heap).1.currentThread = s.currentThread ∧
      (s.addThread stackSize stack heap).1.cpu = s.cpu := by
  rw [addThread, found]
  by_cases active : s.currentActive = .started ∨ s.currentActive = .firstRun
  · simp only [if_pos active]
    exact ⟨rfl, rfl, rfl⟩
  · simp only [if_neg active]
    exact ⟨rfl, rfl, rfl⟩

theorem addThread_none (stackSize stack heap : Int) {s : Threads} (full : s.freeSlot = none) :
    (s.addThread stackSize stack heap).1.threadp = s.threadp ∧
      (s.addThread stackSize stack heap).1.currentThread = s.currentThread ∧
      (s.addThread stackSize stack heap).1.cpu = s.cpu := by
  rw [addThread, full]
  by_cases active : s.currentActive = .started
  · simp only [if_pos active]
    exact ⟨rfl, rfl, rfl⟩
  · simp only [if_neg active]
    exact ⟨rfl, rfl, rfl⟩

theorem addThread_stayed (s : Threads) (stackSize stack heap : Int) :
    Stayed s (.addThread stackSize stack heap) (s.addThread stackSize stack heap).1 := by
  cases found : s.freeSlot with
  | none =>
      obtain ⟨records, current, cpu⟩ := addThread_none stackSize stack heap found
      exact .of_fields _ current cpu records
  | some id =>
      obtain ⟨records, current, cpu⟩ := addThread_some stackSize stack heap found
      refine ⟨current, cpu, fun i other => ?_, fun i => ?_⟩
      · have apart : i ≠ id := fun same => other (by rw [same]; exact found)
        rw [context, records, Function.update_of_ne apart, context]
      · rw [Threads.flags, records, Threads.flags]
        by_cases same : i = id
        · subst same
          rw [Function.update_self]
          exact .inr ⟨.running, by rw [sets, found, Option.map_some], rfl⟩
        · rw [Function.update_of_ne same]
          exact .inl rfl

theorem plain_stayed {s t : Threads} {e : ThreadEvent} (isPlain : plain e = true)
    (taken : s.step e = some t) (keeps : s.switches e = none) :
    t.currentThread = s.currentThread ∧ t.cpu = s.cpu ∧ t.threadp = s.threadp := by
  cases e with
  | tick nested ctx =>
      simp only [switches, ite_eq_right_iff, reduceCtorEq, imp_false] at keeps
      simp only [step, contextSwitch, contextSwitchCheck, callDirect] at taken
      split at taken
      · obtain rfl := Option.some.inj taken
        exact ⟨rfl, rfl, rfl⟩
      · rename_i direct
        split at taken
        · rename_i due
          have held : ¬ s.currentActive = .started :=
            fun active => keeps ⟨Bool.eq_false_iff.mpr direct, due, active⟩
          rw [if_neg held] at taken
          obtain rfl := Option.some.inj taken
          exact ⟨rfl, rfl, rfl⟩
        · obtain rfl := Option.some.inj taken
          exact ⟨rfl, rfl, rfl⟩
  | yield ctx =>
      simp only [switches, ite_eq_right_iff, reduceCtorEq, imp_false] at keeps
      simp only [step, callDirect, if_neg keeps, Option.some.injEq] at taken
      subst taken
      exact ⟨rfl, rfl, rfl⟩
  | _ => exact absurd isPlain Bool.false_ne_true

theorem step_stayed {s t : Threads} {e : ThreadEvent} (taken : s.step e = some t)
    (keeps : s.switches e = none) : Stayed s e t := by
  cases e with
  | tick nested ctx =>
      obtain ⟨current, cpu, records⟩ := plain_stayed rfl taken keeps
      exact .of_fields _ current cpu records
  | yield ctx =>
      obtain ⟨current, cpu, records⟩ := plain_stayed rfl taken keeps
      exact .of_fields _ current cpu records
  | yieldAndStart ctx => simp [switches] at keeps
  | addThread stackSize stack heap =>
      obtain rfl := Option.some.inj taken
      exact addThread_stayed s stackSize stack heap
  | setState id state =>
      simp only [step, setState, Option.bind_eq_bind, Option.pure_def, Option.bind_eq_some_iff,
        Option.some.injEq] at taken
      obtain ⟨thread, found, rfl⟩ := taken
      exact .of_record _ found rfl rfl rfl rfl (.inr rfl)
  | setTimeSlice id ticks =>
      simp only [step, setTimeSlice, Option.bind_eq_bind, Option.pure_def, Option.bind_eq_some_iff,
        Option.some.injEq] at taken
      obtain ⟨thread, found, rfl⟩ := taken
      exact .of_record _ found rfl rfl rfl rfl (.inl rfl)
  | delProcess =>
      simp only [step, delProcess, Option.bind_eq_bind, Option.pure_def, Option.bind_eq_some_iff,
        Option.some.injEq] at taken
      obtain ⟨thread, found, rfl⟩ := taken
      exact .of_record { thread with flags := .ended } found rfl rfl rfl rfl (.inr rfl)
  | start _ | stop | setDefaultTimeSlice _ | setDefaultStackSize _ =>
      obtain rfl := Option.some.inj taken
      exact .of_fields _ rfl rfl rfl

theorem setState_fields {s t : Threads} {id : ThreadId} {state : ThreadState}
    (taken : s.setState id state = some t) :
    t.currentThread = s.currentThread ∧ t.currentActive = s.currentActive := by
  simp only [setState, Option.bind_eq_bind, Option.pure_def, Option.bind_eq_some_iff,
    Option.some.injEq] at taken
  obtain ⟨thread, -, rfl⟩ := taken
  exact ⟨rfl, rfl⟩

theorem setState_flags {s t : Threads} {id : ThreadId} {state : ThreadState}
    (taken : s.setState id state = some t) (i : ThreadId) :
    t.flags i = if i = id then some state else s.flags i := by
  simp only [setState, Option.bind_eq_bind, Option.pure_def, Option.bind_eq_some_iff,
    Option.some.injEq] at taken
  obtain ⟨thread, -, rfl⟩ := taken
  by_cases same : i = id
  · rw [if_pos same, same, flags, threadp_setThread_self, Option.map_some]
  · rw [if_neg same, flags, threadp_setThread_other s _ same, flags]

theorem plain_active {s t : Threads} {e : ThreadEvent} (isPlain : plain e = true)
    (taken : s.step e = some t) : t.currentActive = s.currentActive := by
  have direct : ∀ ctx, s.callDirect ctx = some t → t.currentActive = s.currentActive := by
    intro ctx taken
    rw [callDirect] at taken
    split at taken
    · exact (callDirectActive_switched taken).2
    · rw [Option.some.inj taken]
  cases e with
  | tick nested ctx =>
      rw [step, contextSwitch, contextSwitchCheck] at taken
      split at taken
      · rw [Option.some.inj taken]
      · split at taken
        · exact direct ctx taken
        · rw [← Option.some.inj taken]
  | yield ctx => exact direct ctx taken
  | _ => exact absurd isPlain Bool.false_ne_true

/-- While the threads are stopped, only `yield_and_start` switches. -/
theorem switches_stopped {s : Threads} {e : ThreadEvent} (stopped : s.currentActive ≠ .started)
    (isPlain : plain e = true) : s.switches e = none := by
  cases e with
  | tick nested ctx => rw [switches, if_neg fun due => stopped due.2.2]
  | yield ctx => rw [switches, if_neg stopped]
  | _ => exact absurd isPlain Bool.false_ne_true

/-- The flags of a thread after any step. -/
theorem step_flags {s t : Threads} {e : ThreadEvent} (taken : s.step e = some t) (i : ThreadId) :
    t.flags i = s.flags i ∨ t.flags i = some .ended ∨
      ∃ state, s.sets e = some (i, state) ∧ t.flags i = some state := by
  cases leaves : s.switches e with
  | none => exact ((step_stayed taken leaves).flags i).imp id .inr
  | some ctx => exact ((step_switched taken leaves).flags i).imp id .inl

end Threads

end GpioCtrlBoard
