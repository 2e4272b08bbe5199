import GpioCtrlBoard.Threads

/-! # Mutexes of the thread library

`try_lock` and `unlock` stop the threads while they read and write the mutex.
`lock` tries again and again; the first thread which waits has itself suspended
until `unlock`, the others yield. Every statement is a step of its own here, and
the timer can interrupt between any two.
-/

namespace GpioCtrlBoard

open LabelledRun

/-- The timeout of a call of `lock`, with the time at which it began to wait. -/
structure Patience where
  timeoutMs : UInt32
  start : UInt32
  deriving DecidableEq

/-- Who has called `try_lock`: a thread itself, or `lock` before and in its loop. -/
inductive Caller where
  | self
  | first (timeoutMs : UInt32)
  | again (patience : Patience)
  deriving DecidableEq

/-- The next statement of a thread in the functions of the mutex; `p` is what
    `stop` has returned. -/
inductive MutexPc where
  | outside
  | holding
  | tryStop (caller : Caller)
  | tryTest (caller : Caller) (p : Activity)
  | trySet (caller : Caller) (p : Activity)
  | tryStart (caller : Caller) (p : Activity) (result : Bool)
  | lockTime (patience : Patience)
  | lockWait (patience : Patience)
  | waitStop (patience : Patience)
  | waitSet (patience : Patience) (p : Activity)
  | waitSuspend (patience : Patience) (p : Activity)
  | waitStart (patience : Patience) (p : Activity)
  | lockYield (patience : Patience)
  | unlockStop
  | unlockTest (p : Activity)
  | unlockClear (p : Activity)
  | unlockWake (p : Activity)
  | unlockForget
  | unlockYield
  | unlockStart (p : Activity)
  deriving DecidableEq

/-- A mutex with the threads which use it. `waitthread` is `none` for -1. -/
structure Mutex where
  threads : Threads
  state : Bool
  waitthread : Option ThreadId
  pc : ThreadId → MutexPc

/-- The calls of the running thread. Only a thread which holds the mutex calls
    `unlock`, and none calls `lock` while it holds it: the mutex checks neither. -/
inductive MutexEvent where
  | tick (nested : Bool) (ctx : Context)
  | go (now : UInt32) (ctx : Context)
  | lock (timeoutMs : UInt32)
  | tryLock
  | unlock
  | call (e : ThreadEvent)

namespace Mutex

def init (threads : Threads) : Mutex := ⟨threads, false, none, fun _ => .outside⟩

def me (s : Mutex) : ThreadId := s.threads.currentThread

def setPc (i : ThreadId) (pc : MutexPc) (s : Mutex) : Mutex := { s with pc := Function.update s.pc i pc }

@[simp] theorem pc_setPc_self (s : Mutex) (i : ThreadId) (pc : MutexPc) : (s.setPc i pc).pc i = pc := by
  simp only [setPc, Function.update_self]

theorem pc_setPc_other (s : Mutex) {i j : ThreadId} (pc : MutexPc) (other : i ≠ j) :
    (s.setPc j pc).pc i = s.pc i := by
  simp only [setPc, Function.update_of_ne other]

/-- Where `try_lock` returns to. -/
def returned (now : UInt32) : Caller → Bool → MutexPc
  | .self, false => .outside
  | .first timeoutMs, false => .tryStop (.again ⟨timeoutMs, now⟩)
  | .again patience, false => .lockTime patience
  | _, true => .holding

/-- The next statement of the running thread; `none` when it is the thread's own
    code, or when an index is out of range. -/
def go (now : UInt32) (ctx : Context) (s : Mutex) : Option Mutex :=
  match s.pc s.me with
  | .outside | .holding => none
  | .tryStop caller =>
    some ({ s with threads := s.threads.stop }.setPc s.me (.tryTest caller s.threads.currentActive))
  | .tryTest caller p => some (s.setPc s.me (if s.state then .tryStart caller p false else .trySet caller p))
  | .trySet caller p => some ({ s with state := true }.setPc s.me (.tryStart caller p true))
  | .tryStart caller p result =>
    some ({ s with threads := s.threads.start (some p) }.setPc s.me (returned now caller result))
  | .lockTime patience =>
    some (s.setPc s.me (if patience.timeoutMs ≠ 0 ∧ patience.timeoutMs < now - patience.start
      then .outside else .lockWait patience))
  | .lockWait patience =>
    some (s.setPc s.me (if s.waitthread = none then .waitStop patience else .lockYield patience))
  | .waitStop patience =>
    some ({ s with threads := s.threads.stop }.setPc s.me (.waitSet patience s.threads.currentActive))
  | .waitSet patience p => some ({ s with waitthread := some s.me }.setPc s.me (.waitSuspend patience p))
  | .waitSuspend patience p => do
    let threads ← s.threads.suspend (← s.waitthread)
    return { s with threads := threads }.setPc s.me (.waitStart patience p)
  | .waitStart patience p =>
    some ({ s with threads := s.threads.start (some p) }.setPc s.me (.lockYield patience))
  | .lockYield patience => do
    let threads ← s.threads.step (.yield ctx)
    return { s with threads := threads }.setPc s.me (.tryStop (.again patience))
  | .unlockStop =>
    some ({ s with threads := s.threads.stop }.setPc s.me (.unlockTest s.threads.currentActive))
  | .unlockTest p => some (s.setPc s.me (if s.state then .unlockClear p else .unlockStart p))
  | .unlockClear p => some ({ s with state := false }.setPc s.me (.unlockWake p))
  | .unlockWake p =>
    match s.waitthread with
    | none => some (s.setPc s.me (.unlockStart p))
    | some waiter => do
      let threads ← s.threads.restart waiter
      return { s with threads := threads }.setPc s.me .unlockForget
  | .unlockForget => some ({ s with waitthread := none }.setPc s.me .unlockYield)
  | .unlockYield => do
    let threads ← s.threads.step (.yieldAndStart ctx)
    return { s with threads := threads }.setPc s.me .outside
  | .unlockStart p =>
    some ({ s with threads := s.threads.start (some p) }.setPc s.me .outside)

/-- A call of the running thread from its own code. -/
def enter (at_ pc : MutexPc) (s : Mutex) : Option Mutex := if s.pc s.me = at_ then some (s.setPc s.me pc) else none

/-- A thread in a slot that is used again starts in its own code. -/
def call (e : ThreadEvent) (s : Mutex) : Option Mutex :=
  if s.pc s.me = .outside ∨ s.pc s.me = .holding then do
    let threads ← s.threads.step e
    match s.threads.gives e with
    | some i => return { s with threads := threads }.setPc i .outside
    | none => return { s with threads := threads }
  else none

def step (s : Mutex) : MutexEvent → Option Mutex
  | .tick nested ctx => do
    let threads ← s.threads.step (.tick nested ctx)
    return { s with threads := threads }
  | .go now ctx => s.go now ctx
  | .lock timeoutMs => s.enter .outside (.tryStop (.first timeoutMs))
  | .tryLock => s.enter .outside (.tryStop .self)
  | .unlock => s.enter .holding .unlockStop
  | .call e => s.call e

end Mutex

/-! ## Mutual exclusion -/

/-- The thread has stopped the others. -/
def MutexPc.stopped : MutexPc → Bool
  | .tryTest _ _ | .trySet _ _ | .tryStart _ _ _ | .waitSet _ _ | .waitSuspend _ _ | .waitStart _ _
  | .unlockTest _ | .unlockClear _ | .unlockWake _ | .unlockForget | .unlockYield | .unlockStart _ => true
  | _ => false

/-- From the write of the state in `try_lock` to the one in `unlock`. -/
def MutexPc.owns : MutexPc → Bool
  | .tryStart _ _ true | .holding | .unlockStop | .unlockTest _ | .unlockClear _ => true
  | _ => false

namespace Mutex

structure Exclusive (s : Mutex) : Prop where
  alone : ∀ i, (s.pc i).stopped = true → i = s.me ∧ s.threads.currentActive = .stopped
  locked : ∀ i, (s.pc i).owns = true → s.state = true
  one : ∀ i j, (s.pc i).owns = true → (s.pc j).owns = true → i = j
  free : ∀ i caller p, s.pc i = .trySet caller p → s.state = false

/-- What the running thread may do with the state: keep it, take the mutex when
    it is free, or give it back. -/
def Handles (s t : Mutex) (pc : MutexPc) : Prop :=
  (t.state = s.state ∧ (pc.owns = true → (s.pc s.me).owns = true)) ∨
    (s.state = false ∧ t.state = true) ∨
    ((s.pc s.me).owns = true ∧ pc.owns = false)

theorem Exclusive.move {s t : Mutex} {pc : MutexPc} (inv : Exclusive s)
    (moved : t.pc = Function.update s.pc s.me pc)
    (stays : pc.stopped = true → t.me = s.me ∧ t.threads.currentActive = .stopped)
    (handles : Handles s t pc) (free : ∀ caller p, pc = .trySet caller p → t.state = false) :
    Exclusive t := by
  have mine : t.pc s.me = pc := by rw [moved, Function.update_self]
  have others : ∀ i, i ≠ s.me → t.pc i = s.pc i := fun i other => by
    rw [moved, Function.update_of_ne other]
  have sole : pc.owns = true → ∀ j, (s.pc j).owns = true → j = s.me := fun owns j ownsJ => by
    rcases handles with ⟨-, before⟩ | ⟨unlocked, -⟩ | ⟨-, none⟩
    · exact inv.one j s.me ownsJ (before owns)
    · exact absurd ((inv.locked j ownsJ).symm.trans unlocked) (by decide)
    · exact absurd (none.symm.trans owns) (by decide)
  refine ⟨fun i stopped => ?_, fun i owns => ?_, fun i j ownsI ownsJ => ?_, fun i caller p sets => ?_⟩
  · by_cases same : i = s.me
    · subst same
      rw [mine] at stopped
      obtain ⟨current, active⟩ := stays stopped
      exact ⟨current.symm, active⟩
    · rw [others i same] at stopped
      exact absurd (inv.alone i stopped).1 same
  · by_cases same : i = s.me
    · subst same
      rw [mine] at owns
      rcases handles with ⟨kept, before⟩ | ⟨-, taken⟩ | ⟨-, none⟩
      · rw [kept]
        exact inv.locked s.me (before owns)
      · exact taken
      · rw [none] at owns
        exact absurd owns Bool.false_ne_true
    · rw [others i same] at owns
      rcases handles with ⟨kept, -⟩ | ⟨-, taken⟩ | ⟨before, -⟩
      · rw [kept]
        exact inv.locked i owns
      · exact taken
      · exact absurd (inv.one i s.me owns before) same
  · by_cases sameI : i = s.me <;> by_cases sameJ : j = s.me
    · rw [sameI, sameJ]
    · rw [sameI, mine] at ownsI
      rw [others j sameJ] at ownsJ
      exact absurd (sole ownsI j ownsJ) sameJ
    · rw [sameJ, mine] at ownsJ
      rw [others i sameI] at ownsI
      exact absurd (sole ownsJ i ownsI) sameI
    · rw [others i sameI] at ownsI
      rw [others j sameJ] at ownsJ
      exact inv.one i j ownsI ownsJ
  · by_cases same : i = s.me
    · subst same
      exact free caller p (mine.symm.trans sets)
    · rw [others i same] at sets
      have stopped : (s.pc i).stopped = true := by rw [sets]; rfl
      exact absurd (inv.alone i stopped).1 same

/-- A statement which leaves the state of the mutex alone and does not go on to
    write it. -/
theorem Exclusive.pass {s t : Mutex} {pc : MutexPc} (inv : Exclusive s)
    (moved : t.pc = Function.update s.pc s.me pc) (kept : t.state = s.state)
    (stays : pc.stopped = true → t.me = s.me ∧ t.threads.currentActive = .stopped)
    (owns : pc.owns = true → (s.pc s.me).owns = true) (elsewhere : ∀ caller p, pc ≠ .trySet caller p) :
    Exclusive t :=
  inv.move moved stays (.inl ⟨kept, owns⟩) fun caller p same => absurd same (elsewhere caller p)

theorem returned_owns (now : UInt32) (caller : Caller) (result : Bool) :
    (returned now caller result).owns = result ∧ (returned now caller result).stopped = false ∧
      ∀ caller' p, returned now caller result ≠ .trySet caller' p := by
  cases result with
  | true => cases caller <;> exact ⟨rfl, rfl, fun _ _ => nofun⟩
  | false => cases caller <;> exact ⟨rfl, rfl, fun _ _ => nofun⟩

theorem Exclusive.go {s t : Mutex} {now : UInt32} {ctx : Context} (inv : Exclusive s)
    (taken : s.go now ctx = some t) : Exclusive t := by
  have active : (s.pc s.me).stopped = true → s.threads.currentActive = .stopped :=
    fun stopped => (inv.alone s.me stopped).2
  rw [Mutex.go] at taken
  cases here : s.pc s.me with
  | outside | holding => simp [here] at taken
  | tryStop caller | waitStop patience | unlockStop =>
      simp only [here, Option.some.injEq] at taken
      subst taken
      exact inv.pass rfl rfl (fun _ => ⟨rfl, rfl⟩) (by simp [here, MutexPc.owns]) (fun _ _ => nofun)
  | tryTest caller p =>
      have halted := active (by rw [here]; rfl)
      simp only [here, Option.some.injEq] at taken
      subst taken
      by_cases locked : s.state = true
      · rw [if_pos locked]
        exact inv.pass rfl rfl (fun _ => ⟨rfl, halted⟩) nofun (fun _ _ => nofun)
      · rw [if_neg locked]
        exact inv.move rfl (fun _ => ⟨rfl, halted⟩) (.inl ⟨rfl, nofun⟩)
          fun _ _ _ => Bool.eq_false_iff.mpr locked
  | trySet caller p =>
      have halted := active (by rw [here]; rfl)
      simp only [here, Option.some.injEq] at taken
      subst taken
      exact inv.move rfl (fun _ => ⟨rfl, halted⟩) (.inr (.inl ⟨inv.free s.me caller p here, rfl⟩))
        fun _ _ => nofun
  | tryStart caller p result =>
      simp only [here, Option.some.injEq] at taken
      subst taken
      obtain ⟨owns, running, elsewhere⟩ := returned_owns now caller result
      refine inv.pass rfl rfl (fun stopped => absurd (running.symm.trans stopped) (by decide))
        (fun holds => ?_) elsewhere
      rw [owns] at holds
      rw [here, holds]
      rfl
  | lockTime patience =>
      simp only [here, Option.some.injEq] at taken
      subst taken
      split
      · exact inv.pass rfl rfl nofun nofun (fun _ _ => nofun)
      · exact inv.pass rfl rfl nofun nofun (fun _ _ => nofun)
  | lockWait patience =>
      simp only [here, Option.some.injEq] at taken
      subst taken
      split
      · exact inv.pass rfl rfl nofun nofun (fun _ _ => nofun)
      · exact inv.pass rfl rfl nofun nofun (fun _ _ => nofun)
  | waitSet patience p | unlockForget =>
      have halted := active (by rw [here]; rfl)
      simp only [here, Option.some.injEq] at taken
      subst taken
      exact inv.pass rfl rfl (fun _ => ⟨rfl, halted⟩) nofun (fun _ _ => nofun)
  | waitSuspend patience p =>
      have halted := active (by rw [here]; rfl)
      simp only [here, Option.bind_eq_bind, Option.bind_eq_some_iff, Option.pure_def,
        Option.some.injEq] at taken
      obtain ⟨waiter, -, threads, suspended, rfl⟩ := taken
      obtain ⟨current, activity⟩ := Threads.setState_fields suspended
      exact inv.pass rfl rfl (fun _ => ⟨current, activity.trans halted⟩) nofun (fun _ _ => nofun)
  | waitStart patience p | unlockStart p =>
      simp only [here, Option.some.injEq] at taken
      subst taken
      exact inv.pass rfl rfl nofun nofun (fun _ _ => nofun)
  | lockYield patience | unlockYield =>
      simp only [here, Option.bind_eq_bind, Option.bind_eq_some_iff, Option.pure_def,
        Option.some.injEq] at taken
      obtain ⟨threads, -, rfl⟩ := taken
      exact inv.pass rfl rfl nofun nofun (fun _ _ => nofun)
  | unlockTest p =>
      have halted := active (by rw [here]; rfl)
      simp only [here, Option.some.injEq] at taken
      subst taken
      split
      · exact inv.pass rfl rfl (fun _ => ⟨rfl, halted⟩) (fun _ => by rw [here]; rfl) (fun _ _ => nofun)
      · exact inv.pass rfl rfl (fun _ => ⟨rfl, halted⟩) nofun (fun _ _ => nofun)
  | unlockClear p =>
      have halted := active (by rw [here]; rfl)
      simp only [here, Option.some.injEq] at taken
      subst taken
      exact inv.move rfl (fun _ => ⟨rfl, halted⟩) (.inr (.inr ⟨by rw [here]; rfl, rfl⟩)) fun _ _ => nofun
  | unlockWake p =>
      have halted := active (by rw [here]; rfl)
      simp only [here] at taken
      cases waits : s.waitthread with
      | none =>
          simp only [waits, Option.some.injEq] at taken
          subst taken
          exact inv.pass rfl rfl (fun _ => ⟨rfl, halted⟩) nofun (fun _ _ => nofun)
      | some waiter =>
          simp only [waits, Option.bind_eq_bind, Option.bind_eq_some_iff, Option.pure_def,
            Option.some.injEq] at taken
          obtain ⟨threads, restarted, rfl⟩ := taken
          obtain ⟨current, activity⟩ := Threads.setState_fields restarted
          exact inv.pass rfl rfl (fun _ => ⟨current, activity.trans halted⟩) nofun (fun _ _ => nofun)

/-- A new thread stands outside. -/
theorem Exclusive.reset {s : Mutex} (inv : Exclusive s) (id : ThreadId) :
    Exclusive (s.setPc id .outside) := by
  have split : ∀ i, (s.setPc id .outside).pc i = .outside ∨ (s.setPc id .outside).pc i = s.pc i := fun i => by
    by_cases same : i = id
    · rw [same]
      exact .inl (pc_setPc_self s id .outside)
    · exact .inr (pc_setPc_other s .outside same)
  have owned : ∀ i, ((s.setPc id .outside).pc i).owns = true → (s.pc i).owns = true := fun i owns => by
    rcases split i with out | same
    · rw [out] at owns
      exact absurd owns (by decide)
    · rw [← same, owns]
  refine ⟨fun i stopped => ?_, fun i owns => inv.locked i (owned i owns),
    fun i j ownsI ownsJ => inv.one i j (owned i ownsI) (owned j ownsJ), fun i caller p sets => ?_⟩
  · rcases split i with out | same
    · rw [out] at stopped
      exact absurd stopped (by decide)
    · rw [same] at stopped
      exact inv.alone i stopped
  · rcases split i with out | same
    · exact nomatch out.symm.trans sets
    · exact inv.free i caller p (same.symm.trans sets)

/-- Threads which no thread has stopped are free to be switched, a stopped system
    is not switched at all. -/
theorem Exclusive.tick {s : Mutex} {nested : Bool} {ctx : Context} {threads : Threads}
    (inv : Exclusive s) (taken : s.threads.step (.tick nested ctx) = some threads) :
    Exclusive { s with threads := threads } := by
  refine ⟨fun i stopped => ?_, inv.locked, inv.one, inv.free⟩
  obtain ⟨mine, halted⟩ := inv.alone i stopped
  have keeps : s.threads.switches (.tick nested ctx) = none :=
    Threads.switches_stopped (by rw [halted]; decide) rfl
  obtain ⟨current, -, -⟩ := Threads.plain_stayed rfl taken keeps
  exact ⟨mine.trans current.symm, (Threads.plain_active rfl taken).trans halted⟩

theorem Exclusive.call {s t : Mutex} {e : ThreadEvent} (inv : Exclusive s) (taken : s.call e = some t) :
    Exclusive t := by
  rw [Mutex.call] at taken
  split at taken
  · rename_i own
    have none : ∀ i, (s.pc i).stopped = false := fun i => by
      by_contra stopped
      obtain ⟨mine, -⟩ := inv.alone i (by simpa using stopped)
      rw [mine] at stopped
      rcases own with outside | holding
      · exact stopped (by rw [outside]; rfl)
      · exact stopped (by rw [holding]; rfl)
    simp only [Option.bind_eq_bind, Option.bind_eq_some_iff] at taken
    obtain ⟨threads, -, taken⟩ := taken
    have kept : Exclusive { s with threads := threads } :=
      ⟨fun i stopped => absurd ((none i).symm.trans stopped) (by decide), inv.locked, inv.one, inv.free⟩
    cases given : s.threads.gives e with
    | none =>
        simp only [given, Option.pure_def, Option.some.injEq] at taken
        subst taken
        exact kept
    | some id =>
        simp only [given, Option.pure_def, Option.some.injEq] at taken
        subst taken
        exact kept.reset id
  · exact nomatch taken

theorem Exclusive.enter {s t : Mutex} {own pc : MutexPc} (inv : Exclusive s)
    (taken : s.enter own pc = some t) (running : pc.stopped = false)
    (owns : pc.owns = true → own.owns = true) : Exclusive t := by
  rw [Mutex.enter] at taken
  split at taken
  · rename_i here
    obtain rfl := Option.some.inj taken
    refine inv.pass rfl rfl (fun stopped => absurd (running.symm.trans stopped) (by decide)) ?_ ?_
    · rw [here]
      exact owns
    · rintro caller p rfl
      exact nomatch running
  · exact nomatch taken

theorem Exclusive.step {s t : Mutex} {e : MutexEvent} (inv : Exclusive s) (taken : s.step e = some t) :
    Exclusive t := by
  cases e with
  | tick nested ctx =>
      simp only [Mutex.step, Option.bind_eq_bind, Option.pure_def, Option.bind_eq_some_iff,
        Option.some.injEq] at taken
      obtain ⟨threads, ticked, rfl⟩ := taken
      exact inv.tick ticked
  | go now ctx => exact inv.go taken
  | lock timeoutMs => exact inv.enter taken rfl nofun
  | tryLock => exact inv.enter taken rfl nofun
  | unlock => exact inv.enter taken rfl fun _ => rfl
  | call e => exact inv.call taken

theorem exclusive_init (threads : Threads) : Exclusive (init threads) :=
  ⟨nofun, nofun, nofun, nofun⟩

/-- However the timer cuts into the statements of the mutex, no two threads hold
    it at a time, and while one does the mutex is locked. -/
theorem mutual_exclusion {threads : Threads} {es : List MutexEvent} {s : Mutex}
    (reached : run Mutex.step (init threads) es = some s) :
    (∀ i j, s.pc i = .holding → s.pc j = .holding → i = j) ∧
      ∀ i, s.pc i = .holding → s.state = true := by
  have inv : Exclusive s := run_induction (motive := fun _ s => Exclusive s) (exclusive_init threads)
    (fun _ _ _ _ _ inv taken => inv.step taken) reached
  have owns : ∀ i, s.pc i = .holding → (s.pc i).owns = true := fun i holds => by rw [holds]; rfl
  exact ⟨fun i j holdsI holdsJ => inv.one i j (owns i holdsI) (owns j holdsJ),
    fun i holds => inv.locked i (owns i holds)⟩

/-- The running thread goes on with the next statements of the mutex. -/
def statements (n : Nat) : List MutexEvent := List.replicate n (.go 0 ⟨.zero, 6000⟩)

/-- `loop` takes the mutex and is switched away by the timer; `ctrlEthernetThread`
    tries in vain, and again after `loop` has given the mutex back. -/
def handedOver : List MutexEvent :=
  List.flatten [.tryLock :: statements 4, List.replicate 11 (.tick false ⟨.zero, 6000⟩),
    .tryLock :: statements 3, List.replicate 2 (.call (.yield ⟨.zero, 6000⟩)),
    .unlock :: statements 5, [.call (.yield ⟨.zero, 6000⟩)], .tryLock :: statements 4]

theorem mutual_exclusion_handedOver :
    (∃ s, run Mutex.step (init (.boot 1000 ⟨.zero, 0⟩ 2000 4000)) (handedOver.take 20) = some s ∧
      s.me = 1 ∧ s.pc 1 = .outside ∧ ∀ i, s.pc i = .holding → i = 0) ∧
    ∃ s, run Mutex.step (init (.boot 1000 ⟨.zero, 0⟩ 2000 4000)) handedOver = some s ∧
      s.pc 1 = .holding ∧ s.state = true ∧ ∀ i, s.pc i = .holding → i = 1 := by
  constructor
  · have refused : (run Mutex.step (init (.boot 1000 ⟨.zero, 0⟩ 2000 4000)) (handedOver.take 20)).any
        (fun s => s.me = 1 ∧ s.pc 1 = .outside ∧ s.pc 0 = .holding) = true := by decide +kernel
    obtain ⟨s, reached, facts⟩ := (Option.any_eq_true _ _).mp refused
    obtain ⟨here, out, owner⟩ := of_decide_eq_true facts
    exact ⟨s, reached, here, out, fun i other => (mutual_exclusion reached).1 i 0 other owner⟩
  · have taken : (run Mutex.step (init (.boot 1000 ⟨.zero, 0⟩ 2000 4000)) handedOver).any
        (fun s => s.pc 1 = .holding) = true := by decide +kernel
    obtain ⟨s, reached, held⟩ := (Option.any_eq_true _ _).mp taken
    have mine := of_decide_eq_true held
    obtain ⟨one, locked⟩ := mutual_exclusion reached
    exact ⟨s, reached, mine, locked 1 mine, fun i other => one i 1 other mine⟩

end Mutex

/-! ## Wake-ups -/

/-- From the test which has failed in the loop of `lock` to the suspension. -/
def MutexPc.registers : MutexPc → Bool
  | .tryStart (.again _) _ false | .lockTime _ | .lockWait _ | .waitStop _ | .waitSet _ _
  | .waitSuspend _ _ => true
  | _ => false

/-- Between the release of the mutex and the restart of its waiter. -/
def MutexPc.releases : MutexPc → Bool
  | .unlockWake _ => true
  | _ => false

namespace Mutex

def suspended (s : Mutex) (i : ThreadId) : Prop := s.threads.flags i = some .suspended

/-- What the running thread knows at its next statement. -/
def Knows (s : Mutex) : MutexPc → Prop
  | .tryStart (.again _) _ false | .lockTime _ | .lockWait _ => s.state = true
  | .waitStop _ | .waitSet _ _ => s.state = true ∧ s.waitthread = none
  | .waitSuspend _ _ => s.state = true ∧ s.waitthread = some s.me
  | .unlockForget => ∀ i, ¬ s.suspended i
  | _ => True

/-- A thread which sleeps is the one that waits, and the mutex is held or about
    to be handed over. -/
structure Awake (s : Mutex) : Prop where
  exclusive : Exclusive s
  here : ∀ i, (s.pc i).registers = true → i = s.me
  knows : Knows s (s.pc s.me)
  asleep : ∀ i, s.suspended i → s.waitthread = some i ∧
    (s.state = true ∨ (s.pc s.me).releases = true)
  owner : s.state = true → ∃ i, (s.pc i).owns = true

theorem knows_of_idle (s : Mutex) {pc : MutexPc} (registers : pc.registers = false)
    (stopped : pc.stopped = false) : Knows s pc := by
  cases pc with
  | tryStart caller p result => exact nomatch stopped
  | lockTime | lockWait | waitStop | waitSet | waitSuspend => exact nomatch registers
  | unlockForget => exact nomatch stopped
  | _ => trivial

theorem Awake.move {s t : Mutex} {pc : MutexPc} (inv : Awake s) (exclusive : Exclusive t)
    (moved : t.pc = Function.update s.pc s.me pc)
    (stays : pc.registers = true ∨ pc.stopped = true → t.me = s.me) (knows : t.me = s.me → Knows t pc)
    (asleep : ∀ i, t.suspended i → t.waitthread = some i ∧
      (t.state = true ∨ t.me = s.me ∧ pc.releases = true))
    (owner : t.state = true → pc.owns = true ∨ s.state = true ∧ (s.pc s.me).owns = false) : Awake t := by
  have mine : t.pc s.me = pc := by rw [moved, Function.update_self]
  have others : ∀ i, i ≠ s.me → t.pc i = s.pc i := fun i other => by
    rw [moved, Function.update_of_ne other]
  refine ⟨exclusive, fun i registers => ?_, ?_, fun i sleeps => ?_, fun locked => ?_⟩
  · by_cases same : i = s.me
    · subst same
      rw [mine] at registers
      exact (stays (.inl registers)).symm
    · rw [others i same] at registers
      exact absurd (inv.here i registers) same
  · by_cases same : t.me = s.me
    · rw [same, mine]
      exact knows same
    · rw [others t.me same]
      exact knows_of_idle t (Bool.eq_false_iff.mpr fun registers => same (inv.here t.me registers))
        (Bool.eq_false_iff.mpr fun stopped => same (inv.exclusive.alone t.me stopped).1)
  · obtain ⟨waits, sure | ⟨same, releases⟩⟩ := asleep i sleeps
    · exact ⟨waits, .inl sure⟩
    · exact ⟨waits, .inr (by rw [same, mine]; exact releases)⟩
  · rcases owner locked with owns | ⟨before, notMine⟩
    · exact ⟨s.me, by rw [mine]; exact owns⟩
    · obtain ⟨i, owns⟩ := inv.owner before
      have other : i ≠ s.me := by
        rintro rfl
        exact absurd (notMine.symm.trans owns) (by decide)
      exact ⟨i, by rw [others i other]; exact owns⟩

/-- A statement which leaves the mutex alone and suspends nobody. -/
theorem Awake.pass {s t : Mutex} {pc : MutexPc} (inv : Awake s) (exclusive : Exclusive t)
    (moved : t.pc = Function.update s.pc s.me pc)
    (stays : pc.registers = true ∨ pc.stopped = true → t.me = s.me) (knows : t.me = s.me → Knows t pc)
    (sleeps : ∀ i, t.suspended i → s.suspended i) (waits : t.waitthread = s.waitthread)
    (state : t.state = s.state) (before : (s.pc s.me).releases = false)
    (owns : (s.pc s.me).owns = true → s.state = true → pc.owns = true) : Awake t := by
  refine inv.move exclusive moved stays knows (fun i asleep => ?_) fun locked => ?_
  · obtain ⟨waiting, sure | releases⟩ := inv.asleep i (sleeps i asleep)
    · exact ⟨waits.trans waiting, .inl (state.trans sure)⟩
    · exact absurd (before.symm.trans releases) (by decide)
  · rw [state] at locked
    by_cases mine : (s.pc s.me).owns = true
    · exact .inl (owns mine locked)
    · exact .inr ⟨locked, Bool.eq_false_iff.mpr mine⟩

theorem suspended_of_step {s : Mutex} {threads : Threads} {e : ThreadEvent}
    (taken : s.threads.step e = some threads) (other : ∀ i, s.threads.sets e ≠ some (i, .suspended))
    (i : ThreadId) (sleeps : threads.flags i = some .suspended) : s.suspended i := by
  rcases Threads.step_flags taken i with same | ended | ⟨state, written, now⟩
  · exact same.symm.trans sleeps
  · exact nomatch ended.symm.trans sleeps
  · obtain rfl : state = .suspended := Option.some.inj (now.symm.trans sleeps)
    exact absurd written (other i)

theorem Awake.go {s t : Mutex} {now : UInt32} {ctx : Context} (inv : Awake s)
    (taken : s.go now ctx = some t) : Awake t := by
  have exclusive := inv.exclusive.go taken
  have knows := inv.knows
  rw [Mutex.go] at taken
  cases here : s.pc s.me with
  | outside | holding => simp [here] at taken
  | tryStop caller =>
      simp only [here, Option.some.injEq] at taken
      subst taken
      exact inv.pass exclusive rfl (fun _ => rfl) (fun _ => trivial) (fun _ sleeps => sleeps) rfl rfl
        (by rw [here]; rfl) (by rw [here]; exact nofun)
  | unlockStop =>
      simp only [here, Option.some.injEq] at taken
      subst taken
      exact inv.pass exclusive rfl (fun _ => rfl) (fun _ => trivial) (fun _ sleeps => sleeps) rfl rfl
        (by rw [here]; rfl) (fun _ _ => rfl)
  | waitStop patience =>
      rw [here] at knows
      simp only [here, Option.some.injEq] at taken
      subst taken
      exact inv.pass exclusive rfl (fun _ => rfl) (fun _ => knows) (fun _ sleeps => sleeps) rfl rfl
        (by rw [here]; rfl) (by rw [here]; exact nofun)
  | tryTest caller p =>
      simp only [here, Option.some.injEq] at taken
      subst taken
      by_cases locked : s.state = true
      · simp only [if_pos locked] at exclusive ⊢
        refine inv.pass exclusive rfl (fun _ => rfl) (fun _ => ?_) (fun _ sleeps => sleeps) rfl rfl
          (by rw [here]; rfl) (by rw [here]; exact nofun)
        cases caller with
        | again patience => exact locked
        | self | first _ => trivial
      · simp only [if_neg locked] at exclusive ⊢
        exact inv.pass exclusive rfl (fun _ => rfl) (fun _ => trivial) (fun _ sleeps => sleeps) rfl rfl
          (by rw [here]; rfl) (by rw [here]; exact nofun)
  | trySet caller p =>
      simp only [here, Option.some.injEq] at taken
      subst taken
      refine inv.move exclusive rfl (fun _ => rfl) (fun _ => ?_) (fun i sleeps => ?_) (fun _ => .inl rfl)
      · cases caller <;> trivial
      · exact ⟨(inv.asleep i sleeps).1, .inl rfl⟩
  | tryStart caller p result =>
      rw [here] at knows
      simp only [here, Option.some.injEq] at taken
      subst taken
      obtain ⟨owns, -, -⟩ := returned_owns now caller result
      refine inv.pass exclusive rfl (fun _ => rfl) (fun _ => ?_) (fun _ sleeps => sleeps) rfl rfl
        (by rw [here]; rfl) (fun holds _ => ?_)
      · cases result with
        | true => cases caller <;> trivial
        | false =>
            cases caller with
            | again patience => exact knows
            | self | first _ => trivial
      · rw [owns]
        rw [here] at holds
        cases result with
        | true => rfl
        | false => exact nomatch holds
  | lockTime patience =>
      rw [here] at knows
      simp only [here, Option.some.injEq] at taken
      subst taken
      split at exclusive <;> rename_i late
      · simp only [if_pos late]
        exact inv.pass exclusive rfl (fun _ => rfl) (fun _ => trivial) (fun _ sleeps => sleeps) rfl rfl
          (by rw [here]; rfl) (by rw [here]; exact nofun)
      · simp only [if_neg late]
        exact inv.pass exclusive rfl (fun _ => rfl) (fun _ => knows) (fun _ sleeps => sleeps) rfl rfl
          (by rw [here]; rfl) (by rw [here]; exact nofun)
  | lockWait patience =>
      rw [here] at knows
      simp only [here, Option.some.injEq] at taken
      subst taken
      by_cases first : s.waitthread = none
      · simp only [if_pos first] at exclusive ⊢
        exact inv.pass exclusive rfl (fun _ => rfl) (fun _ => ⟨knows, first⟩) (fun _ sleeps => sleeps)
          rfl rfl (by rw [here]; rfl) (by rw [here]; exact nofun)
      · simp only [if_neg first] at exclusive ⊢
        exact inv.pass exclusive rfl (fun _ => rfl) (fun _ => trivial) (fun _ sleeps => sleeps) rfl rfl
          (by rw [here]; rfl) (by rw [here]; exact nofun)
  | waitSet patience p =>
      rw [here] at knows
      obtain ⟨locked, first⟩ := knows
      simp only [here, Option.some.injEq] at taken
      subst taken
      refine inv.move exclusive rfl (fun _ => rfl) (fun _ => ⟨locked, rfl⟩) (fun i sleeps => ?_)
        (fun _ => .inr ⟨locked, by rw [here]; rfl⟩)
      -- Nobody sleeps yet: a sleeper would be registered.
      exact nomatch first.symm.trans (inv.asleep i sleeps).1
  | waitSuspend patience p =>
      rw [here] at knows
      obtain ⟨locked, registered⟩ := knows
      simp only [here, Option.bind_eq_bind, Option.bind_eq_some_iff, Option.pure_def,
        Option.some.injEq] at taken
      obtain ⟨waiter, waits, threads, suspends, rfl⟩ := taken
      obtain rfl : s.me = waiter := Option.some.inj (registered.symm.trans waits)
      refine inv.move exclusive rfl (fun stops => ?_) (fun _ => trivial) (fun i sleeps => ?_)
        (fun _ => .inr ⟨locked, by rw [here]; rfl⟩)
      · exact (Threads.setState_fields suspends).1
      · refine ⟨?_, .inl locked⟩
        have slept : threads.flags i = some .suspended := sleeps
        rw [Threads.setState_flags suspends i] at slept
        by_cases same : i = s.me
        · rw [same]
          exact registered
        · rw [if_neg same] at slept
          exact (inv.asleep i slept).1
  | waitStart patience p =>
      simp only [here, Option.some.injEq] at taken
      subst taken
      exact inv.pass exclusive rfl (fun _ => rfl) (fun _ => trivial) (fun _ sleeps => sleeps) rfl rfl
        (by rw [here]; rfl) (by rw [here]; exact nofun)
  | lockYield patience =>
      simp only [here, Option.bind_eq_bind, Option.bind_eq_some_iff, Option.pure_def,
        Option.some.injEq] at taken
      obtain ⟨threads, yields, rfl⟩ := taken
      exact inv.pass exclusive rfl (by rintro (registers | stopped) <;> contradiction) (fun _ => trivial)
        (suspended_of_step yields fun _ => nofun) rfl rfl (by rw [here]; rfl) (by rw [here]; exact nofun)
  | unlockTest p =>
      simp only [here, Option.some.injEq] at taken
      subst taken
      by_cases locked : s.state = true
      · simp only [if_pos locked] at exclusive ⊢
        exact inv.pass exclusive rfl (fun _ => rfl) (fun _ => trivial) (fun _ sleeps => sleeps) rfl rfl
          (by rw [here]; rfl) (fun _ _ => rfl)
      · simp only [if_neg locked] at exclusive ⊢
        exact inv.pass exclusive rfl (fun _ => rfl) (fun _ => trivial) (fun _ sleeps => sleeps) rfl rfl
          (by rw [here]; rfl) (fun _ isLocked => absurd isLocked locked)
  | unlockClear p =>
      simp only [here, Option.some.injEq] at taken
      subst taken
      exact inv.move exclusive rfl (fun _ => rfl) (fun _ => trivial)
        (fun i sleeps => ⟨(inv.asleep i sleeps).1, .inr ⟨rfl, rfl⟩⟩) nofun
  | unlockWake p =>
      simp only [here] at taken
      cases waits : s.waitthread with
      | none =>
          simp only [waits, Option.some.injEq] at taken
          subst taken
          refine inv.move exclusive rfl (fun _ => rfl) (fun _ => trivial) (fun i sleeps => ?_) ?_
          · exact nomatch waits.symm.trans (inv.asleep i sleeps).1
          · exact fun locked => .inr ⟨locked, by rw [here]; rfl⟩
      | some waiter =>
          simp only [waits, Option.bind_eq_bind, Option.bind_eq_some_iff, Option.pure_def,
            Option.some.injEq] at taken
          obtain ⟨threads, restarts, rfl⟩ := taken
          -- The one thread which may sleep is the one which is restarted.
          have awake : ∀ i, threads.flags i ≠ some .suspended := fun i sleeps => by
            rw [Threads.setState_flags restarts i] at sleeps
            by_cases same : i = waiter
            · rw [if_pos same] at sleeps
              exact nomatch sleeps
            · rw [if_neg same] at sleeps
              exact same (Option.some.inj (waits.symm.trans (inv.asleep i sleeps).1)).symm
          exact inv.move exclusive rfl (fun _ => (Threads.setState_fields restarts).1) (fun _ => awake)
            (fun i sleeps => absurd sleeps (awake i)) (fun locked => .inr ⟨locked, by rw [here]; rfl⟩)
  | unlockForget =>
      rw [here] at knows
      simp only [here, Option.some.injEq] at taken
      subst taken
      exact inv.move exclusive rfl (fun _ => rfl) (fun _ => trivial)
        (fun i sleeps => absurd sleeps (knows i)) (fun locked => .inr ⟨locked, by rw [here]; rfl⟩)
  | unlockYield =>
      simp only [here, Option.bind_eq_bind, Option.bind_eq_some_iff, Option.pure_def,
        Option.some.injEq] at taken
      obtain ⟨threads, yields, rfl⟩ := taken
      exact inv.pass exclusive rfl (by rintro (registers | stopped) <;> contradiction) (fun _ => trivial)
        (suspended_of_step yields fun _ => nofun) rfl rfl (by rw [here]; rfl) (by rw [here]; exact nofun)
  | unlockStart p =>
      simp only [here, Option.some.injEq] at taken
      subst taken
      exact inv.pass exclusive rfl (fun _ => rfl) (fun _ => trivial) (fun _ sleeps => sleeps) rfl rfl
        (by rw [here]; rfl) (by rw [here]; exact nofun)

/-- What can take a sleeping thread its wake-up: the timer between the failed test
    and the suspension, a suspension from elsewhere, or the end of the thread
    which holds the mutex, with a new thread in its slot. The timer counts for a
    second waiter as well, which will find the first one and only yield. -/
def spoils (s : Mutex) : MutexEvent → Bool
  | .tick nested ctx => (s.pc s.me).registers && (s.threads.switches (.tick nested ctx)).isSome
  | .call e =>
    (s.threads.sets e).any (fun written => written.2 = .suspended) ||
      (s.threads.gives e).any fun i => (s.pc i).owns
  | _ => false

theorem Awake.idle {s : Mutex} (inv : Awake s) (registers : (s.pc s.me).registers = false)
    (stopped : (s.pc s.me).stopped = false) (i : ThreadId) :
    (s.pc i).registers = false ∧ (s.pc i).stopped = false := by
  refine ⟨Bool.eq_false_iff.mpr fun busy => ?_, Bool.eq_false_iff.mpr fun busy => ?_⟩
  · rw [inv.here i busy, registers] at busy
    exact Bool.false_ne_true busy
  · rw [(inv.exclusive.alone i busy).1, stopped] at busy
    exact Bool.false_ne_true busy

/-- Another thread may get the processor while the running one is idle. -/
theorem Awake.leave {s : Mutex} {threads : Threads} (inv : Awake s)
    (exclusive : Exclusive { s with threads := threads }) (registers : (s.pc s.me).registers = false)
    (stopped : (s.pc s.me).stopped = false)
    (sleeps : ∀ i, threads.flags i = some .suspended → s.suspended i) :
    Awake { s with threads := threads } := by
  have idle := inv.idle registers stopped
  refine ⟨exclusive, fun i busy => absurd ((idle i).1.symm.trans busy) (by decide),
    knows_of_idle _ (idle _).1 (idle _).2, fun i asleep => ?_, inv.owner⟩
  obtain ⟨waits, sure | releases⟩ := inv.asleep i (sleeps i asleep)
  · exact ⟨waits, .inl sure⟩
  · cases here : s.pc s.me <;> rw [here] at releases stopped <;> contradiction

theorem Awake.tick {s : Mutex} {nested : Bool} {ctx : Context} {threads : Threads} (inv : Awake s)
    (taken : s.threads.step (.tick nested ctx) = some threads)
    (whole : s.spoils (.tick nested ctx) = false) : Awake { s with threads := threads } := by
  have exclusive := inv.exclusive.tick taken
  have sleeps := suspended_of_step taken fun _ => nofun
  cases leaves : s.threads.switches (.tick nested ctx) with
  | some ctx' =>
      rw [spoils, leaves] at whole
      refine inv.leave exclusive (by simpa using whole) (Bool.eq_false_iff.mpr fun stopped => ?_) sleeps
      have halted := (inv.exclusive.alone s.me stopped).2
      have keeps : s.threads.switches (.tick nested ctx) = none :=
        Threads.switches_stopped (by rw [halted]; decide) rfl
      exact nomatch keeps.symm.trans leaves
  | none =>
      obtain ⟨current, -, -⟩ := Threads.plain_stayed rfl taken leaves
      have me : ({ s with threads := threads } : Mutex).me = s.me := current
      refine ⟨exclusive, fun i registers => (inv.here i registers).trans me.symm, ?_, ?_, inv.owner⟩
      · rw [me]
        have knows := inv.knows
        cases here : s.pc s.me with
        | waitSuspend patience p =>
            rw [here] at knows
            exact ⟨knows.1, knows.2.trans (congrArg some me.symm)⟩
        | unlockForget =>
            rw [here] at knows
            exact fun i asleep => knows i (sleeps i asleep)
        | tryStart caller p result =>
            rw [here] at knows
            cases caller <;> cases result <;> exact knows
        | _ =>
            rw [here] at knows
            exact knows
      · intro i asleep
        rw [me]
        exact inv.asleep i (sleeps i asleep)

theorem Awake.reset {s : Mutex} (inv : Awake s) (id : ThreadId) (registers : (s.pc s.me).registers = false)
    (stopped : (s.pc s.me).stopped = false) (owns : (s.pc id).owns = false) :
    Awake (s.setPc id .outside) := by
  have idle := inv.idle registers stopped
  have split : ∀ i, (s.setPc id .outside).pc i = .outside ∨ (s.setPc id .outside).pc i = s.pc i := fun i => by
    by_cases same : i = id
    · rw [same]
      exact .inl (pc_setPc_self s id .outside)
    · exact .inr (pc_setPc_other s .outside same)
  have stillIdle : ∀ i, ((s.setPc id .outside).pc i).registers = false ∧
      ((s.setPc id .outside).pc i).stopped = false := fun i => by
    rcases split i with out | same
    · rw [out]
      exact ⟨rfl, rfl⟩
    · rw [same]
      exact idle i
  refine ⟨inv.exclusive.reset id, fun i busy => absurd ((stillIdle i).1.symm.trans busy) (by decide),
    knows_of_idle _ (stillIdle _).1 (stillIdle _).2, fun i asleep => ?_, fun locked => ?_⟩
  · obtain ⟨waits, sure | releases⟩ := inv.asleep i asleep
    · exact ⟨waits, .inl sure⟩
    · cases here : s.pc s.me <;> rw [here] at releases stopped <;> contradiction
  · obtain ⟨i, holds⟩ := inv.owner locked
    have other : i ≠ id := by
      rintro rfl
      exact absurd (owns.symm.trans holds) (by decide)
    exact ⟨i, by rw [pc_setPc_other s .outside other]; exact holds⟩

theorem Awake.call {s t : Mutex} {e : ThreadEvent} (inv : Awake s) (taken : s.call e = some t)
    (whole : s.spoils (.call e) = false) : Awake t := by
  have exclusive := inv.exclusive.call taken
  rw [Mutex.call] at taken
  split at taken
  · rename_i own
    have idle : (s.pc s.me).registers = false ∧ (s.pc s.me).stopped = false := by
      rcases own with outside | holding
      · rw [outside]
        exact ⟨rfl, rfl⟩
      · rw [holding]
        exact ⟨rfl, rfl⟩
    simp only [Option.bind_eq_bind, Option.bind_eq_some_iff] at taken
    obtain ⟨threads, stepped, taken⟩ := taken
    rw [spoils, Bool.or_eq_false_iff] at whole
    have sleeps := suspended_of_step stepped fun i written => by
      rw [written] at whole
      simp at whole
    have kept : Awake { s with threads := threads } := by
      refine inv.leave ?_ idle.1 idle.2 sleeps
      have none := inv.idle idle.1 idle.2
      exact ⟨fun i stopped => absurd ((none i).2.symm.trans stopped) (by decide),
        inv.exclusive.locked, inv.exclusive.one, inv.exclusive.free⟩
    cases given : s.threads.gives e with
    | none =>
        simp only [given, Option.pure_def, Option.some.injEq] at taken
        subst taken
        exact kept
    | some id =>
        simp only [given, Option.pure_def, Option.some.injEq] at taken
        subst taken
        have idleAfter := inv.idle idle.1 idle.2 threads.currentThread
        refine kept.reset id idleAfter.1 idleAfter.2 ?_
        have notOwner := whole.2
        rw [given] at notOwner
        exact notOwner
  · exact nomatch taken

theorem Awake.enter {s t : Mutex} {own pc : MutexPc} (inv : Awake s) (taken : s.enter own pc = some t)
    (exclusive : Exclusive t) (registers : pc.registers = false) (stopped : pc.stopped = false)
    (releases : own.releases = false) (owns : pc.owns = own.owns) : Awake t := by
  rw [Mutex.enter] at taken
  split at taken
  · rename_i here
    obtain rfl := Option.some.inj taken
    exact inv.pass exclusive rfl (fun _ => rfl) (fun _ => knows_of_idle _ registers stopped)
      (fun _ sleeps => sleeps) rfl rfl (by rw [here]; exact releases)
      (fun holds _ => by rw [owns, ← here]; exact holds)
  · exact nomatch taken

theorem Awake.step {s t : Mutex} {e : MutexEvent} (inv : Awake s) (taken : s.step e = some t)
    (whole : s.spoils e = false) : Awake t := by
  have exclusive := inv.exclusive.step taken
  cases e with
  | tick nested ctx =>
      simp only [Mutex.step, Option.bind_eq_bind, Option.pure_def, Option.bind_eq_some_iff,
        Option.some.injEq] at taken
      obtain ⟨threads, ticked, rfl⟩ := taken
      exact inv.tick ticked whole
  | go now ctx => exact inv.go taken
  | lock timeoutMs => exact inv.enter taken exclusive rfl rfl rfl rfl
  | tryLock => exact inv.enter taken exclusive rfl rfl rfl rfl
  | unlock => exact inv.enter taken exclusive rfl rfl rfl rfl
  | call e => exact inv.call taken whole

/-- The events of a run which can take a thread its wake-up. -/
def spoilers : Mutex → List MutexEvent → List MutexEvent :=
  emitted Mutex.step fun s e _ => if s.spoils e then [e] else []

theorem Awake.run {s t : Mutex} {es : List MutexEvent} (inv : Awake s)
    (reached : LabelledRun.run Mutex.step s es = some t) (whole : spoilers s es = []) : Awake t := by
  induction es generalizing s with
  | nil =>
      obtain rfl := Option.some.inj reached
      exact inv
  | cons e es ih =>
      obtain ⟨u, taken, later⟩ := run_cons_some.mp reached
      rw [spoilers, emitted_cons taken, List.append_eq_nil_iff] at whole
      exact ih (inv.step taken (by simpa using whole.1)) later whole.2

/-- Unless something takes it its wake-up, a thread which sleeps for the mutex is
    registered for the next `unlock`, and another thread holds the mutex or is
    about to restart it. -/
theorem no_lost_wakeup {threads : Threads} {es : List MutexEvent} {s : Mutex}
    (fresh : ∀ i, threads.flags i ≠ some .suspended)
    (reached : run Mutex.step (init threads) es = some s) (whole : spoilers (init threads) es = [])
    {i : ThreadId} (sleeps : s.threads.flags i = some .suspended) :
    s.waitthread = some i ∧ ∃ j, (s.pc j).owns = true ∨ (s.pc j).releases = true := by
  have inv : Awake (init threads) :=
    ⟨exclusive_init threads, nofun, trivial, fun i asleep => absurd asleep (fresh i), nofun⟩
  have final := inv.run reached whole
  obtain ⟨waits, locked | releases⟩ := final.asleep i sleeps
  · obtain ⟨j, owns⟩ := final.owner locked
    exact ⟨waits, j, .inl owns⟩
  · exact ⟨waits, s.me, .inr releases⟩

/-- `loop` takes the mutex, and `ctrlEthernetThread` begins to wait for it. -/
def contended (n : Nat) : List MutexEvent :=
  .tryLock :: statements 4 ++ [.call (.yield ⟨.zero, 6000⟩), .lock 0] ++ statements n

theorem no_lost_wakeup_contended : ∃ s,
    run Mutex.step (init (.boot 1000 ⟨.zero, 0⟩ 2000 4000)) (contended 11) = some s ∧
      s.waitthread = some 1 := by
  have sleeps : (run Mutex.step (init (.boot 1000 ⟨.zero, 0⟩ 2000 4000)) (contended 11)).any
      (fun s => s.threads.flags 1 = some .suspended) = true := by decide +kernel
  have whole : (spoilers (init (.boot 1000 ⟨.zero, 0⟩ 2000 4000)) (contended 11)).isEmpty = true := by
    decide +kernel
  obtain ⟨s, reached, slept⟩ := (Option.any_eq_true _ _).mp sleeps
  exact ⟨s, reached, (no_lost_wakeup (by decide) reached (List.isEmpty_iff.mp whole)
    (of_decide_eq_true slept)).1⟩

/-- The timer comes after the failed test, and `loop` unlocks: the waiter then
    has itself suspended for a mutex which nobody holds. -/
theorem lost_wakeup :
    (run Mutex.step (init (.boot 1000 ⟨.zero, 0⟩ 2000 4000))
      (List.flatten [contended 6, List.replicate 11 (.tick false ⟨.zero, 6000⟩),
        [.call (.yield ⟨.zero, 6000⟩), .unlock], statements 5, [.call (.yield ⟨.zero, 6000⟩)],
        statements 5])).any (fun s =>
      s.threads.flags 1 = some .suspended ∧ s.state = false ∧ ∀ i, (s.pc i).owns = false) := by
  decide +kernel

end Mutex

end GpioCtrlBoard
