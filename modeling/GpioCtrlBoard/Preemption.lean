import GpioCtrlBoard.PortStore
import GpioCtrlBoard.Lib.LabelledRun

/-! # `decodeData` under preemption

The main loop and the serial thread call `decodeData` without a lock and may be
switched anywhere between an assignment, the evaluation of a level and the write
of that level. An output is safe while it shows its bit or some thread still owes
it a fresh level; only the write of an outdated level which no one owes any more
leaves a pin behind.
-/

namespace GpioCtrlBoard

open LabelledRun

/-- The two callers of `decodeData`. -/
inductive Thread where
  | mainLoop
  | heartBeat
  deriving DecidableEq

def Thread.other : Thread → Thread
  | .mainLoop => .heartBeat
  | .heartBeat => .mainLoop

/-- Where a thread stands: outside of the call, before the switch, before the
    next evaluation, or with an evaluated level in hand. -/
inductive Pc where
  | idle
  | entered (receivedData : Str)
  | scanning (todo : List Output)
  | holding (o : Output) (val : Level) (todo : List Output)
  deriving DecidableEq

structure Machine where
  board : Board
  pc : Thread → Pc

inductive Action where
  | call (t : Thread) (receivedData : Str)
  | assign (t : Thread)
  | eval (t : Thread)
  | write (t : Thread)
  | ret (t : Thread)

namespace Machine

def goto (m : Machine) (t : Thread) (pc : Pc) : Machine := { m with pc := Function.update m.pc t pc }

@[simp] theorem goto_board (m : Machine) (t : Thread) (pc : Pc) : (m.goto t pc).board = m.board := rfl

@[simp] theorem goto_self (m : Machine) (t : Thread) (pc : Pc) : (m.goto t pc).pc t = pc := by
  simp only [goto, Function.update_self]

theorem goto_of_ne (m : Machine) {t u : Thread} (apart : u ≠ t) (pc : Pc) :
    (m.goto t pc).pc u = m.pc u := by
  simp only [goto, Function.update_of_ne apart]

/-- Output a level on one pin. -/
def put (m : Machine) (o : Output) (val : Level) : Machine :=
  { m with board := { m.board with gpio := m.board.gpio.digitalWriteFast o.pin val } }

@[simp] theorem put_pc (m : Machine) (o : Output) (val : Level) : (m.put o val).pc = m.pc := rfl

@[simp] theorem put_val (m : Machine) (o : Output) (val : Level) :
    (m.put o val).board.val = m.board.val := by
  funext x
  cases x <;> rfl

theorem put_level (m : Machine) (o : Output) (val : Level) :
    (m.put o val).board.gpio.level = Function.update m.board.gpio.level o.pin val :=
  Gpio.level_digitalWriteFast m.board.gpio o.pin val

def step (m : Machine) : Action → Option Machine
  | .call t receivedData => match m.pc t with
    | .idle => some (m.goto t (.entered receivedData))
    | _ => none
  | .assign t => match m.pc t with
    | .entered receivedData =>
      some ({ m with board := assigned receivedData m.board }.goto t (.scanning outputs))
    | _ => none
  | .eval t => match m.pc t with
    | .scanning (o :: todo) => some (m.goto t (.holding o (portImage m.board.val o) todo))
    | _ => none
  | .write t => match m.pc t with
    | .holding o val todo => some ((m.put o val).goto t (.scanning todo))
    | _ => none
  | .ret t => match m.pc t with
    | .scanning [] => some (m.goto t .idle)
    | _ => none

/-- Both threads are started with the levels of `setup`. -/
def start (power : Pin → Level) : Machine where
  board := setup (powerOn power)
  pc := fun _ => .idle

/-- No thread is inside `decodeData`. -/
def Quiet (m : Machine) : Prop := ∀ t, m.pc t = .idle

/-- All that a step can do. -/
theorem step_cases {m m' : Machine} {a : Action} (taken : step m a = some m') :
    match a with
    | .call t receivedData => m.pc t = .idle ∧ m' = m.goto t (.entered receivedData)
    | .assign t => ∃ receivedData, m.pc t = .entered receivedData ∧
        m' = { m with board := assigned receivedData m.board }.goto t (.scanning outputs)
    | .eval t => ∃ o todo, m.pc t = .scanning (o :: todo) ∧
        m' = m.goto t (.holding o (portImage m.board.val o) todo)
    | .write t => ∃ o val todo, m.pc t = .holding o val todo ∧
        m' = (m.put o val).goto t (.scanning todo)
    | .ret t => m.pc t = .scanning [] ∧ m' = m.goto t .idle := by
  cases a with
  | call t receivedData =>
      cases pc : m.pc t with
      | idle =>
          simp only [step, pc, Option.some.injEq] at taken
          exact ⟨pc, taken.symm⟩
      | entered | scanning | holding => simp [step, pc] at taken
  | assign t =>
      cases pc : m.pc t with
      | entered receivedData =>
          simp only [step, pc, Option.some.injEq] at taken
          exact ⟨receivedData, pc, taken.symm⟩
      | idle | scanning | holding => simp [step, pc] at taken
  | eval t =>
      cases pc : m.pc t with
      | scanning todo =>
          cases todo with
          | nil => simp [step, pc] at taken
          | cons o todo =>
              simp only [step, pc, Option.some.injEq] at taken
              exact ⟨o, todo, pc, taken.symm⟩
      | idle | entered | holding => simp [step, pc] at taken
  | write t =>
      cases pc : m.pc t with
      | holding o val todo =>
          simp only [step, pc, Option.some.injEq] at taken
          exact ⟨o, val, todo, pc, taken.symm⟩
      | idle | entered | scanning => simp [step, pc] at taken
  | ret t =>
      cases pc : m.pc t with
      | scanning todo =>
          cases todo with
          | nil =>
              simp only [step, pc, Option.some.injEq] at taken
              exact ⟨pc, taken.symm⟩
          | cons o todo => simp [step, pc] at taken
      | idle | entered | holding => simp [step, pc] at taken

/-! ## A thread alone -/

@[simp] theorem goto_goto (m : Machine) (t : Thread) (pc pc' : Pc) :
    (m.goto t pc).goto t pc' = m.goto t pc' := by
  simp only [goto, Function.update_idem]

theorem goto_put (m : Machine) (t : Thread) (pc : Pc) (o : Output) (val : Level) :
    (m.goto t pc).put o val = (m.put o val).goto t pc := rfl

/-- Drive the listed outputs with the levels their variables call for. -/
def drive (m : Machine) (todo : List Output) : Machine :=
  { m with board := { m.board with gpio := m.board.gpio.drive todo (portImage m.board.val) } }

@[simp] theorem drive_val (m : Machine) (todo : List Output) :
    (m.drive todo).board.val = m.board.val := by
  funext x
  cases x <;> rfl

@[simp] theorem drive_pc (m : Machine) (todo : List Output) : (m.drive todo).pc = m.pc := rfl

theorem drive_cons (m : Machine) (o : Output) (todo : List Output) :
    m.drive (o :: todo) = (m.put o (portImage m.board.val o)).drive todo := by
  simp only [drive, put_val]
  rfl

theorem goto_drive (m : Machine) (t : Thread) (pc : Pc) (todo : List Output) :
    (m.goto t pc).drive todo = (m.drive todo).goto t pc := rfl

/-- The evaluations and writes of the loop over the listed outputs. -/
def loop (t : Thread) (todo : List Output) : List Action := todo.flatMap fun _ => [.eval t, .write t]

/-- Without a switch the loop drives its outputs. -/
theorem run_loop (t : Thread) (todo : List Output) {m : Machine} (pc : m.pc t = .scanning todo) :
    run step m (loop t todo) = some ((m.drive todo).goto t (.scanning [])) := by
  induction todo generalizing m with
  | nil =>
      have same : m.goto t (.scanning []) = m := by
        simp only [goto, ← pc, Function.update_eq_self]
      have still : m.drive [] = m := rfl
      rw [still, same]
      rfl
  | cons o todo ih =>
      let next := (m.put o (portImage m.board.val o)).goto t (.scanning todo)
      have evaluated : step m (.eval t) = some (m.goto t (.holding o (portImage m.board.val o) todo)) := by
        simp only [step, pc]
      have written : step (m.goto t (.holding o (portImage m.board.val o) todo)) (.write t) = some next := by
        simp only [step, goto_self, goto_put, goto_goto, next]
      have rest := ih (goto_self (m.put o (portImage m.board.val o)) t (.scanning todo))
      have actions : loop t (o :: todo) = .eval t :: .write t :: loop t todo := rfl
      rw [actions, run_cons, evaluated, Option.bind_some, run_cons, written, Option.bind_some, rest,
        goto_drive, goto_goto, drive_cons]

/-- Without a switch a call is `decodeData`. -/
theorem run_call (m : Machine) (t : Thread) (receivedData : Str) (idle : m.pc t = .idle) :
    run step m (.call t receivedData :: .assign t :: (loop t outputs ++ [.ret t])) =
      some { m with board := (decodeData receivedData m.board).1 } := by
  let entered := m.goto t (.entered receivedData)
  let ready := { m with board := assigned receivedData m.board }.goto t (.scanning outputs)
  have called : step m (.call t receivedData) = some entered := by simp only [step, idle, entered]
  have assigns : step entered (.assign t) = some ready := by
    simp only [step, entered, goto_self, goto_board, ready]
    simp only [goto, Function.update_idem]
  have looped := run_loop t outputs (goto_self { m with board := assigned receivedData m.board } t
    (.scanning outputs))
  have returned : step ((ready.drive outputs).goto t (.scanning [])) (.ret t) =
      some ((ready.drive outputs).goto t .idle) := by
    simp only [step, goto_self, goto_goto]
  have final : (ready.drive outputs).goto t .idle =
      { m with board := (decodeData receivedData m.board).1 } := by
    simp only [ready, goto_drive, goto_goto, decodeData_eq]
    simp only [goto, drive, writePorts, ← idle, Function.update_eq_self]
  rw [run_cons, called, Option.bind_some, run_cons, assigns, Option.bind_some, run_append, looped,
    Option.bind_some, run_cons, returned, final]
  rfl

end Machine

/-! ## Debts -/

/-- A thread at this point will still give the output the level which the
    variables call for now. -/
def Pc.Owes (val : Port → UInt8) (o : Output) : Pc → Prop
  | .idle => False
  | .entered _ => True
  | .scanning todo => o ∈ todo
  | .holding o' level todo => o ∈ todo ∨ (o' = o ∧ level = portImage val o)

/-- No output comes up twice in the rest of a loop. -/
def Pc.Distinct : Pc → Prop
  | .idle | .entered _ => True
  | .scanning todo => todo.Nodup
  | .holding o _ todo => (o :: todo).Nodup

namespace Machine

/-- The output shows its bit, or a thread owes it. -/
def Safe (m : Machine) (o : Output) : Prop :=
  m.board.gpio.level o.pin = portImage m.board.val o ∨ ∃ t, (m.pc t).Owes m.board.val o

/-- The thread is about to write an outdated level, and the other one no longer
    owes the output. -/
def StaleWrite (m : Machine) (t : Thread) : Prop :=
  ∃ o val todo, m.pc t = .holding o val todo ∧ val ≠ portImage m.board.val o ∧
    ¬ (m.pc t.other).Owes m.board.val o

theorem Safe.goto {m : Machine} {o : Output} (safe : m.Safe o) {t : Thread} {pc : Pc}
    (debts : (m.pc t).Owes m.board.val o → pc.Owes m.board.val o) : (m.goto t pc).Safe o := by
  rcases safe with shown | ⟨u, owes⟩
  · exact Or.inl shown
  · right
    by_cases same : u = t
    · subst same
      exact ⟨u, by simpa using debts owes⟩
    · exact ⟨u, by simpa [goto_of_ne m same] using owes⟩

/-- A write which is not stale keeps every output safe. -/
theorem write_safe {m : Machine} (safe : ∀ o, m.Safe o) {t : Thread} {o : Output} {val : Level}
    {todo : List Output} (pc : m.pc t = .holding o val todo) (fresh : ¬ m.StaleWrite t) (o' : Output) :
    ((m.put o val).goto t (.scanning todo)).Safe o' := by
  by_cases same : o' = o
  · subst same
    by_cases current : val = portImage m.board.val o'
    · left
      rw [goto_board, put_level, put_val, Function.update_self]
      exact current
    · -- An outdated level: the other thread will write this pin once more.
      have owed : (m.pc t.other).Owes m.board.val o' := by
        by_contra free
        exact fresh ⟨o', val, todo, pc, current, free⟩
      have apart : t.other ≠ t := by cases t <;> decide
      right
      refine ⟨t.other, ?_⟩
      rw [goto_of_ne _ apart, put_pc, goto_board, put_val]
      exact owed
  · have pin : o'.pin ≠ o.pin := fun equal => same (pin_injective equal)
    have kept : (m.put o val).Safe o' := by
      rcases safe o' with shown | ⟨u, owes⟩
      · left
        rw [put_level, put_val, Function.update_of_ne pin]
        exact shown
      · right
        exact ⟨u, by rw [put_pc, put_val]; exact owes⟩
    apply kept.goto
    intro owes
    rw [put_pc, pc, put_val] at owes
    exact owes.resolve_right fun held => same held.1.symm

theorem step_safe {m m' : Machine} {a : Action} (safe : ∀ o, m.Safe o) (taken : step m a = some m')
    (fresh : ∀ t, a = .write t → ¬ m.StaleWrite t) (o : Output) : m'.Safe o := by
  have cases := step_cases taken
  cases a with
  | call t receivedData =>
      obtain ⟨pc, rfl⟩ := cases
      exact (safe o).goto fun _ => trivial
  | assign t =>
      -- From here on the thread owes every output.
      obtain ⟨receivedData, pc, rfl⟩ := cases
      right
      refine ⟨t, ?_⟩
      rw [goto_self]
      exact mem_outputs o
  | eval t =>
      obtain ⟨o', todo, pc, rfl⟩ := cases
      apply (safe o).goto
      intro owes
      rw [pc] at owes
      rcases List.mem_cons.mp owes with rfl | later
      · exact Or.inr ⟨rfl, rfl⟩
      · exact Or.inl later
  | write t =>
      obtain ⟨o', val, todo, pc, rfl⟩ := cases
      exact write_safe safe pc (fresh t rfl) o
  | ret t =>
      obtain ⟨pc, rfl⟩ := cases
      apply (safe o).goto
      intro owes
      rw [pc] at owes
      exact absurd owes List.not_mem_nil

/-- No write of the run is stale. -/
def Careful (m : Machine) (es : List Action) : Prop :=
  ∀ pre t, pre ++ [.write t] <+: es → ∀ m', run step m pre = some m' → ¬ m'.StaleWrite t

theorem run_safe {power : Pin → Level} {es : List Action} {m : Machine}
    (reached : run step (start power) es = some m) (careful : Careful (start power) es) (o : Output) :
    m.Safe o := by
  revert careful o
  refine run_induction (motive := fun es m => Careful (start power) es → ∀ o, m.Safe o) ?_ ?_ reached
  · intro _ o
    exact Or.inl (mirrors_iff.mp (setup_mirrors power) o)
  · intro es m a m' before safe taken careful o
    have earlier : Careful (start power) es := fun pre t inside =>
      careful pre t (inside.trans (List.prefix_append es [a]))
    apply step_safe (safe earlier) taken
    rintro t rfl
    exact careful es t (List.prefix_refl _) m before

theorem quiet_mirrors {m : Machine} (safe : ∀ o, m.Safe o) (quiet : m.Quiet) : Mirrors m.board := by
  rw [mirrors_iff]
  intro o
  rcases safe o with shown | ⟨t, owes⟩
  · exact shown
  · rw [quiet t] at owes
    exact owes.elim

/-! ## Stale writes -/

theorem outputs_nodup : outputs.Nodup := List.Nodup.of_map Output.pin outputs_pin_nodup

theorem goto_distinct {m : Machine} (distinct : ∀ t, (m.pc t).Distinct) (t : Thread) {pc : Pc}
    (new : pc.Distinct) (u : Thread) : ((m.goto t pc).pc u).Distinct := by
  by_cases same : u = t
  · rw [same, goto_self]
    exact new
  · rw [goto_of_ne m same]
    exact distinct u

theorem step_distinct {m m' : Machine} {a : Action} (distinct : ∀ t, (m.pc t).Distinct)
    (taken : step m a = some m') : ∀ t, (m'.pc t).Distinct := by
  have cases := step_cases taken
  cases a with
  | call t receivedData =>
      obtain ⟨-, rfl⟩ := cases
      exact goto_distinct distinct t trivial
  | assign t =>
      obtain ⟨receivedData, -, rfl⟩ := cases
      exact goto_distinct (m := { m with board := assigned receivedData m.board }) distinct t outputs_nodup
  | eval t =>
      obtain ⟨o, todo, pc, rfl⟩ := cases
      have rest := distinct t
      rw [pc] at rest
      exact goto_distinct distinct t rest
  | write t =>
      obtain ⟨o, val, todo, pc, rfl⟩ := cases
      have rest := distinct t
      rw [pc] at rest
      exact goto_distinct (m := m.put o val) distinct t (List.nodup_cons.mp rest).2
  | ret t =>
      obtain ⟨-, rfl⟩ := cases
      exact goto_distinct distinct t trivial

theorem run_distinct {power : Pin → Level} {es : List Action} {m : Machine}
    (reached : run step (start power) es = some m) (t : Thread) : (m.pc t).Distinct := by
  refine run_induction (motive := fun _ m => ∀ t, (m.pc t).Distinct) ?_ ?_ reached t
  · intro t
    exact trivial
  · intro es m a m' _ distinct taken
    exact step_distinct distinct taken

/-- The thread finished its call; variables and other threads are as before. -/
structure Finished (m m' : Machine) (t : Thread) : Prop where
  idle : m'.pc t = .idle
  others : ∀ u ≠ t, m'.pc u = m.pc u
  val : m'.board.val = m.board.val

theorem finish_loop {m : Machine} {t : Thread} {todo : List Output} (pc : m.pc t = .scanning todo)
    {o : Output} (absent : o ∉ todo) :
    ∃ es m', run step m es = some m' ∧ Finished m m' t ∧
      m'.board.gpio.level o.pin = m.board.gpio.level o.pin := by
  let last := (m.drive todo).goto t (.scanning [])
  have returned : step last (.ret t) = some (last.goto t .idle) := by
    simp only [step, last, goto_self]
  refine ⟨loop t todo ++ [.ret t], last.goto t .idle, ?_, ?_, ?_⟩
  · rw [run_append, run_loop t todo pc, Option.bind_some, run_cons, returned]
    rfl
  · constructor
    · exact goto_self last t .idle
    · intro u other
      rw [goto_of_ne last other, goto_of_ne _ other, drive_pc]
    · simp only [goto_board, last, drive_val]
  · have unwritten : ∀ o' ∈ todo, o.pin ≠ o'.pin := by
      intro o' inside equal
      exact absent (pin_injective equal ▸ inside)
    exact Gpio.level_drive_other m.board.gpio todo _ unwritten

/-- A thread which does not owe an output leaves it wrong. -/
theorem finish_wrong {m : Machine} {t : Thread} {o : Output} (free : ¬ (m.pc t).Owes m.board.val o)
    (wrong : m.board.gpio.level o.pin ≠ portImage m.board.val o) :
    ∃ es m', run step m es = some m' ∧ Finished m m' t ∧
      m'.board.gpio.level o.pin ≠ portImage m'.board.val o := by
  cases pc : m.pc t with
  | idle => exact ⟨[], m, rfl, ⟨pc, fun _ _ => rfl, rfl⟩, wrong⟩
  | entered receivedData =>
      rw [pc] at free
      exact absurd trivial free
  | scanning todo =>
      rw [pc] at free
      obtain ⟨es, m', reached, finished, level⟩ := finish_loop pc free
      refine ⟨es, m', reached, finished, ?_⟩
      rw [level, finished.val]
      exact wrong
  | holding o' val todo =>
      rw [pc] at free
      obtain ⟨absent, outdated⟩ := not_or.mp free
      let next := (m.put o' val).goto t (.scanning todo)
      have written : step m (.write t) = some next := by simp only [step, pc, next]
      obtain ⟨es, m', reached, finished, level⟩ := finish_loop (goto_self (m.put o' val) t _) absent
      have values : m'.board.val = m.board.val := by
        rw [finished.val, goto_board, put_val]
      refine ⟨.write t :: es, m', ?_, ⟨finished.idle, ?_, values⟩, ?_⟩
      · rw [run_cons, written]
        exact reached
      · intro u other
        rw [finished.others u other, goto_of_ne _ other, put_pc]
      · rw [level, values, goto_board, put_level]
        by_cases same : o' = o
        · subst same
          rw [Function.update_self]
          exact fun current => outdated ⟨rfl, current⟩
        · have pin : o.pin ≠ o'.pin := fun equal => same (pin_injective equal).symm
          rw [Function.update_of_ne pin]
          exact wrong

/-- After a stale write both threads can finish and leave the pin wrong. -/
theorem stale_write_stays {power : Pin → Level} {es : List Action} {m : Machine}
    (reached : run step (start power) es = some m) {t : Thread} (stale : m.StaleWrite t) :
    ∃ es' m', run step (start power) (es ++ .write t :: es') = some m' ∧ m'.Quiet ∧
      ¬ Mirrors m'.board := by
  obtain ⟨o, val, todo, pc, outdated, free⟩ := stale
  have apart : t.other ≠ t := by cases t <;> decide
  have distinct := run_distinct reached t
  rw [pc] at distinct
  let m₁ := (m.put o val).goto t (.scanning todo)
  have written : step m (.write t) = some m₁ := by simp only [step, pc, m₁]
  have wrong : m₁.board.gpio.level o.pin ≠ portImage m₁.board.val o := by
    rw [goto_board, put_level, put_val, Function.update_self]
    exact outdated
  have done : ¬ (m₁.pc t).Owes m₁.board.val o := by
    rw [goto_self]
    exact (List.nodup_cons.mp distinct).1
  obtain ⟨es₁, m₂, run₁, finished₁, wrong₁⟩ := finish_wrong done wrong
  have still : ¬ (m₂.pc t.other).Owes m₂.board.val o := by
    rw [finished₁.others _ apart, finished₁.val, goto_of_ne _ apart, put_pc, goto_board, put_val]
    exact free
  obtain ⟨es₂, m₃, run₂, finished₂, wrong₂⟩ := finish_wrong still wrong₁
  refine ⟨es₁ ++ es₂, m₃, ?_, ?_, ?_⟩
  · rw [run_append, reached, Option.bind_some, run_cons, written, Option.bind_some, run_append, run₁]
    exact run₂
  · intro u
    by_cases second : u = t.other
    · rw [second]
      exact finished₂.idle
    · have first : u = t := by cases u <;> cases t <;> simp_all [Thread.other]
      rw [finished₂.others u second, first]
      exact finished₁.idle
  · rw [mirrors_iff]
    intro all
    exact wrong₂ (all o)

/-- Pins mirror the variables at rest in every run without a stale write, and
    any stale write can be followed to a rest with a wrong pin. -/
theorem preempted_mirrors (power : Pin → Level) {es : List Action} {m : Machine}
    (reached : run step (start power) es = some m) :
    (Careful (start power) es → m.Quiet → Mirrors m.board) ∧
    ∀ t, m.StaleWrite t → ∃ es' m', run step (start power) (es ++ .write t :: es') = some m' ∧
      m'.Quiet ∧ ¬ Mirrors m'.board := by
  refine ⟨?_, ?_⟩
  · intro careful quiet
    exact quiet_mirrors (run_safe reached careful) quiet
  · intro t stale
    exact stale_write_stays reached stale

instance owesDecidable (val : Port → UInt8) (o : Output) : ∀ pc : Pc, Decidable (pc.Owes val o)
  | .idle => .isFalse id
  | .entered _ => .isTrue trivial
  | .scanning todo => inferInstanceAs (Decidable (o ∈ todo))
  | .holding o' level todo => inferInstanceAs (Decidable (o ∈ todo ∨ (o' = o ∧ level = portImage val o)))

instance staleWriteDecidable (m : Machine) (t : Thread) : Decidable (m.StaleWrite t) :=
  match pc : m.pc t with
  | .holding o val todo =>
    decidable_of_iff (val ≠ portImage m.board.val o ∧ ¬ (m.pc t.other).Owes m.board.val o) <| by
      simp [StaleWrite, pc]
  | .idle | .entered _ | .scanning _ => .isFalse <| by simp [StaleWrite, pc]

theorem careful_cons {m : Machine} {a : Action} {es : List Action} :
    Careful m (a :: es) ↔
      (∀ t, a = .write t → ¬ m.StaleWrite t) ∧ ∀ m', step m a = some m' → Careful m' es := by
  constructor
  · intro careful
    refine ⟨?_, ?_⟩
    · rintro t rfl
      exact careful [] t ⟨es, rfl⟩ m rfl
    · intro m' taken pre t inside m'' reached
      refine careful (a :: pre) t (List.cons_prefix_cons.mpr ⟨rfl, inside⟩) m'' ?_
      rw [run_cons, taken]
      exact reached
  · rintro ⟨first, rest⟩ pre t inside m'' reached
    cases pre with
    | nil =>
        obtain ⟨here, -⟩ := List.cons_prefix_cons.mp inside
        obtain rfl := Option.some.inj reached
        exact first t here.symm
    | cons b pre =>
        obtain ⟨rfl, later⟩ := List.cons_prefix_cons.mp inside
        obtain ⟨m', taken, reached⟩ := run_cons_some.mp reached
        exact rest m' taken pre t later m'' reached

/-- Whether the next step is a stale write. -/
def staleNext (m : Machine) : Action → Bool
  | .write t => m.StaleWrite t
  | _ => false

/-- A run is followed from its start, up to the first step which is refused. -/
def carefulFrom (m : Machine) : List Action → Bool
  | [] => true
  | a :: es => !m.staleNext a && (step m a).all fun m' => m'.carefulFrom es

theorem careful_of_carefulFrom {m : Machine} {es : List Action} (checked : m.carefulFrom es = true) :
    Careful m es := by
  induction es generalizing m with
  | nil =>
      intro pre t inside
      exact absurd (List.prefix_nil.mp inside) (by simp)
  | cons a es ih =>
      rw [carefulFrom, Bool.and_eq_true, Bool.not_eq_true'] at checked
      obtain ⟨first, rest⟩ := checked
      refine careful_cons.mpr ⟨?_, ?_⟩
      · rintro t rfl
        exact of_decide_eq_false first
      · intro m' taken
        rw [taken] at rest
        exact ih rest

/-- Both threads are cut. The serial thread evaluates its first level before the
    main loop assigns port A and writes it after: the level is outdated, but the main
    loop still owes the pin. -/
def crossed : List Action :=
  List.flatten [[.call .heartBeat "b1".toList, .assign .heartBeat, .eval .heartBeat],
    [.call .mainLoop "a255".toList, .assign .mainLoop, .write .heartBeat, .eval .mainLoop, .write .mainLoop],
    loop .heartBeat outputs.tail, [.ret .heartBeat], loop .mainLoop outputs.tail, [.ret .mainLoop]]

/-- The serial thread is cut with the first level in hand, and the main loop sets
    port A before it goes on. -/
def cutLoop : List Action :=
  List.flatten [[.call .heartBeat "b1".toList, .assign .heartBeat, .eval .heartBeat],
    [.call .mainLoop "a255".toList, .assign .mainLoop], loop .mainLoop outputs, [.ret .mainLoop]]

theorem preempted_mirrors_crossed :
    (∃ m, run step (start fun _ => .low) crossed = some m ∧ m.Quiet ∧ Mirrors m.board) ∧
    ∃ es' m', run step (start fun _ => .low) (cutLoop ++ .write .heartBeat :: es') = some m' ∧
      m'.Quiet ∧ ¬ Mirrors m'.board := by
  constructor
  · have ends : (run step (start fun _ => .low) crossed).any
        (fun m => m.pc .mainLoop = .idle ∧ m.pc .heartBeat = .idle) = true := by decide +kernel
    obtain ⟨m, reached, finished⟩ := (Option.any_eq_true _ _).mp ends
    obtain ⟨main, serial⟩ := of_decide_eq_true finished
    have quiet : m.Quiet := by
      intro t
      cases t with
      | mainLoop => exact main
      | heartBeat => exact serial
    have careful : Careful (start fun _ => .low) crossed := careful_of_carefulFrom (by decide +kernel)
    exact ⟨m, reached, quiet, (preempted_mirrors (fun _ => .low) reached).1 careful quiet⟩
  · have holds : (run step (start fun _ => .low) cutLoop).any
        (fun m => m.StaleWrite .heartBeat) = true := by decide +kernel
    obtain ⟨m, reached, stale⟩ := (Option.any_eq_true _ _).mp holds
    exact (preempted_mirrors (fun _ => .low) reached).2 .heartBeat (of_decide_eq_true stale)

/-- The level in hand is then written over the new one. -/
theorem cut_loop_leaves_pin :
    ¬ ∀ (es : List Action) (m : Machine),
      run step (start fun _ => .low) es = some m → m.Quiet → Mirrors m.board := by
  intro all
  let es := cutLoop ++ .write .heartBeat :: (loop .heartBeat outputs.tail ++ [.ret .heartBeat])
  have final : (run step (start fun _ => .low) es).map (fun m =>
      (m.pc .mainLoop, m.pc .heartBeat, m.board.gpio.level 32, m.board.p1aVal)) =
        some (.idle, .idle, .high, 255) := by
    decide +kernel
  obtain ⟨m, reached, shown⟩ := Option.map_eq_some_iff.mp final
  simp only [Prod.mk.injEq] at shown
  obtain ⟨main, serial, level, value⟩ := shown
  have quiet : m.Quiet := by
    intro t
    cases t with
    | mainLoop => exact main
    | heartBeat => exact serial
  have low := (all es m reached quiet (.p1a, 0)).mpr
  have bit : (m.board.val .p1a).toNat.testBit 0 := by
    rw [Board.val, value]
    rfl
  have contradiction := (low bit).symm.trans level
  exact absurd contradiction (by decide)

/-! ## The variables -/

/-- The strings which a thread calls `decodeData` with. -/
def calls (t : Thread) (es : List Action) : List Str :=
  es.filterMap fun
    | .call u receivedData => if u = t then some receivedData else none
    | _ => none

/-- The assignments of a run in the order in which they happen, each with the
    thread which makes it and the string of its call. -/
def assignments : Machine → List Action → List (Thread × Str) :=
  emitted step fun m a _ => match a with
    | .assign t => match m.pc t with
      | .entered receivedData => [(t, receivedData)]
      | _ => []
    | _ => []

/-- The call of a thread which is still to make its assignment. -/
def outstanding (m : Machine) (t : Thread) : List Str :=
  match m.pc t with
  | .entered receivedData => [receivedData]
  | _ => []

theorem outstanding_goto (m : Machine) (t : Thread) (pc : Pc) (u : Thread) :
    (m.goto t pc).outstanding u = if u = t then
      match pc with
      | .entered receivedData => [receivedData]
      | _ => []
    else m.outstanding u := by
  by_cases same : u = t
  · subst same
    rw [outstanding, goto_self, if_pos rfl]
  · rw [outstanding, goto_of_ne m same, if_neg same, outstanding]

/-- The account of a run: what the variables hold, and which calls have been
    assigned. -/
structure InOrder (b : Board) (es : List Action) (as : List (Thread × Str)) (m : Machine) : Prop where
  values : m.board.val = (decodeAll (as.map Prod.snd) b).val
  each : ∀ t, (as.filter fun a => a.1 = t).map Prod.snd ++ m.outstanding t = calls t es

/-- A step which is neither a call nor an assignment. -/
theorem InOrder.keep {b : Board} {es : List Action} {as : List (Thread × Str)} {m m' : Machine}
    (inOrder : InOrder b es as m) {a : Action} (values : m'.board.val = m.board.val)
    (same : ∀ t, m'.outstanding t = m.outstanding t) (silent : ∀ t, calls t [a] = []) :
    InOrder b (es ++ [a]) as m' := by
  refine ⟨values.trans inOrder.values, fun t => ?_⟩
  have longer : calls t (es ++ [a]) = calls t es ++ calls t [a] := List.filterMap_append
  rw [longer, silent, List.append_nil, same]
  exact inOrder.each t

theorem decodeAll_snoc (ss : List Str) (s : Str) (b : Board) :
    decodeAll (ss ++ [s]) b = (decodeData s (decodeAll ss b)).1 := by
  simp only [decodeAll, List.foldl_append, List.foldl_cons, List.foldl_nil]

theorem InOrder.assign {b : Board} {es : List Action} {as : List (Thread × Str)} {m m' : Machine}
    (inOrder : InOrder b es as m) {t : Thread} {receivedData : Str} (pc : m.pc t = .entered receivedData)
    (assigns : m' = { m with board := assigned receivedData m.board }.goto t (.scanning outputs)) :
    InOrder b (es ++ [.assign t]) (as ++ [(t, receivedData)]) m' := by
  subst assigns
  constructor
  · rw [goto_board, List.map_append, List.map_singleton, decodeAll_snoc, decodeData_val, assigned_val,
      inOrder.values]
  · intro u
    have longer : calls u (es ++ [.assign t]) = calls u es := by
      rw [calls, List.filterMap_append]
      exact List.append_nil _
    rw [longer, ← inOrder.each u, outstanding_goto, List.filter_append, List.map_append]
    by_cases same : u = t
    · subst same
      have before : m.outstanding u = [receivedData] := by rw [outstanding, pc]
      simp [before]
    · have other : ¬ t = u := Ne.symm same
      simp [same, other, outstanding]

theorem InOrder.call {b : Board} {es : List Action} {as : List (Thread × Str)} {m m' : Machine}
    (inOrder : InOrder b es as m) {t : Thread} {receivedData : Str} (pc : m.pc t = .idle)
    (called : m' = m.goto t (.entered receivedData)) :
    InOrder b (es ++ [.call t receivedData]) as m' := by
  subst called
  refine ⟨inOrder.values, fun u => ?_⟩
  have longer : calls u (es ++ [.call t receivedData]) =
      calls u es ++ if t = u then [receivedData] else [] := by
    rw [calls, List.filterMap_append]
    by_cases same : t = u <;> simp [calls, same]
  rw [longer, ← inOrder.each u, outstanding_goto]
  by_cases same : u = t
  · subst same
    have before : m.outstanding u = [] := by rw [outstanding, pc]
    simp [before]
  · have other : ¬ t = u := Ne.symm same
    simp [same, other]

theorem InOrder.step {b start : Machine} {es : List Action} {m m' : Machine} {a : Action}
    (inOrder : InOrder b.board es (assignments start es) m) (reached : run step start es = some m)
    (taken : step m a = some m') : InOrder b.board (es ++ [a]) (assignments start (es ++ [a])) m' := by
  rw [assignments, emitted_snoc reached taken, ← assignments]
  have cases := step_cases taken
  cases a with
  | call t receivedData =>
      obtain ⟨pc, called⟩ := cases
      rw [List.append_nil]
      exact inOrder.call pc called
  | assign t =>
      obtain ⟨receivedData, pc, assigns⟩ := cases
      simp only [pc]
      exact inOrder.assign pc assigns
  | eval t =>
      obtain ⟨o, todo, pc, rfl⟩ := cases
      rw [List.append_nil]
      refine inOrder.keep rfl (fun u => ?_) fun _ => rfl
      rw [outstanding_goto]
      split
      · rename_i same
        rw [same, outstanding, pc]
      · rfl
  | write t =>
      obtain ⟨o, val, todo, pc, rfl⟩ := cases
      rw [List.append_nil]
      refine inOrder.keep (by rw [goto_board, put_val]) (fun u => ?_) fun _ => rfl
      rw [outstanding_goto]
      split
      · rename_i same
        rw [same, outstanding, pc]
      · rfl
  | ret t =>
      obtain ⟨pc, rfl⟩ := cases
      rw [List.append_nil]
      refine inOrder.keep rfl (fun u => ?_) fun _ => rfl
      rw [outstanding_goto]
      split
      · rename_i same
        rw [same, outstanding, pc]
      · rfl

/-- However the two threads preempt each other, the four variables are at every
    moment those of a run of the same calls one after the other, in the order of the
    assignments; those of a thread come in the order of its calls, and only its
    last call can be outstanding. -/
theorem variables_in_order (power : Pin → Level) {es : List Action} {m : Machine}
    (reached : run step (start power) es = some m) :
    m.board.val = (decodeAll ((assignments (start power) es).map Prod.snd) (setup (powerOn power))).val ∧
    ∀ t, ((assignments (start power) es).filter fun a => a.1 = t).map Prod.snd ++ m.outstanding t =
      calls t es := by
  have inOrder : InOrder (start power).board es (assignments (start power) es) m := by
    refine run_induction (motive := fun es m => InOrder (start power).board es (assignments (start power) es) m)
      ⟨rfl, fun _ => rfl⟩ (fun es m a m' before inOrder taken => inOrder.step before taken) reached
  exact ⟨inOrder.values, inOrder.each⟩

theorem variables_in_order_crossed : ∃ m, run step (start fun _ => .low) crossed = some m ∧
    m.board.val = (decodeAll ["b1".toList, "a255".toList] (setup (powerOn fun _ => .low))).val := by
  have ends : (run step (start fun _ => .low) crossed).isSome = true := by decide +kernel
  obtain ⟨m, reached⟩ := Option.isSome_iff_exists.mp ends
  have order : (assignments (start fun _ => .low) crossed).map Prod.snd = ["b1".toList, "a255".toList] := by
    decide +kernel
  refine ⟨m, reached, ?_⟩
  rw [← order]
  exact (variables_in_order (fun _ => .low) reached).1

end Machine

end GpioCtrlBoard
