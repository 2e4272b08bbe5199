import GpioCtrlBoard.Threads

/-! # Runs of the thread library

Runs of timer interrupts and calls, from any state of the thread library: who
gets the processor next, and what a thread finds in it when its turn comes.
-/

namespace GpioCtrlBoard

open LabelledRun

namespace Threads

/-- The states right after the switches of a run. -/
def switchPoints : Threads → List ThreadEvent → List Threads :=
  emitted step fun s e t => if (s.switches e).isSome then [t] else []

/-- The threads which get the processor. -/
def grants (s : Threads) (es : List ThreadEvent) : List ThreadId :=
  (switchPoints s es).map currentThread

/-- The slots which are given to new threads. -/
def additions : Threads → List ThreadEvent → List ThreadId :=
  emitted step fun s e _ => (s.gives e).toList

/-- The threads which are made able to run. -/
def revivals : Threads → List ThreadEvent → List ThreadId :=
  emitted step fun s e _ => (s.revives e).toList

/-- The registers which the switches of a run take from the processor. -/
def departures : Threads → List ThreadEvent → List Context :=
  emitted step fun s e _ => (s.switches e).toList

/-! ## One more step in front -/

section Cons

variable {s t : Threads} {e : ThreadEvent} (taken : s.step e = some t) (es : List ThreadEvent)
include taken

theorem switchPoints_cons_switched {ctx : Context} (leaves : s.switches e = some ctx) :
    switchPoints s (e :: es) = t :: switchPoints t es := by
  rw [switchPoints, emitted_cons taken, leaves]
  rfl

theorem switchPoints_cons_stayed (keeps : s.switches e = none) :
    switchPoints s (e :: es) = switchPoints t es := by
  rw [switchPoints, emitted_cons taken, keeps]
  rfl

theorem grants_cons_switched {ctx : Context} (leaves : s.switches e = some ctx) :
    grants s (e :: es) = t.currentThread :: grants t es := by
  rw [grants, switchPoints_cons_switched taken es leaves, List.map_cons, grants]

theorem grants_cons_stayed (keeps : s.switches e = none) : grants s (e :: es) = grants t es := by
  rw [grants, switchPoints_cons_stayed taken es keeps, grants]

theorem additions_cons : additions s (e :: es) = (s.gives e).toList ++ additions t es :=
  emitted_cons taken es

theorem revivals_cons : revivals s (e :: es) = (s.revives e).toList ++ revivals t es :=
  emitted_cons taken es

end Cons

theorem switchPoints_refused {s : Threads} {e : ThreadEvent} (refused : s.step e = none)
    (es : List ThreadEvent) : switchPoints s (e :: es) = [] := by
  rw [switchPoints, emitted, refused]

theorem length_grants (s : Threads) (es : List ThreadEvent) :
    (grants s es).length = (departures s es).length := by
  induction es generalizing s with
  | nil => rfl
  | cons e es ih =>
      cases taken : s.step e with
      | none => rw [grants, switchPoints_refused taken, departures, emitted, taken]; rfl
      | some t =>
          rw [departures, emitted_cons taken, ← departures, List.length_append, ← ih]
          cases leaves : s.switches e with
          | none => rw [grants_cons_stayed taken es leaves]; exact (Nat.zero_add _).symm
          | some ctx => rw [grants_cons_switched taken es leaves]; exact Nat.add_comm _ _

/-! ## Bounded bypass -/

/-- The threads are taken in the order of the slots. -/
theorem grants_visits (s : Threads) (es : List ThreadEvent) :
    grants s es = RoundRobin.visits s.currentThread ((switchPoints s es).map running) := by
  induction es generalizing s with
  | nil => rfl
  | cons e es ih =>
      cases taken : s.step e with
      | none => rw [grants, switchPoints_refused taken]; rfl
      | some t =>
          cases leaves : s.switches e with
          | none =>
              rw [grants_cons_stayed taken es leaves, switchPoints_cons_stayed taken es leaves, ih,
                (step_stayed taken leaves).current]
          | some ctx =>
              rw [grants_cons_switched taken es leaves, switchPoints_cons_switched taken es leaves, ih,
                List.map_cons, RoundRobin.visits, ← (step_switched taken leaves).chosen]

theorem switchPoints_states (s : Threads) (es : List ThreadEvent) :
    ∀ t ∈ switchPoints s es, t ∈ states step s es := by
  induction es generalizing s with
  | nil => exact fun t member => member
  | cons e es ih =>
      intro u member
      cases taken : s.step e with
      | none => 
          rw [switchPoints_refused taken] at member
          exact absurd member List.not_mem_nil
      | some t =>
          rw [states, emitted_cons taken, List.singleton_append, List.mem_cons]
          cases leaves : s.switches e with
          | none =>
              rw [switchPoints_cons_stayed taken es leaves] at member
              exact .inr (ih t u member)
          | some ctx =>
              rw [switchPoints_cons_switched taken es leaves] at member
              exact (List.mem_cons.mp member).imp id (ih t u)

/-- While a thread is able to run, as `loop` always is, no other one gets the
    processor twice before it, and eight switches do not miss it. -/
theorem bounded_bypass {s : Threads} {es : List ThreadEvent} {i : ThreadId}
    (waiting : ∀ t ∈ states step s es, i = 0 ∨ t.running i = true) :
    (i ∉ grants s es → (grants s es).Nodup) ∧ (8 ≤ (grants s es).length → i ∈ grants s es) := by
  have ready : ∀ r ∈ (switchPoints s es).map running, i = 0 ∨ r i = true := by
    intro r member
    obtain ⟨t, here, rfl⟩ := List.mem_map.mp member
    exact waiting t (switchPoints_states s es t here)
  rw [grants_visits]
  refine ⟨fun missed => (RoundRobin.bypass ready missed).1, fun many => ?_⟩
  by_contra missed
  have few := (RoundRobin.bypass ready missed).2
  omega

/-- All eight threads, the stack of each 2000 bytes above the last one. -/
def fullHouse : Threads :=
  let new (k : Nat) : ThreadEvent := .addThread (-1) 0 (2000 * k)
  (run step (boot 1000 ⟨.zero, 0⟩ 2000 4000) [new 3, new 4, new 5, new 6, new 7]).getD
    (boot 1000 ⟨.zero, 0⟩ 2000 4000)

/-- The threads yield one after the other, from `loop` on. -/
def yields (n : Nat) : List ThreadEvent := (List.range n).map fun k => .yield ⟨.zero, 2000 * (k % 8) + 500⟩

/-- `heartBeatThread` waits from its first turn on: the seven others go first, each
    once, and the eighth turn is its own. -/
theorem bounded_bypass_fullHouse :
    let s := (run step fullHouse (yields 2)).getD fullHouse
    s.currentThread = 2 ∧ (grants s ((yields 9).drop 2)).Nodup ∧ 2 ∈ grants s ((yields 10).drop 2) := by
  intro s
  refine ⟨by decide +kernel, ?_, ?_⟩
  · exact (bounded_bypass (i := 2) (by decide +kernel)).1 (by decide +kernel)
  · exact (bounded_bypass (i := 2) (by decide +kernel)).2 (by decide +kernel)

/-! ## Threads which do not run -/

/-- A step makes no thread able to run but the one it revives. -/
theorem step_idle {s t : Threads} {e : ThreadEvent} {i : ThreadId} (taken : s.step e = some t)
    (other : s.revives e ≠ some i) (runs : t.running i = true) : s.running i = true := by
  rw [running_iff_flags] at runs ⊢
  rcases step_flags taken i with same | ended | ⟨state, written, now⟩
  · rw [← same, runs]
  · rw [ended] at runs
    exact nomatch runs
  · obtain rfl : state = .running := Option.some.inj (now.symm.trans runs)
    exact absurd (by rw [revives, written]; rfl) other

/-- A thread which has ended, was suspended or has overflowed its stack gets the
    processor no more until it is started again. Only `loop` does. -/
theorem stays_off {s : Threads} {es : List ThreadEvent} {i : ThreadId} (off : s.running i = false)
    (asleep : i ∉ revivals s es) : (∀ t ∈ states step s es, t.running i = false) ∧
      (i ≠ 0 → i ∉ grants s es) := by
  induction es generalizing s with
  | nil => exact ⟨fun t member => absurd member List.not_mem_nil, fun _ => List.not_mem_nil⟩
  | cons e es ih =>
      cases taken : s.step e with
      | none =>
          have stopped : states step s (e :: es) = [] := by rw [states, emitted, taken]
          rw [stopped, grants, switchPoints_refused taken]
          exact ⟨fun t member => absurd member List.not_mem_nil, fun _ => List.not_mem_nil⟩
      | some t =>
          rw [revivals_cons taken, List.mem_append, not_or, Option.mem_toList] at asleep
          obtain ⟨other, asleep⟩ := asleep
          have stillOff : t.running i = false := by
            by_contra runs
            have before := step_idle taken other (by simpa using runs)
            rw [off] at before
            exact absurd before (by decide)
          obtain ⟨later, missed⟩ := ih stillOff asleep
          constructor
          · intro u member
            rw [states, emitted_cons taken, List.singleton_append, List.mem_cons] at member
            rcases member with rfl | member
            · exact stillOff
            · exact later u member
          · intro notMain
            cases leaves : s.switches e with
            | none =>
                rw [grants_cons_stayed taken es leaves]
                exact missed notMain
            | some ctx =>
                rw [grants_cons_switched taken es leaves, List.mem_cons, not_or]
                refine ⟨?_, missed notMain⟩
                rintro rfl
                have runs := (step_switched taken leaves).granted_running.resolve_left notMain
                rw [stillOff] at runs
                exact absurd runs (by decide)

theorem stays_off_killed :
    2 ∉ grants (((boot 1000 ⟨.zero, 0⟩ 2000 4000).kill 2).getD (boot 1000 ⟨.zero, 0⟩ 2000 4000))
      [.yield ⟨.zero, 6000⟩, .yield ⟨.zero, 6000⟩] :=
  (stays_off (by decide) (by decide)).2 (by decide)

/-! ## What a thread finds in the processor -/

theorem cpu_of_no_grants {s t : Threads} {es : List ThreadEvent} (reached : run step s es = some t)
    (none : grants s es = []) : t.cpu = s.cpu := by
  induction es generalizing s with
  | nil =>
      obtain rfl : s = t := Option.some.inj reached
      rfl
  | cons e es ih =>
      obtain ⟨u, taken, later⟩ := run_cons_some.mp reached
      cases leaves : s.switches e with
      | none =>
          rw [grants_cons_stayed taken es leaves] at none
          rw [ih later none, (step_stayed taken leaves).cpu]
      | some ctx =>
          rw [grants_cons_switched taken es leaves] at none
          exact absurd none (List.cons_ne_nil _ _)

/-- What a thread was left with lasts until its turn comes, whatever happens in
    between. -/
theorem waits_loaded {s t : Threads} {es : List ThreadEvent} {i : ThreadId} {c : Context}
    {gs : List ThreadId} (left : s.context i = some c) (waits : s.currentThread ≠ i)
    (reached : run step s es = some t) (back : grants s es = gs ++ [i]) (first : i ∉ gs)
    (own : i ∉ additions s es) : Loaded i c t.cpu := by
  induction es generalizing s gs with
  | nil => exact absurd back.symm (by simp [grants, switchPoints, emitted])
  | cons e es ih =>
      obtain ⟨u, taken, later⟩ := run_cons_some.mp reached
      rw [additions_cons taken, List.mem_append, not_or, Option.mem_toList] at own
      obtain ⟨other, own⟩ := own
      cases leaves : s.switches e with
      | none =>
          have stayed := step_stayed taken leaves
          rw [grants_cons_stayed taken es leaves] at back
          refine ih ?_ ?_ later back first own
          · rw [stayed.kept i other, left]
          · rw [stayed.current]
            exact waits
      | some ctx =>
          have switched := step_switched taken leaves
          have kept : u.context i = some c := by rw [switched.context_other waits.symm, left]
          rw [grants_cons_switched taken es leaves] at back
          cases gs with
          | nil =>
              -- The turn of the thread itself, and no switch after it.
              obtain ⟨here, rest⟩ := List.cons_eq_cons.mp back
              obtain ⟨c', found, loaded⟩ := switched.context_loaded
              rw [here] at found loaded
              obtain rfl := Option.some.inj (kept.symm.trans found)
              rw [cpu_of_no_grants later rest]
              exact loaded
          | cons g gs =>
              obtain ⟨here, rest⟩ := List.cons_eq_cons.mp back
              rw [List.mem_cons, not_or] at first
              refine ih kept ?_ later rest first.2 own
              rw [here]
              exact Ne.symm first.1

/-- A thread which is switched away finds at its next turn what it left. -/
theorem departure_loaded {s t : Threads} {e : ThreadEvent} {es : List ThreadEvent} {ctx : Context}
    {gs : List ThreadId} (leaves : s.switches e = some ctx)
    (reached : run step s (e :: es) = some t)
    (back : grants s (e :: es) = gs ++ [s.currentThread]) (first : s.currentThread ∉ gs)
    (own : s.currentThread ∉ additions s (e :: es)) : Loaded s.currentThread ctx t.cpu := by
  obtain ⟨u, taken, later⟩ := run_cons_some.mp reached
  have switched := step_switched taken leaves
  obtain ⟨c, left, regs, psp⟩ := switched.context_left
  rw [grants_cons_switched taken es leaves] at back
  rw [additions_cons taken, List.mem_append, not_or] at own
  have loaded : Loaded s.currentThread c t.cpu := by
    cases gs with
    | nil =>
        obtain ⟨here, rest⟩ := List.cons_eq_cons.mp back
        obtain ⟨c', found, loaded⟩ := switched.context_loaded
        rw [here] at found loaded
        obtain rfl := Option.some.inj (left.symm.trans found)
        rw [cpu_of_no_grants later rest]
        exact loaded
    | cons g gs =>
        obtain ⟨here, rest⟩ := List.cons_eq_cons.mp back
        rw [List.mem_cons, not_or] at first
        refine waits_loaded left ?_ later rest first.2 own.2
        rw [here]
        exact Ne.symm first.1
  refine ⟨by rw [loaded.1, regs], fun notMain => ?_⟩
  rw [loaded.2 notMain, psp notMain]

/-- A thread which an interrupt takes the processor from gets its registers and
    its stack pointer back at its next turn, whatever happens in between. -/
theorem resumed_as_left {s t : Threads} {e : ThreadEvent} {es : List ThreadEvent} {ctx : Context}
    {gs : List ThreadId} (leaves : s.switches e = some ctx)
    (threadMode : ctx.regs.lr = 0xFFFFFFE9 ||| stackBit s.currentThread ∨
      ctx.regs.lr = 0xFFFFFFF9 ||| stackBit s.currentThread)
    (reached : run step s (e :: es) = some t)
    (back : grants s (e :: es) = gs ++ [s.currentThread]) (first : s.currentThread ∉ gs)
    (own : s.currentThread ∉ additions s (e :: es)) :
    t.cpu.regs = ctx.regs ∧ (s.currentThread ≠ 0 → t.cpu.psp = ctx.psp) := by
  obtain ⟨regs, psp⟩ := departure_loaded leaves reached back first own
  rw [restored, excReturn_self threadMode] at regs
  exact ⟨regs, psp⟩

/-- The registers of a thread on its own stack, each with a value of its own. -/
def counted : Context where
  regs := ⟨fun k => UInt32.ofNat (k + 1), 0xFFFFFFED, fun k => UInt32.ofNat (100 + k), 7⟩
  psp := 2600

/-- `ctrlEthernetThread` runs, after `loop` has yielded. -/
def secondTurn : Threads :=
  (run step (boot 1000 ⟨.zero, 0⟩ 2000 4000) [.yield ⟨.zero, 900⟩]).getD (boot 1000 ⟨.zero, 0⟩ 2000 4000)

/-- `heartBeatThread` cuts the slice of `loop` and yields; the timer ends the slice. -/
def others : List ThreadEvent := [.setTimeSlice (turn 0) 1, .yield ⟨.zero, 4900⟩, .tick false ⟨.zero, 900⟩]

theorem resumed_as_left_counted : ∃ t, run step secondTurn (.yield counted :: others) = some t ∧
    t.currentThread = 1 ∧ t.cpu.regs = counted.regs ∧ t.cpu.psp = 2600 := by
  have comesBack : (run step secondTurn (.yield counted :: others)).any
      (fun t => t.currentThread = 1) = true := by decide +kernel
  obtain ⟨t, reached, current⟩ := (Option.any_eq_true _ _).mp comesBack
  have back : grants secondTurn (.yield counted :: others) = [2, 0] ++ [1] := by decide +kernel
  have leaves : secondTurn.switches (.yield counted) = some counted := rfl
  have own : 1 ∉ additions secondTurn (.yield counted :: others) := by decide +kernel
  obtain ⟨regs, psp⟩ := resumed_as_left leaves (.inl rfl) reached back (by decide) own
  exact ⟨t, reached, of_decide_eq_true current, regs, psp (by decide)⟩

/-- The next turn of the running thread, whenever it is switched away. -/
theorem first_departure_loaded {s t : Threads} {es : List ThreadEvent} {gs : List ThreadId}
    (reached : run step s es = some t) (back : grants s es = gs ++ [s.currentThread])
    (first : s.currentThread ∉ gs) (own : s.currentThread ∉ additions s es) :
    ∃ ctx, (departures s es).head? = some ctx ∧ Loaded s.currentThread ctx t.cpu := by
  induction es generalizing s with
  | nil => exact absurd back.symm (List.append_ne_nil_of_right_ne_nil _ (List.cons_ne_nil _ _))
  | cons e es ih =>
      obtain ⟨u, taken, later⟩ := run_cons_some.mp reached
      rw [departures, emitted_cons taken, ← departures]
      cases leaves : s.switches e with
      | none =>
          have stayed := step_stayed taken leaves
          rw [grants_cons_stayed taken es leaves] at back
          rw [additions_cons taken, List.mem_append, not_or] at own
          rw [← stayed.current] at back first own ⊢
          exact ih later back first own.2
      | some ctx => exact ⟨ctx, rfl, departure_loaded leaves reached back first own⟩

/-- A new thread begins below the top of its own stack, in thread mode on the
    process stack. Only when it takes the slot of its caller, which has ended but
    still runs, the frame is lost: the slot's next turn goes on with the caller. -/
theorem new_thread_first_turn {s t : Threads} {stackSize stack heap : Int} {es : List ThreadEvent}
    {i : ThreadId} {gs : List ThreadId} (free : s.freeSlot = some i)
    (reached : run step s (.addThread stackSize stack heap :: es) = some t)
    (back : grants s (.addThread stackSize stack heap :: es) = gs ++ [i]) (first : i ∉ gs)
    (own : i ∉ additions (s.addThread stackSize stack heap).1 es) :
    (s.currentThread ≠ i →
        t.cpu.psp = loadstack (if stack = 0 then heap else stack)
          (if stackSize = -1 then s.defaultStackSize else stackSize) ∧
        t.cpu.regs.lr = 0xFFFFFFFD) ∧
      (s.currentThread = i → ∃ ctx,
        (departures s (.addThread stackSize stack heap :: es)).head? = some ctx ∧
        Loaded i ctx t.cpu) := by
  have taken : s.step (.addThread stackSize stack heap) = some (s.addThread stackSize stack heap).1 := rfl
  have keeps : s.switches (.addThread stackSize stack heap) = none := rfl
  obtain ⟨records, current, -⟩ := addThread_some stackSize stack heap free
  obtain ⟨u, here, later⟩ := run_cons_some.mp reached
  obtain rfl := Option.some.inj (taken.symm.trans here)
  rw [grants_cons_stayed taken es keeps] at back
  constructor
  · intro elsewhere
    have left : (s.addThread stackSize stack heap).1.context i = some (newThread (s.threadp i)
        (if stackSize = -1 then s.defaultStackSize else stackSize) stack heap s.defaultTicks).context := by
      rw [context, records, Function.update_self, Option.map_some]
    obtain ⟨regs, psp⟩ := waits_loaded left (by rw [current]; exact elsewhere) later back first own
    have notMain := (freeSlot_some free).1
    have lr : excReturn i 0xFFFFFFF9 = 0xFFFFFFFD := by
      rw [excReturn, stackBit, if_neg notMain]
      rfl
    refine ⟨psp notMain, ?_⟩
    rw [regs]
    exact lr
  · intro same
    rw [departures, emitted_cons taken, ← departures, keeps]
    rw [← same, ← current] at back first own ⊢
    exact first_departure_loaded later back first own

theorem new_thread_first_turn_yield : ∃ t,
    run step (boot 1000 ⟨.zero, 0⟩ 2000 4000)
      [.addThread 512 8000 0, .yield ⟨.zero, 0⟩, .yield ⟨.zero, 6000⟩, .yield ⟨.zero, 6000⟩] = some t ∧
    t.cpu.psp = 8472 := by
  obtain ⟨t, reached⟩ : ∃ t, run step (boot 1000 ⟨.zero, 0⟩ 2000 4000)
      [.addThread 512 8000 0, .yield ⟨.zero, 0⟩, .yield ⟨.zero, 6000⟩, .yield ⟨.zero, 6000⟩] =
        some t := ⟨_, rfl⟩
  have back : grants (boot 1000 ⟨.zero, 0⟩ 2000 4000)
      [.addThread 512 8000 0, .yield ⟨.zero, 0⟩, .yield ⟨.zero, 6000⟩, .yield ⟨.zero, 6000⟩] =
        [1, 2] ++ [3] := rfl
  obtain ⟨psp, -⟩ := (new_thread_first_turn rfl reached back (by decide) (by decide)).1 (by decide)
  exact ⟨t, reached, psp⟩

end Threads

end GpioCtrlBoard
