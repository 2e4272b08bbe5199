import GpioCtrlBoard.Threads

/-! # Time slices

Between two switches the timer interrupt counts down the slice of the running
thread. While the same threads are able to run, the pair of the running thread and
its count moves like the token of a round robin, and the processor is shared out
by the slices.
-/

namespace GpioCtrlBoard

open LabelledRun

namespace Threads

/-- The count with which a thread starts its turn. -/
def slice (s : Threads) (i : ThreadId) : Nat :=
  match s.threadp i with
  | some thread => thread.ticks.toNat
  | none => 0

/-- The running thread with what is left of its slice. -/
def token (s : Threads) : RoundRobin.Token 7 := ⟨s.currentThread, s.currentCount.toNat⟩

/-- The thread which has the processor at each event of a run. -/
def holders : Threads → List ThreadEvent → List ThreadId := emitted step fun s _ _ => [s.currentThread]

theorem isSome_setThread {s : Threads} {i : ThreadId} (id : ThreadId) (thread : ThreadInfo)
    (found : (s.threadp i).isSome) : ((s.setThread id thread).threadp i).isSome := by
  by_cases same : i = id
  · rw [same, threadp_setThread_self]
    rfl
  · rw [threadp_setThread_other s thread same]
    exact found

/-- With records for `loop` and for the running thread the switch goes through. -/
theorem getNextThread_isSome {s : Threads} (current : (s.threadp s.currentThread).isSome)
    (main : (s.threadp 0).isSome) : ∃ t, s.getNextThread = some t ∧ (t.threadp t.currentThread).isSome := by
  obtain ⟨thread, found⟩ := Option.isSome_iff_exists.mp current
  let u := s.setThread s.currentThread (checkStack s.currentThread { thread with sp := s.currentSP })
  have next : (u.threadp (RoundRobin.next u.running s.currentThread)).isSome := by
    rcases RoundRobin.next_cases u.running s.currentThread with ⟨wrapped, -⟩ | ⟨-, isReady, -⟩
    · rw [wrapped]
      exact isSome_setThread _ _ main
    · obtain ⟨thread', found', -⟩ := running_iff.mp isReady
      rw [found']
      rfl
  obtain ⟨thread', found'⟩ := Option.isSome_iff_exists.mp next
  simp only [getNextThread, Option.bind_eq_bind, Option.pure_def, Option.bind_eq_some_iff,
    Option.some.injEq]
  exact ⟨_, ⟨thread, found, thread', found', rfl⟩, next⟩

theorem callDirectActive_isSome {s : Threads} (ctx : Context)
    (current : (s.threadp s.currentThread).isSome) (main : (s.threadp 0).isSome) :
    ∃ t, s.callDirectActive ctx = some t := by
  obtain ⟨thread, found⟩ := Option.isSome_iff_exists.mp current
  obtain ⟨u, chosen, loads⟩ := getNextThread_isSome
    (s := { s.setThread s.currentThread { thread with save := ctx.regs } with
      currentSP := if s.currentThread = 0 then s.currentSP else ctx.psp })
    (isSome_setThread _ _ current) (isSome_setThread _ _ main)
  obtain ⟨next, foundNext⟩ := Option.isSome_iff_exists.mp loads
  simp only [callDirectActive, Option.bind_eq_bind, Option.pure_def, Option.bind_eq_some_iff,
    Option.some.injEq]
  exact ⟨_, thread, found, u, chosen, next, foundNext, rfl⟩

theorem checkStack_ticks (i : ThreadId) (thread : ThreadInfo) :
    (checkStack i thread).ticks = thread.ticks := by
  rw [checkStack]
  split <;> rfl

theorem Switched.slice {s t : Threads} {ctx : Context} (switched : Switched s ctx t) :
    t.slice = s.slice := by
  obtain ⟨thread, found, records⟩ := switched.stored
  funext i
  rw [Threads.slice, records, Threads.slice]
  by_cases same : i = s.currentThread
  · subst same
    rw [Function.update_self, found]
    simp only [parked, checkStack_ticks]
  · rw [Function.update_of_ne same]

/-- A thread begins its turn with its whole slice. -/
theorem Switched.token {s t : Threads} {ctx : Context} (switched : Switched s ctx t) :
    t.token = RoundRobin.arrive t.slice (RoundRobin.next t.running s.currentThread) := by
  obtain ⟨thread, found, count, -, -⟩ := switched.loaded
  rw [Threads.token, RoundRobin.arrive, ← switched.chosen, Threads.slice, found, count]

theorem toNat_sub_one {n : UInt32} (notZero : n ≠ 0) : (n - 1).toNat + 1 = n.toNat := by
  have positive : 0 < n.toNat := Nat.pos_of_ne_zero fun zero => notZero (UInt32.toNat_inj.mp zero)
  rw [UInt32.toNat_sub_of_le n 1 (UInt32.le_iff_toNat_le.mpr positive)]
  exact Nat.sub_add_cancel positive

/-- The timer shares the processor out among the threads in `ready`. -/
structure Sharing (ready : ThreadId → Bool) (w : ThreadId → Nat) (s : Threads) : Prop where
  active : s.currentActive = .started
  main : (s.threadp 0).isSome
  running : s.running = ready
  slice : s.slice = w
  onRing : RoundRobin.OnRing ready w s.token

section Tick

variable {ready : ThreadId → Bool} {w : ThreadId → Nat} {s : Threads} (sharing : Sharing ready w s)
include sharing

theorem Sharing.current : (s.threadp s.currentThread).isSome := by
  rcases (RoundRobin.mem_ring ready).mp sharing.onRing.1 with main | isReady
  · have here : s.currentThread = 0 := main
    rw [here]
    exact sharing.main
  · rw [← sharing.running] at isReady
    obtain ⟨thread, found, -⟩ := running_iff.mp isReady
    have here : s.threadp s.currentThread = some thread := found
    rw [here]
    rfl

/-- A tick moves the token by one. -/
theorem Sharing.tick (ctx : Context) (steady : ∀ t, s.step (.tick false ctx) = some t → t.running = ready) :
    ∃ t, s.step (.tick false ctx) = some t ∧ Sharing ready w t ∧
      t.token = RoundRobin.tick ready w s.token := by
  have moved := RoundRobin.onRing_tick sharing.onRing
  by_cases due : s.currentCount = 0
  · -- The slice is used up.
    obtain ⟨t, switched⟩ := callDirectActive_isSome ctx sharing.current sharing.main
    have taken : s.step (.tick false ctx) = some t := by
      rw [step, contextSwitch, if_neg Bool.false_ne_true, contextSwitchCheck, if_pos due, callDirect,
        if_pos sharing.active, switched]
    obtain ⟨spec, active⟩ := callDirectActive_switched switched
    have slice : t.slice = w := by rw [spec.slice, sharing.slice]
    have token : t.token = RoundRobin.tick ready w s.token := by
      rw [spec.token, slice, steady t taken, Threads.token, due]
      rfl
    obtain ⟨thread, -, records⟩ := spec.stored
    have main : (t.threadp 0).isSome := by
      have kept := isSome_setThread s.currentThread (s.parked ctx thread) sharing.main
      rw [setThread] at kept
      rw [records]
      exact kept
    exact ⟨t, taken, ⟨active.trans sharing.active, main, steady t taken, slice,
      by rw [token]; exact moved⟩, token⟩
  · -- One tick less is left.
    have taken : s.step (.tick false ctx) = some { s with currentCount := s.currentCount - 1 } := by
      rw [step, contextSwitch, if_neg Bool.false_ne_true, contextSwitchCheck, if_neg due]
    have fewer := toNat_sub_one due
    have token : ({ s with currentCount := s.currentCount - 1 } : Threads).token =
        RoundRobin.tick ready w s.token := by
      rw [Threads.token, Threads.token, ← fewer]
      rfl
    exact ⟨_, taken, ⟨sharing.active, sharing.main, sharing.running, sharing.slice,
      by rw [token]; exact moved⟩, token⟩

end Tick

/-- The threads whose stack is found used up in a run. -/
def overflowed : Threads → List ThreadEvent → List ThreadId :=
  emitted step fun s e _ => if s.overflows e then [s.currentThread] else []

/-! ## Plain runs -/

/-- Records for `loop` and the running thread, and a system which is started. -/
structure Switching (s : Threads) : Prop where
  active : s.currentActive = .started
  main : (s.threadp 0).isSome
  current : (s.threadp s.currentThread).isSome

theorem Switching.progress {s : Threads} {e : ThreadEvent} (switching : Switching s) (isPlain : plain e = true) :
    ∃ t, s.step e = some t ∧ Switching t := by
  have switched : ∀ ctx, s.switches e = some ctx → s.step e = s.callDirectActive ctx →
      ∃ t, s.step e = some t ∧ Switching t := by
    intro ctx leaves same
    obtain ⟨t, taken⟩ := callDirectActive_isSome ctx switching.current switching.main
    obtain ⟨spec, active⟩ := callDirectActive_switched taken
    obtain ⟨thread, -, records⟩ := spec.stored
    obtain ⟨next, found, -⟩ := spec.loaded
    have main := isSome_setThread s.currentThread (s.parked ctx thread) switching.main
    rw [setThread] at main
    exact ⟨t, by rw [same, taken], active.trans switching.active, by rw [records]; exact main,
      by rw [found]; rfl⟩
  cases e with
  | yield ctx =>
      have leaves : s.switches (.yield ctx) = some ctx := by rw [switches, if_pos switching.active]
      exact switched ctx leaves (by rw [step, callDirect, if_pos switching.active])
  | tick nested ctx =>
      by_cases due : nested = false ∧ s.currentCount = 0
      · have leaves : s.switches (.tick nested ctx) = some ctx := by
          rw [switches, if_pos ⟨due.1, due.2, switching.active⟩]
        refine switched ctx leaves ?_
        rw [step, contextSwitch, due.1, if_neg Bool.false_ne_true, contextSwitchCheck,
          if_pos due.2, callDirect, if_pos switching.active]
      · have stays : ∃ count, s.step (.tick nested ctx) = some { s with currentCount := count } := by
          cases nested with
          | true => exact ⟨s.currentCount, rfl⟩
          | false =>
              have notDue : s.currentCount ≠ 0 := fun zero => due ⟨rfl, zero⟩
              exact ⟨s.currentCount - 1, by
                rw [step, contextSwitch, if_neg Bool.false_ne_true, contextSwitchCheck,
                  if_neg notDue]⟩
        obtain ⟨count, taken⟩ := stays
        exact ⟨_, taken, switching.active, switching.main, switching.current⟩
  | _ => exact absurd isPlain Bool.false_ne_true

/-- A switch which finds room on the stack leaves the flags as they are. -/
theorem running_of_fits {s t : Threads} {e : ThreadEvent} (isPlain : plain e = true)
    (taken : s.step e = some t) (fits : s.overflows e = false) : t.running = s.running := by
  cases leaves : s.switches e with
  | some ctx =>
      obtain ⟨thread, found, records⟩ := (step_switched taken leaves).stored
      rw [overflows, leaves, found] at fits
      have flags := parked_flags (s := s) (of_decide_eq_false fits)
      funext i
      rw [running, running, records]
      by_cases same : i = s.currentThread
      · subst same
        rw [Function.update_self, found]
        simp only [flags]
      · rw [Function.update_of_ne same]
  | none =>
      obtain ⟨-, -, records⟩ := plain_stayed isPlain taken leaves
      funext i
      rw [running, running, records]

/-- While no stack overflows, plain runs go on and switch round the same threads. -/
theorem Switching.run {s : Threads} {es : List ThreadEvent} (switching : Switching s)
    (own : ∀ e ∈ es, plain e = true) (fits : overflowed s es = []) :
    (∃ t, LabelledRun.run step s es = some t) ∧ ∀ t ∈ states step s es, t.running = s.running := by
  induction es generalizing s with
  | nil => exact ⟨⟨s, rfl⟩, fun t member => absurd member List.not_mem_nil⟩
  | cons e es ih =>
      have isPlain := own e List.mem_cons_self
      obtain ⟨t, taken, kept⟩ := switching.progress isPlain
      rw [overflowed, emitted_cons taken, List.append_eq_nil_iff] at fits
      obtain ⟨room, fits⟩ := fits
      have same := running_of_fits isPlain taken (by simpa using room)
      obtain ⟨⟨u, later⟩, steady⟩ := ih kept (fun e member => own e (List.mem_cons_of_mem _ member)) fits
      refine ⟨⟨u, run_cons_some.mpr ⟨t, taken, later⟩⟩, fun v member => ?_⟩
      rw [states, emitted_cons taken, List.singleton_append, List.mem_cons] at member
      rcases member with rfl | member
      · exact same
      · rw [steady v member, same]

/-! ## Runs of ticks -/

/-- Interrupts of the timer, with the registers which each of them finds. -/
def ticks (ctxs : List Context) : List ThreadEvent := ctxs.map (.tick false)

theorem Sharing.run {ready : ThreadId → Bool} {w : ThreadId → Nat} {s : Threads}
    (sharing : Sharing ready w s) (ctxs : List Context)
    (steady : ∀ t ∈ states step s (ticks ctxs), t.running = ready) :
    ∃ t, LabelledRun.run step s (ticks ctxs) = some t ∧
      t.token = (RoundRobin.tick ready w)^[ctxs.length] s.token ∧
      holders s (ticks ctxs) = RoundRobin.holders ready w ctxs.length s.token := by
  induction ctxs generalizing s with
  | nil => exact ⟨s, rfl, rfl, rfl⟩
  | cons ctx ctxs ih =>
      have split : ticks (ctx :: ctxs) = .tick false ctx :: ticks ctxs := rfl
      have here : ∀ t, s.step (.tick false ctx) = some t →
          states step s (ticks (ctx :: ctxs)) = t :: states step t (ticks ctxs) := fun t taken => by
        rw [split, states, emitted_cons taken]
        rfl
      obtain ⟨t, taken, kept, moved⟩ := sharing.tick ctx fun t taken =>
        steady t (by rw [here t taken]; exact List.mem_cons_self)
      obtain ⟨u, reached, token, held⟩ := ih kept fun u member =>
        steady u (by rw [here t taken]; exact List.mem_cons_of_mem _ member)
      refine ⟨u, ?_, ?_, ?_⟩
      · rw [split, run_cons_some]
        exact ⟨t, taken, reached⟩
      · rw [token, moved, List.length_cons, Function.iterate_succ_apply]
      · rw [split, holders, emitted_cons taken, ← holders, held, moved]
        rfl

end Threads

end GpioCtrlBoard
