import GpioCtrlBoard.Scheduling
import GpioCtrlBoard.TimeSlices

/-! # The threads of the board

`setup` adds `ctrlEthernetThread` and `heartBeatThread` next to `loop`. The code of
the board only yields and is interrupted by the timer, so that the three take turns
for as long as no stack overflows.
-/

namespace GpioCtrlBoard

open LabelledRun

namespace Threads

/-! ## Turns -/

/-- While the same threads are able to run, the turns go round in the order of the slots. -/
theorem grants_steady {s : Threads} {es : List ThreadEvent}
    (steady : ∀ t ∈ states step s es, t.running = s.running) :
    grants s es = (List.range (grants s es).length).map fun k =>
      (RoundRobin.next s.running)^[k + 1] s.currentThread := by
  have readies : (switchPoints s es).map running =
      List.replicate (grants s es).length s.running := by
    refine List.eq_replicate_iff.mpr ⟨by rw [grants, List.length_map, List.length_map], ?_⟩
    intro r member
    obtain ⟨t, here, rfl⟩ := List.mem_map.mp member
    exact steady t (switchPoints_states s es t here)
  rw [← RoundRobin.visits_replicate, ← readies, ← grants_visits]

theorem next_turn {ready : ThreadId → Bool} (three : ∀ i, ready i = decide (i ≤ 2)) (k : Nat) :
    RoundRobin.next ready (turn k) = turn (k + 1) := by
  obtain rfl : ready = fun i => decide (i ≤ 2) := funext three
  have small : k % 3 = 0 ∨ k % 3 = 1 ∨ k % 3 = 2 := by omega
  rcases small with rest | rest | rest
  · have later : (k + 1) % 3 = 1 := by omega
    rw [turn, turn, rest, later]
    decide
  · have later : (k + 1) % 3 = 2 := by omega
    rw [turn, turn, rest, later]
    decide
  · have later : (k + 1) % 3 = 0 := by omega
    rw [turn, turn, rest, later]
    decide

theorem iterate_next_turn {ready : ThreadId → Bool} (three : ∀ i, ready i = decide (i ≤ 2)) (k : Nat) :
    (RoundRobin.next ready)^[k] (turn 0) = turn k := by
  induction k with
  | zero => rfl
  | succ k ih => rw [Function.iterate_succ_apply', ih, next_turn three]

theorem boot_running (estack : Int) (cpu : Context) (heapEthernet heapHeartBeat : Int) (i : ThreadId) :
    (boot estack cpu heapEthernet heapHeartBeat).running i = decide (i ≤ 2) := by
  fin_cases i <;> rfl

/-- After `setup` the three threads get the processor strictly in turn,
    `ctrlEthernetThread` first, whatever the mix of yields and used up slices, and
    no switch ever fails. -/
theorem board_turns {estack : Int} {cpu : Context} {heapEthernet heapHeartBeat : Int}
    {es : List ThreadEvent} (own : ∀ e ∈ es, plain e = true)
    (fits : overflowed (boot estack cpu heapEthernet heapHeartBeat) es = []) :
    (∃ t, LabelledRun.run step (boot estack cpu heapEthernet heapHeartBeat) es = some t) ∧
      grants (boot estack cpu heapEthernet heapHeartBeat) es =
        (List.range (departures (boot estack cpu heapEthernet heapHeartBeat) es).length).map
          fun k => turn (k + 1) := by
  obtain ⟨reached, steady⟩ := Switching.run ⟨rfl, rfl, rfl⟩ own fits
  refine ⟨reached, ?_⟩
  rw [grants_steady steady, length_grants]
  refine List.map_congr_left fun k _ => ?_
  exact iterate_next_turn (boot_running estack cpu heapEthernet heapHeartBeat) (k + 1)

theorem board_turns_yields :
    grants (boot 1000 ⟨.zero, 0⟩ 2000 4000) (List.replicate 4 (.yield ⟨.zero, 6000⟩)) = [1, 2, 0, 1] :=
  (board_turns (by decide) (by decide)).2

end Threads

end GpioCtrlBoard
