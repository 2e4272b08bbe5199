import GpioCtrlBoard.WebServer

/-! # Runs of routed requests

Abstractly a run of requests is a list of routes. Its effect splits into three
independent readings of that list: the variables follow the accepted writes of
the `portVal` routes, the pins are driven at all iff there is such a route, and
the counter is the number of `getValues` routes since the last page.
-/

namespace GpioCtrlBoard

open WriteStore

namespace Route

/-- The assignment a route makes. -/
def assigns : Route → Option (Port × UInt8)
  | .portVal cmd => accepted cmd
  | .getValues | .page => none

def isPortVal : Route → Bool
  | .portVal _ => true
  | .getValues | .page => false

/-- The number of `getValues` routes since the last page, or since the start. -/
def sincePage (rs : List Route) : Nat :=
  (rs.reverse.takeWhile fun r => decide (r ≠ .page)).count .getValues

def actAll (rs : List Route) (b : Board) : Board := rs.foldl (fun b r => r.act b) b

theorem actAll_snoc (rs : List Route) (r : Route) (b : Board) :
    actAll (rs ++ [r]) b = r.act (actAll rs b) := by
  simp only [actAll, List.foldl_append, List.foldl_cons, List.foldl_nil]

theorem act_val (r : Route) (b : Board) : (r.act b).val = writeAll b.val r.assigns.toList := by
  cases r with
  | portVal cmd => exact decodeData_val cmd b
  | getValues | page => funext x; cases x <;> rfl

theorem act_gpio (r : Route) (b : Board) :
    (r.act b).gpio =
      if r.isPortVal then b.gpio.drive outputs (portImage (r.act b).val) else b.gpio := by
  cases r with
  | portVal cmd => exact decodeData_gpio cmd b
  | getValues | page => rfl

theorem actAll_val (rs : List Route) (b : Board) :
    (actAll rs b).val = writeAll b.val (rs.filterMap assigns) := by
  induction rs using List.reverseRecOn with
  | nil => rfl
  | append_singleton rs r ih =>
      have last : [r].filterMap assigns = r.assigns.toList := by
        cases h : r.assigns <;> simp [h]
      rw [actAll_snoc, act_val, ih, List.filterMap_append, last, writeAll_append]

/-- The pins show the final variables if any route drove them. -/
theorem actAll_level (rs : List Route) (b : Board) :
    (actAll rs b).gpio.level =
      if rs.any isPortVal then (b.gpio.drive outputs (portImage (actAll rs b).val)).level
      else b.gpio.level := by
  induction rs using List.reverseRecOn with
  | nil => rfl
  | append_singleton rs r ih =>
      rw [actAll_snoc, act_gpio, List.any_append]
      cases kind : r.isPortVal with
      | true =>
          simp only [if_true, List.any_cons, kind, Bool.true_or, Bool.or_true]
          rw [Gpio.level_drive, ih]
          split
          · rw [← Gpio.level_drive, Gpio.level_drive_drive]
          · rw [Gpio.level_drive]
      | false =>
          have same : (r.act (actAll rs b)).val = (actAll rs b).val := by
            rw [act_val]
            cases r with
            | portVal cmd => simp [isPortVal] at kind
            | getValues | page => rfl
          simpa only [Bool.false_eq_true, if_false, List.any_cons, kind, List.any_nil,
            Bool.or_false, same] using ih

theorem sincePage_page (rs : List Route) : sincePage (rs ++ [.page]) = 0 := by
  simp [sincePage]

theorem sincePage_getValues (rs : List Route) :
    sincePage (rs ++ [.getValues]) = sincePage rs + 1 := by
  simp [sincePage]

theorem sincePage_portVal (rs : List Route) (cmd : Str) :
    sincePage (rs ++ [.portVal cmd]) = sincePage rs := by
  simp [sincePage]

theorem actAll_count (rs : List Route) (b : Board) :
    (actAll rs b).count =
      (if Route.page ∈ rs then 0 else b.count) + UInt32.ofNat (sincePage rs) := by
  induction rs using List.reverseRecOn with
  | nil => simp [actAll, sincePage]
  | append_singleton rs r ih =>
      rw [actAll_snoc]
      cases r with
      | portVal cmd =>
          simp only [act, decodeData_count, ih, sincePage_portVal, List.mem_append,
            List.mem_singleton, reduceCtorEq, or_false]
      | getValues =>
          simp only [act, ih, sincePage_getValues, List.mem_append, List.mem_singleton,
            reduceCtorEq, or_false, UInt32.ofNat_add, UInt32.add_assoc]
          rfl
      | page =>
          simp only [act, sincePage_page, List.mem_append, List.mem_singleton, or_true, if_true]
          rfl

end Route

end GpioCtrlBoard
