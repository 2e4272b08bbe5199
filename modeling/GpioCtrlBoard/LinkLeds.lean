import GpioCtrlBoard.RequestRun

/-! # Link status LEDs

`ctrlEthernetThread` writes the two LEDs when the polled link status differs
from the one it remembers. Both LEDs are active low. The remembered status
starts as 0 while `setup` leaves both LEDs low, so the two agree only after the
first poll which is not 0.
-/

namespace GpioCtrlBoard

/-- The enumerators of the Ethernet layer; `other` is any further value of the
    underlying integer. -/
inductive EthernetLinkStatus where
  | unknown
  | linkON
  | linkOFF
  | other

def ctrlConnection : EthernetLinkStatus → Int
  | .linkON => 1
  | .unknown => -1
  | .linkOFF => 0
  | .other => -2

def mac : List UInt8 := [0xDA, 0xAD, 0xBE, 0xEF, 0xFE, 0xE0]

/-- `Serial.print(octet, HEX)` for every octet, with dashes between. -/
def macText : Str :=
  List.intercalate ['-'] (mac.map fun octet => (Nat.toDigits 16 octet.toNat).map Char.toUpper)

structure LinkThread where
  linkStat : Int
  gpio : Gpio
  serial : List Str

/-- One iteration of the loop of `ctrlEthernetThread`. -/
def ctrlEthernetThread (tmpLinkStat : Int) (localIP : Str) (linkStat : Int) (gpio : Gpio) : LinkThread :=
  if linkStat ≠ tmpLinkStat then
    if tmpLinkStat = 1 then
      { linkStat := tmpLinkStat
        gpio := (gpio.digitalWriteFast stsLedGr .low).digitalWriteFast stsLedOr .high
        serial := ["Link status: connected.".toList, "MAC: ".toList ++ macText,
          "IP: ".toList ++ localIP] }
    else if tmpLinkStat = -1 then
      { linkStat := tmpLinkStat
        gpio := (gpio.digitalWriteFast stsLedGr .high).digitalWriteFast stsLedOr .low
        serial := ["Link status: unknown.".toList] }
    else
      { linkStat := tmpLinkStat
        gpio := (gpio.digitalWriteFast stsLedGr .high).digitalWriteFast stsLedOr .high
        serial := ["Link status: not connected.".toList] }
  else
    { linkStat := linkStat, gpio := gpio, serial := [] }

/-- The levels which show a link status. -/
def LedsShow (linkStat : Int) (gpio : Gpio) : Prop :=
  gpio.level stsLedGr = (if linkStat = 1 then .low else .high) ∧
    gpio.level stsLedOr = if linkStat = -1 then .low else .high

/-- What happens on the board while the thread runs. -/
inductive LinkEvent where
  | poll (tmpLinkStat : Int) (localIP : Str)
  | decode (receivedData : Str)
  | request (received : Str)

def LinkEvent.poll? : LinkEvent → Option Int
  | .poll tmpLinkStat _ => some tmpLinkStat
  | .decode _ | .request _ => none

structure LinkState where
  linkStat : Int
  board : Board

def LinkState.step (s : LinkState) : LinkEvent → LinkState
  | .poll tmpLinkStat localIP =>
    let next := ctrlEthernetThread tmpLinkStat localIP s.linkStat s.board.gpio
    { linkStat := next.linkStat, board := { s.board with gpio := next.gpio } }
  | .decode receivedData => { s with board := (decodeData receivedData s.board).1 }
  | .request received => { s with board := (handleWebServer received s.board).board }

/-- A run from the levels of `setup` and the initial `linkStat`. -/
def linkRun (power : Pin → Level) (es : List LinkEvent) : LinkState :=
  es.foldl LinkState.step { linkStat := 0, board := setup (powerOn power) }

def polls (es : List LinkEvent) : List Int := es.filterMap LinkEvent.poll?

/-! ## One step -/

theorem ctrlEthernetThread_linkStat (v : Int) (ip : Str) (linkStat : Int) (gpio : Gpio) :
    (ctrlEthernetThread v ip linkStat gpio).linkStat = v := by
  by_cases changed : linkStat ≠ v
  · rw [ctrlEthernetThread, if_pos changed]
    split
    · rfl
    · split <;> rfl
  · rw [ctrlEthernetThread, if_neg changed]
    exact not_not.mp changed

/-- A change of status writes both LEDs. -/
theorem ctrlEthernetThread_shows {v : Int} (ip : Str) {linkStat : Int} (gpio : Gpio)
    (changed : linkStat ≠ v) : LedsShow v (ctrlEthernetThread v ip linkStat gpio).gpio := by
  have apart : stsLedGr ≠ stsLedOr := by decide
  rw [ctrlEthernetThread, if_pos changed]
  by_cases on : v = 1
  · simp [LedsShow, apart, on]
  · by_cases unknown : v = -1
    · simp [LedsShow, apart, unknown]
    · simp [LedsShow, apart, on, unknown]

theorem ctrlEthernetThread_silent (v : Int) (ip : Str) (gpio : Gpio) :
    (ctrlEthernetThread v ip v gpio).gpio = gpio := by
  simp [ctrlEthernetThread]

/-- Routes drive port pins only. -/
theorem Route.act_level_other (r : Route) (b : Board) {pin : Pin} (other : ∀ o : Output, pin ≠ o.pin) :
    (r.act b).gpio.level pin = b.gpio.level pin := by
  cases r with
  | portVal cmd => exact decodeData_level_other cmd b other
  | getValues | page => rfl

theorem handleWebServer_level_other (received : Str) (b : Board) {pin : Pin}
    (other : ∀ o : Output, pin ≠ o.pin) :
    (handleWebServer received b).board.gpio.level pin = b.gpio.level pin := by
  by_cases empty : received = []
  · subst empty
    rfl
  · rw [handleWebServer_board empty, Route.act_level_other _ _ other]

/-- No port write disturbs an LED. -/
theorem step_leds_of_no_poll (s : LinkState) {e : LinkEvent} (quiet : e.poll? = none) :
    (s.step e).linkStat = s.linkStat ∧
      (s.step e).board.gpio.level stsLedGr = s.board.gpio.level stsLedGr ∧
      (s.step e).board.gpio.level stsLedOr = s.board.gpio.level stsLedOr := by
  have green : ∀ o : Output, stsLedGr ≠ o.pin := fun o => (led_ne_pin o).1
  have orange : ∀ o : Output, stsLedOr ≠ o.pin := fun o => (led_ne_pin o).2
  cases e with
  | poll v ip => simp [LinkEvent.poll?] at quiet
  | decode s' =>
      exact ⟨rfl, decodeData_level_other s' _ green, decodeData_level_other s' _ orange⟩
  | request received =>
      exact ⟨rfl, handleWebServer_level_other received _ green,
        handleWebServer_level_other received _ orange⟩

/-! ## Whole runs -/

/-- The remembered status is the last poll, and the LEDs show it once some poll
    was not 0; until then they keep the levels of `setup`. -/
structure LinkInvariant (values : List Int) (s : LinkState) : Prop where
  remembered : s.linkStat = values.getLast?.getD 0
  shown : (∃ v ∈ values, v ≠ 0) → LedsShow s.linkStat s.board.gpio
  untouched : (∀ v ∈ values, v = 0) →
    s.board.gpio.level stsLedGr = .low ∧ s.board.gpio.level stsLedOr = .low

theorem setup_leds (b : Board) :
    (setup b).gpio.level stsLedGr = .low ∧ (setup b).gpio.level stsLedOr = .low := by
  have apart : stsLedOr ≠ stsLedGr := by decide
  simp only [setup]
  rw [Gpio.level_drive_other _ _ _ fun o _ => (led_ne_pin o).1,
    Gpio.level_drive_other _ _ _ fun o _ => (led_ne_pin o).2]
  simp [apart]

theorem linkRun_snoc (power : Pin → Level) (es : List LinkEvent) (e : LinkEvent) :
    linkRun power (es ++ [e]) = (linkRun power es).step e := by
  simp only [linkRun, List.foldl_append, List.foldl_cons, List.foldl_nil]

theorem LinkInvariant.start (power : Pin → Level) :
    LinkInvariant [] { linkStat := 0, board := setup (powerOn power) } where
  remembered := rfl
  shown := by simp
  untouched _ := setup_leds _

theorem LinkInvariant.no_poll {values : List Int} {s : LinkState} (inv : LinkInvariant values s)
    {e : LinkEvent} (quiet : e.poll? = none) : LinkInvariant values (s.step e) := by
  obtain ⟨stat, green, orange⟩ := step_leds_of_no_poll s quiet
  constructor
  · exact stat.trans inv.remembered
  · intro some
    simpa only [LedsShow, stat, green, orange] using inv.shown some
  · intro zero
    simpa only [green, orange] using inv.untouched zero

/-- A remembered status which is not the initial one was polled before. -/
theorem LinkInvariant.polled {values : List Int} {s : LinkState} (inv : LinkInvariant values s)
    (nonzero : s.linkStat ≠ 0) : ∃ v ∈ values, v ≠ 0 := by
  have remembered := inv.remembered
  cases last : values.getLast? with
  | none =>
      rw [last] at remembered
      exact absurd remembered nonzero
  | some v =>
      rw [last] at remembered
      exact ⟨v, List.mem_of_getLast? last, fun zero => nonzero (remembered.trans zero)⟩

theorem LinkInvariant.poll {values : List Int} {s : LinkState} (inv : LinkInvariant values s)
    (v : Int) (ip : Str) : LinkInvariant (values ++ [v]) (s.step (.poll v ip)) := by
  have stat : (s.step (.poll v ip)).linkStat = v := ctrlEthernetThread_linkStat v ip _ _
  constructor
  · rw [stat, List.getLast?_concat]
    rfl
  · intro some
    rw [stat]
    by_cases same : s.linkStat = v
    · -- A repeated status is shown already, unless it is the initial 0.
      have before : ∃ u ∈ values, u ≠ 0 := by
        obtain ⟨u, member, nonzero⟩ := some
        rcases List.mem_append.mp member with old | new
        · exact ⟨u, old, nonzero⟩
        · rw [List.mem_singleton.mp new, ← same] at nonzero
          exact inv.polled nonzero
      have shown := inv.shown before
      rw [same] at shown
      simpa only [LinkState.step, same, ctrlEthernetThread_silent] using shown
    · exact ctrlEthernetThread_shows ip _ same
  · intro zero
    have old : ∀ u ∈ values, u = 0 := fun u member => zero u (List.mem_append_left [v] member)
    have same : s.linkStat = v := by
      by_contra changed
      rw [zero v (by simp)] at changed
      obtain ⟨u, member, nonzero⟩ := inv.polled changed
      exact nonzero (old u member)
    simpa only [LinkState.step, same, ctrlEthernetThread_silent] using inv.untouched old

theorem linkRun_invariant (power : Pin → Level) (es : List LinkEvent) :
    LinkInvariant (polls es) (linkRun power es) := by
  induction es using List.reverseRecOn with
  | nil => exact LinkInvariant.start power
  | append_singleton es e ih =>
      have split : polls (es ++ [e]) = polls es ++ e.poll?.toList := by
        cases kind : e.poll? <;> simp [polls, kind]
      rw [linkRun_snoc, split]
      cases e with
      | poll v ip => exact ih.poll v ip
      | decode receivedData =>
          rw [LinkEvent.poll?, Option.toList_none, List.append_nil]
          exact ih.no_poll rfl
      | request received =>
          rw [LinkEvent.poll?, Option.toList_none, List.append_nil]
          exact ih.no_poll rfl

theorem not_ledsShow_zero {gpio : Gpio} (low : gpio.level stsLedGr = .low) : ¬ LedsShow 0 gpio := by
  rintro ⟨green, -⟩
  rw [low] at green
  exact absurd green (by decide)

/-- The LEDs show every polled status of a run iff its first poll is not 0. -/
theorem leds_show_link_iff (power : Pin → Level) (es : List LinkEvent) :
    (∀ pre, pre <+: es → ∀ v, (polls pre).getLast? = some v →
      LedsShow v (linkRun power pre).board.gpio) ↔ (polls es).head? ≠ some 0 := by
  constructor
  · intro all first
    obtain ⟨later, values⟩ := List.head?_eq_some_iff.mp first
    obtain ⟨pre, e, rest, rfl, quiet, poll, -⟩ := List.filterMap_eq_cons_iff.mp values
    have early : polls (pre ++ [e]) = [0] := by
      simp [polls, List.filterMap_eq_nil_iff.mpr quiet, poll]
    have shown := all (pre ++ [e]) ⟨rest, by simp⟩ 0 (by simp [early])
    have inv := linkRun_invariant power (pre ++ [e])
    rw [early] at inv
    exact not_ledsShow_zero (inv.untouched (by simp)).1 shown
  · intro first pre inside v last
    have inv := linkRun_invariant power pre
    have stat : (linkRun power pre).linkStat = v := by rw [inv.remembered, last]; rfl
    rw [← stat]
    apply inv.shown
    obtain ⟨rest, rfl⟩ := inside
    cases values : polls pre with
    | nil => simp [values] at last
    | cons u us =>
        refine ⟨u, List.mem_cons_self, ?_⟩
        rintro rfl
        apply first
        rw [polls, List.filterMap_append]
        change ((polls pre) ++ _).head? = some 0
        simp [values]

theorem link_off_at_start :
    ¬ ∀ pre, pre <+: [LinkEvent.poll (ctrlConnection .linkOFF) []] → ∀ v,
      (polls pre).getLast? = some v → LedsShow v (linkRun (fun _ => .low) pre).board.gpio := by
  intro all
  have shown := all [.poll (ctrlConnection .linkOFF) []] (List.prefix_refl _) 0 rfl
  have inv := linkRun_invariant (fun _ => .low) [.poll (ctrlConnection .linkOFF) []]
  exact not_ledsShow_zero (inv.untouched (by decide)).1 shown

end GpioCtrlBoard
