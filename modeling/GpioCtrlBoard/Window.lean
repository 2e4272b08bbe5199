import GpioCtrlBoard.Switching

/-! # The attenuator window

Whether a row is switched on is stored twice: as its bits in the script's
copies and as the colour of its button. `setCmd` toggles both, the colour only
if `configure` returns; `Send` toggles the bits alone. The two stay together
exactly as long as the steps which toggle the bits alone come in pairs.
-/

namespace GpioCtrlBoard

open WriteStore

/-- A button of the window, by its row. -/
abbrev Button := Fin tableVal.length

def Button.row (btn : Button) : Row := tableVal.get btn

inductive Background where
  | systemButtonFace
  | lime
  deriving DecidableEq

/-- `btnColor` holds 0, `True` or `False`; only its truth is ever looked at. -/
structure Window where
  session : Session
  btnColor : Button → Bool
  bg : Button → Background

def Window.initial (b : Board) : Window where
  session := ⟨.initial, b⟩
  btnColor := fun _ => false
  bg := fun _ => .systemButtonFace

/-- The `try` block of `setCmd`; `raises` says whether `configure` does. -/
def Window.recolour (w : Window) (btn : Button) (raises : Bool) : Window :=
  if raises then w
  else
    { w with
      bg := Function.update w.bg btn (if w.btnColor btn then .systemButtonFace else .lime)
      btnColor := Function.update w.btnColor btn (!w.btnColor btn) }

def setCmd (btn : Button) (raises : Bool) (fate : Nat → Delivery) (w : Window) : Window :=
  let w := w.recolour btn raises
  { w with session := (setDevice btn.row.name fate w.session).1 }

/-- A click on a table button, or on `Send` with a text in the output box. -/
inductive WindowEvent where
  | click (btn : Button) (raises : Bool) (fate : Nat → Delivery)
  | send (text : String) (fate : Nat → Delivery)

namespace WindowEvent

def act (w : Window) : WindowEvent → Window
  | click btn raises fate => setCmd btn raises fate w
  | send text fate => { w with session := (setDevice text fate w.session).1 }

/-- The call of `setDevice` which every event makes. -/
def call : WindowEvent → Call
  | click btn _ fate => ⟨btn.row.name, fate⟩
  | send text fate => ⟨text, fate⟩

/-- The event toggles the colour of a button. -/
def recolours (btn : Button) : WindowEvent → Bool
  | click btn' raises _ => btn' = btn && !raises
  | send _ _ => false

/-- The event gives the command of a button without toggling its colour. -/
def misleads (btn : Button) : WindowEvent → Bool
  | click btn' raises _ => btn' = btn && raises
  | send text _ => text = btn.row.name

end WindowEvent

def runWindow (b : Board) (es : List WindowEvent) : Window :=
  es.foldl WindowEvent.act (.initial b)

theorem runWindow_snoc (b : Board) (es : List WindowEvent) (e : WindowEvent) :
    runWindow b (es ++ [e]) = e.act (runWindow b es) := by
  simp only [runWindow, List.foldl_append, List.foldl_cons, List.foldl_nil]

/-- All bits of the row's mask are set. -/
def Script.AllSet (s : Script) (row : Row) : Prop :=
  ∀ x i, (row.mask x).testBit i → (s.port x).testBit i

/-- The rows whose colour means something. -/
def Row.Switches (row : Row) : Prop := row.name ≠ "READ" ∧ ∃ x, row.mask x ≠ 0

def Window.Truthful (w : Window) : Prop :=
  ∀ btn : Button, btn.row.Switches → (w.btnColor btn ↔ w.session.script.AllSet btn.row)

/-! ## The two copies over a run -/

theorem act_session (e : WindowEvent) (w : Window) :
    (e.act w).session = (setDevice e.call.cmd e.call.fate w.session).1 := by
  cases e with
  | click btn raises fate =>
      cases raises with
      | true | false => rfl
  | send text fate => rfl

theorem runWindow_session (b : Board) (es : List WindowEvent) :
    (runWindow b es).session = runCalls (es.map WindowEvent.call) ⟨.initial, b⟩ := by
  induction es using List.reverseRecOn with
  | nil => rfl
  | append_singleton es e ih =>
      rw [runWindow_snoc, act_session, ih, List.map_append]
      exact (runCalls_snoc _ _ _).symm

theorem act_btnColor (e : WindowEvent) (w : Window) (btn : Button) :
    (e.act w).btnColor btn = (w.btnColor btn ^^ e.recolours btn) := by
  cases e with
  | send text fate => simp [WindowEvent.act, WindowEvent.recolours]
  | click btn' raises fate =>
      cases raises with
      | true => simp [WindowEvent.act, setCmd, Window.recolour, WindowEvent.recolours]
      | false =>
          by_cases same : btn' = btn
          · subst same
            simp [WindowEvent.act, setCmd, Window.recolour, WindowEvent.recolours]
          · simp [WindowEvent.act, setCmd, Window.recolour, WindowEvent.recolours, same,
              Function.update_of_ne (Ne.symm same)]

theorem runWindow_btnColor (b : Board) (es : List WindowEvent) (btn : Button) :
    (runWindow b es).btnColor btn ↔ Odd (es.countP (WindowEvent.recolours btn)) := by
  induction es using List.reverseRecOn with
  | nil => simp [runWindow, Window.initial]
  | append_singleton es e ih =>
      rw [runWindow_snoc, act_btnColor, List.countP_append, Nat.odd_add, ← ih]
      cases (runWindow b es).btnColor btn <;> cases flipped : e.recolours btn <;> simp [flipped]

/-- The background is lime exactly where `btnColor` is set. -/
theorem runWindow_bg (b : Board) (es : List WindowEvent) (btn : Button) :
    (runWindow b es).bg btn = .lime ↔ (runWindow b es).btnColor btn := by
  induction es using List.reverseRecOn with
  | nil => simp [runWindow, Window.initial]
  | append_singleton es e ih =>
      rw [runWindow_snoc]
      cases e with
      | send text fate => exact ih
      | click btn' raises fate =>
          cases raises with
          | true => exact ih
          | false =>
              by_cases same : btn' = btn
              · subst same
                simp only [WindowEvent.act, setCmd, Window.recolour, Bool.false_eq_true, if_false,
                  Function.update_self]
                cases (runWindow b es).btnColor btn' <;> simp
              · simpa [WindowEvent.act, setCmd, Window.recolour,
                  Function.update_of_ne (Ne.symm same)] using ih

theorem names_nodup : (tableVal.map Row.name).Nodup := by decide +kernel

theorem Button.row_mem (btn : Button) : btn.row ∈ tableVal := List.get_mem tableVal btn

theorem Button.name_injective {btn btn' : Button} (same : btn'.row.name = btn.row.name) : btn' = btn := by
  have distinct := List.nodup_iff_injective_get.mp (List.Nodup.of_map Row.name names_nodup)
  apply distinct
  exact List.inj_on_of_nodup_map names_nodup btn'.row_mem btn.row_mem same

/-- An event gives the command of a button by recolouring it or by misleading. -/
theorem countP_command (es : List WindowEvent) (btn : Button) :
    ((es.map WindowEvent.call).map Call.cmd).count btn.row.name =
      es.countP (WindowEvent.recolours btn) + es.countP (WindowEvent.misleads btn) := by
  induction es with
  | nil => rfl
  | cons e es ih =>
      have step : (if e.call.cmd = btn.row.name then 1 else 0) =
          (if e.recolours btn then 1 else 0) + if e.misleads btn then 1 else 0 := by
        cases e with
        | send text fate =>
            by_cases named : text = btn.row.name
            · simp [WindowEvent.call, WindowEvent.recolours, WindowEvent.misleads, named]
            · simp [WindowEvent.call, WindowEvent.recolours, WindowEvent.misleads, named]
        | click btn' raises fate =>
            have named : btn'.row.name = btn.row.name ↔ btn' = btn :=
              ⟨Button.name_injective, fun same => by rw [same]⟩
            simp only [WindowEvent.call, WindowEvent.recolours, WindowEvent.misleads, named]
            by_cases same : btn' = btn
            · cases raises with
              | true | false => simp [same]
            · simp [same]
      simp only [List.map_cons, List.count_cons, List.countP_cons, beq_iff_eq, ih, step]
      omega

/-- The bits of a switching row follow the parity of its command. -/
theorem allSet_iff {row : Row} (member : row ∈ tableVal) (switches : row.Switches)
    (calls : List Call) (b : Board) :
    (runCalls calls ⟨.initial, b⟩).script.AllSet row ↔
      Odd ((calls.map Call.cmd).count row.name) := by
  obtain ⟨-, x, nonzero⟩ := switches
  obtain ⟨i, bit⟩ := Nat.exists_testBit_of_ne_zero nonzero
  constructor
  · intro all
    exact (testBit_of_row member bit calls b).mp (all x i bit)
  · intro odd x i bit
    exact (testBit_of_row member bit calls b).mpr odd

theorem truthful_at_iff (b : Board) (es : List WindowEvent) {btn : Button} (switches : btn.row.Switches) :
    ((runWindow b es).btnColor btn ↔ (runWindow b es).session.script.AllSet btn.row) ↔
      Even (es.countP (WindowEvent.misleads btn)) := by
  rw [runWindow_btnColor, runWindow_session, allSet_iff btn.row_mem switches, countP_command,
    Nat.odd_add]
  by_cases odd : Odd (es.countP (WindowEvent.recolours btn))
  · simp only [odd, true_iff]
  · simp only [odd, false_iff, not_not]

/-- After a run the colours tell the truth iff every row was misled an even
    number of times; they do so all along iff no step misleads. -/
theorem colours_truthful_iff (b : Board) (es : List WindowEvent) :
    ((runWindow b es).Truthful ↔
      ∀ btn : Button, btn.row.Switches → Even (es.countP (WindowEvent.misleads btn))) ∧
    ((∀ pre, pre <+: es → (runWindow b pre).Truthful) ↔
      ∀ e ∈ es, ∀ btn : Button, btn.row.Switches → e.misleads btn = false) := by
  have final : ∀ es, (runWindow b es).Truthful ↔
      ∀ btn : Button, btn.row.Switches → Even (es.countP (WindowEvent.misleads btn)) := by
    intro es
    constructor
    · intro truthful btn switches
      exact (truthful_at_iff b es switches).mp (truthful btn switches)
    · intro even btn switches
      exact (truthful_at_iff b es switches).mpr (even btn switches)
  refine ⟨final es, ?_⟩
  constructor
  · intro always e member btn switches
    obtain ⟨pre, post, rfl⟩ := List.append_of_mem member
    have before := (final pre).mp (always pre (List.prefix_append _ _)) btn switches
    have after := (final (pre ++ [e])).mp (always (pre ++ [e]) ⟨post, by simp⟩) btn switches
    -- One more misleading step would change the parity.
    rw [List.countP_append, Nat.even_add] at after
    have last := after.mp before
    cases misled : e.misleads btn with
    | false => rfl
    | true => simp [misled] at last
  · intro none pre inside
    rw [final]
    intro btn switches
    have zero : pre.countP (WindowEvent.misleads btn) = 0 := by
      rw [List.countP_eq_zero]
      intro e member
      rw [none e (inside.subset member) btn switches]
      exact Bool.false_ne_true
    rw [zero]
    exact Even.zero

/-- Sending the text of a row switches it on and leaves its button grey. -/
theorem send_misleads : ¬ (runWindow (setup (powerOn fun _ => .low))
    [.send "CAL ON" fun _ => .answered]).Truthful := by
  intro truthful
  let calOn : Button := ⟨0, by decide⟩
  have switches : calOn.row.Switches := ⟨by decide +kernel, .p1a, by decide +kernel⟩
  have even := (truthful_at_iff _ _ switches).mp (truthful calOn switches)
  have misled : WindowEvent.misleads calOn (.send "CAL ON" fun _ => .answered) = true := by
    decide +kernel
  rw [List.countP_cons, misled] at even
  exact absurd even (by decide)

end GpioCtrlBoard
