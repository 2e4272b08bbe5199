import GpioCtrlBoard.Switching
import GpioCtrlBoard.Lib.LabelledRun

/-! # Controllers sharing one board

Any number of scripts and the serial console act on one board, in any order of
their requests. A script sends its own copies of all four ports and reads
nothing back, so a port holds what its last writer believed, and commands of the
other controllers survive only where that belief happens to agree.
-/

namespace GpioCtrlBoard

open WriteStore XorParity LabelledRun

/-- A request of a script. -/
inductive Request where
  | write (port : Char) (val : Nat)
  | getValues
  deriving DecidableEq

def Request.handle : Request → Board → Board
  | .write port val, b => portWrite port val .answered b
  | .getValues, b => (queryValues "/getValues".toList .answered b).1

/-- The requests of a command, given the script's copies after it. -/
def requestsFor (cmd : String) (script : Script) : List Request :=
  if cmd = "READ" then [.getValues]
  else match rowOf cmd with
    | some _ => script.requests.map fun r => .write r.1 r.2
    | none => []

/-- Who wrote a port last. -/
inductive Writer (ι : Type*) where
  | script (i : ι)
  | serial (v : UInt8)

/-- `pending i` are the requests script `i` has still to send before its next
    command. `writer` takes no part in the steps. -/
structure Shared (ι : Type*) where
  scripts : ι → Script
  pending : ι → List Request
  board : Board
  writer : Port → Option (Writer ι)

inductive ControlEvent (ι : Type*) where
  | issue (i : ι) (cmd : String)
  | deliver (i : ι)
  | serial (receivedData : Str)

namespace Shared

variable {ι : Type*} [DecidableEq ι]

/-- Every script has started and has its four resets to send. -/
def start (b : Board) : Shared ι where
  scripts := fun _ => .initial
  pending := fun _ => Script.initial.requests.map fun r => .write r.1 r.2
  board := b
  writer := fun _ => none

/-- The writers after script `i` has sent a request. -/
def sentBy (i : ι) (writer : Port → Option (Writer ι)) : Request → Port → Option (Writer ι)
  | .write port _ => match Port.ofLetter port with
    | some x => Function.update writer x (some (.script i))
    | none => writer
  | .getValues => writer

def step (s : Shared ι) : ControlEvent ι → Option (Shared ι)
  | .issue i cmd => match s.pending i with
    | [] => some { s with
        scripts := Function.update s.scripts i ((s.scripts i).after cmd)
        pending := Function.update s.pending i (requestsFor cmd ((s.scripts i).after cmd)) }
    | _ :: _ => none
  | .deliver i => match s.pending i with
    | [] => none
    | request :: rest => some { s with
        pending := Function.update s.pending i rest
        board := request.handle s.board
        writer := sentBy i s.writer request }
  | .serial receivedData => some { s with
      board := (decodeData receivedData s.board).1
      writer := match accepted receivedData with
        | some (x, v) => Function.update s.writer x (some (.serial v))
        | none => s.writer }

/-- No script has a request left to send. -/
def Quiet (s : Shared ι) : Prop := ∀ i, s.pending i = []

/-! ## Requests -/

theorem handle_write_val (x : Port) {v : Nat} (small : v < 2 ^ pbit) (b : Board) :
    (Request.handle (.write x.letter v) b).val = Function.update b.val x (UInt8.ofNat v) := by
  have sent := portWrite_board x (UInt8.ofNat v) .answered b
  rw [toNat_ofNat small] at sent
  rw [Request.handle, sent]
  exact decodeData_val_command x (UInt8.ofNat v) b

theorem handle_getValues_val (b : Board) : (Request.handle .getValues b).val = b.val :=
  (getValues_outputs .answered b).2

theorem letter_injective {x y : Port} (same : x.letter = y.letter) : x = y := by
  have found := congrArg Port.ofLetter same
  rw [Port.ofLetter_letter, Port.ofLetter_letter] at found
  exact Option.some.inj found

theorem mem_requests {script : Script} {r : Char × Nat} :
    r ∈ script.requests ↔ ∃ x : Port, r = (x.letter, script.port x) := by
  constructor
  · intro member
    simp only [Script.requests, List.mem_cons, List.not_mem_nil, or_false] at member
    rcases member with rfl | rfl | rfl | rfl
    · exact ⟨.p1a, rfl⟩
    · exact ⟨.p1b, rfl⟩
    · exact ⟨.p2a, rfl⟩
    · exact ⟨.p2b, rfl⟩
  · rintro ⟨x, rfl⟩
    cases x <;> simp [Script.requests, Port.letter, Script.port]

/-- Whatever a script sends is its copy of a port. -/
theorem of_mem_requestsFor {cmd : String} {script : Script} {port : Char} {v : Nat}
    (member : Request.write port v ∈ requestsFor cmd script) :
    ∃ x : Port, port = x.letter ∧ v = script.port x := by
  by_cases read : cmd = "READ"
  · simp [requestsFor, read] at member
  · cases named : rowOf cmd with
    | none => simp [requestsFor, read, named] at member
    | some row =>
        rw [requestsFor, if_neg read, named] at member
        obtain ⟨r, inside, same⟩ := List.mem_map.mp member
        obtain ⟨x, rfl⟩ := mem_requests.mp inside
        injection same with letter value
        exact ⟨x, letter.symm, value.symm⟩

/-- A row command sends every port. -/
theorem mem_requestsFor {cmd : String} {row : Row} (named : rowOf cmd = some row) (script : Script)
    (x : Port) : Request.write x.letter (script.port x) ∈ requestsFor cmd script := by
  have command : cmd ≠ "READ" := by
    rintro rfl
    simp [rowOf] at named
  rw [requestsFor, if_neg command, named]
  exact List.mem_map.mpr ⟨_, mem_requests.mpr ⟨x, rfl⟩, rfl⟩

/-! ## A command alone -/

/-- The requests of a command, handled in turn, are what `setDevice` does. -/
theorem setDevice_handled (cmd : String) (script : Script) (b : Board) :
    (setDevice cmd (fun _ => .answered) ⟨script, b⟩).1 =
      ⟨script.after cmd, (requestsFor cmd (script.after cmd)).foldl (fun b r => r.handle b) b⟩ := by
  by_cases read : cmd = "READ"
  · subst read
    have unnamed : rowOf "READ" = none := rfl
    rw [setDevice_read, Script.after, unnamed, requestsFor, if_pos rfl]
    rfl
  · cases named : rowOf cmd with
    | some row =>
        rw [setDevice_row named, Script.after, named, requestsFor, if_neg read, named]
        rfl
    | none =>
        rw [setDevice_unknown read named, Script.after, requestsFor, if_neg read, named]
        rfl

/-- Delivering all the pending requests of one script. -/
theorem run_deliver (s : Shared ι) (i : ι) {rs : List Request} (waiting : s.pending i = rs) :
    ∃ t, run step s (List.replicate rs.length (.deliver i)) = some t ∧ t.scripts = s.scripts ∧
      t.pending = Function.update s.pending i [] ∧
      t.board = rs.foldl (fun b r => r.handle b) s.board := by
  induction rs generalizing s with
  | nil =>
      refine ⟨s, rfl, rfl, ?_, rfl⟩
      rw [← waiting, Function.update_eq_self]
  | cons r rs ih =>
      let u : Shared ι := { s with
        pending := Function.update s.pending i rs
        board := r.handle s.board
        writer := sentBy i s.writer r }
      have first : step s (.deliver i) = some u := by simp only [step, waiting, u]
      obtain ⟨t, rest, scripts, pending, board⟩ := ih u (Function.update_self i rs s.pending)
      refine ⟨t, ?_, scripts, ?_, board⟩
      · rw [List.length_cons, List.replicate_succ, run_cons, first]
        exact rest
      · rw [pending]
        exact Function.update_idem _ _ _

/-- Undisturbed, a command of one script has the effect of `setDevice`. -/
theorem run_command (s : Shared ι) (i : ι) (cmd : String) (idle : s.pending i = []) :
    let n := (requestsFor cmd ((s.scripts i).after cmd)).length
    let alone := (setDevice cmd (fun _ => .answered) ⟨s.scripts i, s.board⟩).1
    ∃ t, run step s (.issue i cmd :: List.replicate n (.deliver i)) = some t ∧
      t.scripts i = alone.script ∧ t.board = alone.board ∧ t.pending i = [] := by
  intro n alone
  let rs := requestsFor cmd ((s.scripts i).after cmd)
  let u : Shared ι := { s with
    scripts := Function.update s.scripts i ((s.scripts i).after cmd)
    pending := Function.update s.pending i rs }
  have first : step s (.issue i cmd) = some u := by simp only [step, idle, u, rs]
  obtain ⟨t, rest, scripts, pending, board⟩ := run_deliver u i (Function.update_self i rs s.pending)
  refine ⟨t, ?_, ?_, ?_, ?_⟩
  · rw [run_cons, first]
    exact rest
  · rw [scripts]
    simp only [alone, setDevice_handled, u, Function.update_self]
  · rw [board]
    simp only [alone, setDevice_handled, u, rs]
  · rw [pending, Function.update_self]

/-! ## All interleavings -/

/-- The commands one script has issued. -/
def issued (i : ι) (es : List (ControlEvent ι)) : List String :=
  es.filterMap fun e => match e with
    | .issue j cmd => if j = i then some cmd else none
    | .deliver _ | .serial _ => none

/-- What the board holds in a port, judged by its last writer. A script's byte
    may be out of date while the request with the next one is pending. -/
def Holds (b : Board) (s : Shared ι) (x : Port) : Prop :=
  match s.writer x with
  | none => s.board.val x = b.val x
  | some (.serial v) => s.board.val x = v
  | some (.script i) => (∃ v, Request.write x.letter v ∈ s.pending i) ∨
      (s.board.val x).toNat = (s.scripts i).port x

structure Tracks (b : Board) (es : List (ControlEvent ι)) (s : Shared ι) : Prop where
  copies : ∀ i x, (s.scripts i).port x = xorAll 0 (toggles (issued i es) x)
  sends : ∀ i port v, Request.write port v ∈ s.pending i →
    ∃ x : Port, port = x.letter ∧ v = (s.scripts i).port x
  holds : ∀ x, Holds b s x

theorem Tracks.inRange {b : Board} {es : List (ControlEvent ι)} {s : Shared ι} (tracks : Tracks b es s)
    (i : ι) : (s.scripts i).InRange := by
  intro x
  rw [tracks.copies]
  exact xorAll_toggles_lt (Nat.two_pow_pos pbit) _ x

theorem start_tracks (b : Board) : Tracks b [] (start b : Shared ι) where
  copies i x := by cases x <;> rfl
  sends i port v member := by
    obtain ⟨r, inside, same⟩ := List.mem_map.mp member
    obtain ⟨x, rfl⟩ := mem_requests.mp inside
    injection same with letter value
    exact ⟨x, letter.symm, value.symm⟩
  holds _ := rfl

theorem issue_tracks {b : Board} {es : List (ControlEvent ι)} {s : Shared ι} (tracks : Tracks b es s)
    {i : ι} (cmd : String) (idle : s.pending i = []) :
    Tracks b (es ++ [.issue i cmd]) { s with
      scripts := Function.update s.scripts i ((s.scripts i).after cmd)
      pending := Function.update s.pending i (requestsFor cmd ((s.scripts i).after cmd)) } := by
  refine ⟨?_, ?_, ?_⟩
  · intro j x
    by_cases same : j = i
    · subst same
      have longer : issued j (es ++ [.issue j cmd]) = issued j es ++ [cmd] := by simp [issued]
      simp only [Function.update_self, Script.port_after, tracks.copies, longer, toggles,
        List.map_append, xorAll_append]
      rfl
    · have kept : issued j (es ++ [.issue i cmd]) = issued j es := by
        simp [issued, Ne.symm same]
      simp only [Function.update_of_ne same, kept, tracks.copies]
  · intro j port v member
    by_cases same : j = i
    · subst same
      simp only [Function.update_self] at member ⊢
      exact of_mem_requestsFor member
    · simp only [Function.update_of_ne same] at member ⊢
      exact tracks.sends j port v member
  · intro x
    have before := tracks.holds x
    unfold Holds at before ⊢
    cases writer : s.writer x with
    | none => simpa only [writer] using before
    | some w =>
        cases w with
        | serial v => simpa only [writer] using before
        | script j =>
            simp only [writer] at before ⊢
            by_cases same : j = i
            · -- The writer's own command renews all its bytes, or none.
              subst same
              simp only [Function.update_self]
              cases named : rowOf cmd with
              | some row => exact Or.inl ⟨_, mem_requestsFor named _ x⟩
              | none =>
                  rw [idle] at before
                  rcases before with ⟨v, member⟩ | value
                  · simp at member
                  · right
                    simpa only [Script.after, named] using value
            · simpa only [Function.update_of_ne same] using before

omit [DecidableEq ι] in
/-- A port's account survives what leaves its writer, its byte and the copies
    alone and drops no pending write to it. -/
theorem Holds.frame {b : Board} {s t : Shared ι} {x : Port} (holds : Holds b s x)
    (writer : t.writer x = s.writer x) (val : t.board.val x = s.board.val x)
    (scripts : t.scripts = s.scripts)
    (waits : ∀ i v, Request.write x.letter v ∈ s.pending i → Request.write x.letter v ∈ t.pending i) :
    Holds b t x := by
  unfold Holds at holds ⊢
  rw [writer, val, scripts]
  cases who : s.writer x with
  | none => simpa only [who] using holds
  | some w =>
      cases w with
      | serial v => simpa only [who] using holds
      | script i =>
          simp only [who] at holds ⊢
          exact holds.imp_left fun ⟨v, member⟩ => ⟨v, waits i v member⟩

theorem mem_pending_rest {s : Shared ι} {i : ι} {r : Request} {rest : List Request}
    (waiting : s.pending i = r :: rest) {j : ι} {r' : Request} (member : r' ∈ s.pending j)
    (other : r' ≠ r) : r' ∈ Function.update s.pending i rest j := by
  by_cases same : j = i
  · subst same
    rw [waiting] at member
    rw [Function.update_self]
    exact (List.mem_cons.mp member).resolve_left other
  · rw [Function.update_of_ne same]
    exact member

theorem mem_pending_of_rest {s : Shared ι} {i : ι} {r : Request} {rest : List Request}
    (waiting : s.pending i = r :: rest) {j : ι} {r' : Request}
    (member : r' ∈ Function.update s.pending i rest j) : r' ∈ s.pending j := by
  by_cases same : j = i
  · subst same
    rw [Function.update_self] at member
    rw [waiting]
    exact List.mem_cons_of_mem r member
  · rw [Function.update_of_ne same] at member
    exact member

theorem deliver_tracks {b : Board} {es : List (ControlEvent ι)} {s : Shared ι} (tracks : Tracks b es s)
    {i : ι} {r : Request} {rest : List Request} (waiting : s.pending i = r :: rest) {board : Board}
    (handled : board = r.handle s.board) :
    Tracks b (es ++ [.deliver i]) { s with
      pending := Function.update s.pending i rest
      board := board
      writer := sentBy i s.writer r } := by
  refine ⟨?_, ?_, ?_⟩
  · intro j x
    have kept : issued j (es ++ [.deliver i]) = issued j es := by simp [issued]
    rw [kept]
    exact tracks.copies j x
  · intro j port v member
    exact tracks.sends j port v (mem_pending_of_rest waiting member)
  · intro x
    cases r with
    | getValues =>
        have same := congrFun (handle_getValues_val s.board) x
        rw [← handled] at same
        exact (tracks.holds x).frame rfl same rfl fun j v member =>
          mem_pending_rest waiting member (by simp)
    | write port v =>
        obtain ⟨y, rfl, rfl⟩ := tracks.sends i port v (by simp [waiting])
        have small := tracks.inRange i y
        have value := congrFun (handle_write_val y small s.board) x
        rw [← handled] at value
        by_cases here : x = y
        · subst here
          rw [Function.update_self] at value
          unfold Holds
          simp only [sentBy, Port.ofLetter_letter, Function.update_self, value]
          exact Or.inr (toNat_ofNat small)
        · rw [Function.update_of_ne here] at value
          have writer : sentBy i s.writer (.write y.letter ((s.scripts i).port y)) x = s.writer x := by
            simp only [sentBy, Port.ofLetter_letter, Function.update_of_ne here]
          refine (tracks.holds x).frame writer value rfl ?_
          intro j v member
          apply mem_pending_rest waiting member
          intro head
          injection head with letter
          exact here (letter_injective letter)

theorem serial_tracks {b : Board} {es : List (ControlEvent ι)} {s : Shared ι} (tracks : Tracks b es s)
    (receivedData : Str) :
    Tracks b (es ++ [.serial receivedData]) { s with
      board := (decodeData receivedData s.board).1
      writer := match accepted receivedData with
        | some (x, v) => Function.update s.writer x (some (.serial v))
        | none => s.writer } := by
  refine ⟨?_, tracks.sends, ?_⟩
  · intro j x
    have kept : issued j (es ++ [.serial receivedData]) = issued j es := by simp [issued]
    rw [kept]
    exact tracks.copies j x
  · intro x
    have value := congrFun (decodeData_val receivedData s.board) x
    cases taken : accepted receivedData with
    | none =>
        rw [taken, Option.toList_none, writeAll_nil] at value
        exact (tracks.holds x).frame rfl value rfl fun _ _ member => member
    | some w =>
        obtain ⟨y, v⟩ := w
        rw [taken] at value
        simp only [Option.toList_some, writeAll_cons, writeAll_nil, write] at value
        by_cases here : x = y
        · subst here
          rw [Function.update_self] at value
          unfold Holds
          simp only [Function.update_self, value]
        · rw [Function.update_of_ne here] at value
          have writer : Function.update s.writer y (some (.serial v)) x = s.writer x :=
            Function.update_of_ne here _ _
          exact (tracks.holds x).frame writer value rfl fun _ _ member => member

/-- Every interleaving keeps the account of copies, requests and writers. -/
theorem run_tracks {b : Board} {es : List (ControlEvent ι)} {s : Shared ι}
    (reached : run step (start b) es = some s) : Tracks b es s := by
  refine run_induction (motive := Tracks b) (start_tracks b) ?_ reached
  intro es s e t _ tracks taken
  cases e with
  | issue i cmd =>
      cases waiting : s.pending i with
      | nil =>
          simp only [step, waiting, Option.some.injEq] at taken
          subst taken
          exact issue_tracks tracks cmd waiting
      | cons r rest => simp [step, waiting] at taken
  | deliver i =>
      cases waiting : s.pending i with
      | nil => simp [step, waiting] at taken
      | cons r rest =>
          simp only [step, waiting, Option.some.injEq] at taken
          subst taken
          exact deliver_tracks tracks waiting rfl
  | serial receivedData =>
      simp only [step, Option.some.injEq] at taken
      subst taken
      exact serial_tracks tracks receivedData

/-- What a port holds once no request is pending, judged by its last writer. -/
def Rests (b : Board) (es : List (ControlEvent ι)) (s : Shared ι) (x : Port) : Prop :=
  match s.writer x with
  | none => s.board.val x = b.val x
  | some (.serial v) => s.board.val x = v
  | some (.script i) => (s.board.val x).toNat = xorAll 0 (toggles (issued i es) x)

theorem Tracks.rests {b : Board} {es : List (ControlEvent ι)} {s : Shared ι} (tracks : Tracks b es s)
    (quiet : s.Quiet) (x : Port) : Rests b es s x := by
  have holds := tracks.holds x
  unfold Holds at holds
  unfold Rests
  cases writer : s.writer x with
  | none => simpa only [writer] using holds
  | some w =>
      cases w with
      | serial v => simpa only [writer] using holds
      | script i =>
          simp only [writer, quiet i, List.not_mem_nil, exists_false, false_or] at holds
          rw [holds, tracks.copies]

theorem deliver_board {s t : Shared ι} {i : ι} {r : Request} {rest : List Request}
    (waiting : s.pending i = r :: rest) (taken : step s (.deliver i) = some t) :
    t.board = r.handle s.board := by
  simp only [step, waiting, Option.some.injEq] at taken
  rw [← taken]

/-- A request overwrites its port with the copy of the script which sends it,
    also outside the mask of its last command; a port at rest holds the copy of
    the script which wrote it last, or the serial value. -/
theorem last_writer_decides (b : Board) {es : List (ControlEvent ι)} {s : Shared ι}
    (reached : run step (start b) es = some s) :
    (∀ i port v rest t, s.pending i = .write port v :: rest → step s (.deliver i) = some t →
      ∃ x : Port, port = x.letter ∧ (∀ y ≠ x, t.board.val y = s.board.val y) ∧
        (t.board.val x).toNat = xorAll 0 (toggles (issued i es) x) ∧
        ∀ cmds cmd, issued i es = cmds ++ [cmd] → ∀ k, (maskOf cmd x).testBit k = false →
          (t.board.val x).toNat.testBit k = (xorAll 0 (toggles cmds x)).testBit k) ∧
    (s.Quiet → ∀ x, Rests b es s x) := by
  have tracks := run_tracks reached
  refine ⟨?_, ?_⟩
  · intro i port v rest t waiting taken
    obtain ⟨x, rfl, rfl⟩ := tracks.sends i port v (by simp [waiting])
    have small := tracks.inRange i x
    have written := handle_write_val x small s.board
    rw [← deliver_board waiting taken] at written
    have value : (t.board.val x).toNat = xorAll 0 (toggles (issued i es) x) := by
      rw [written, Function.update_self, ← tracks.copies]
      exact toNat_ofNat small
    refine ⟨x, rfl, ?_, value, ?_⟩
    · intro y other
      rw [written, Function.update_of_ne other]
    · intro cmds cmd last k outside
      have longer : toggles (cmds ++ [cmd]) x = toggles cmds x ++ [maskOf cmd x] := by
        simp only [toggles, List.map_append, List.map_cons, List.map_nil]
      rw [value, last, longer, xorAll_append]
      simp only [xorAll, List.foldl_cons, List.foldl_nil, Nat.testBit_xor, outside, Bool.xor_false]
  · intro quiet x
    exact tracks.rests quiet x

/-- Two scripts start, then each gives one command. -/
def twoCommands : List (ControlEvent Bool) :=
  let sends (i : Bool) : List (ControlEvent Bool) := List.replicate 4 (.deliver i)
  List.flatten [sends false, sends true, [.issue false "CAL ON"], sends false,
    [.issue true "CAL A0.5"], sends true]

/-- Before the last four requests the second script is about to overwrite port A;
    after them both are at rest. -/
theorem last_writer_decides_twoCommands :
    let b := setup (powerOn fun _ => .low)
    (∃ s t rest, run step (start b) (twoCommands.take 14) = some s ∧
      s.pending true = .write 'a' 1 :: rest ∧ step s (.deliver true) = some t ∧
      (∀ y ≠ Port.p1a, t.board.val y = s.board.val y) ∧
      (t.board.val .p1a).toNat = xorAll 0 (toggles (issued true (twoCommands.take 14)) .p1a)) ∧
    ∃ s, run step (start b) twoCommands = some s ∧ s.Quiet ∧ ∀ x, Rests b twoCommands s x := by
  intro b
  constructor
  · have waits : (run step (start b) (twoCommands.take 14)).any
        (fun s => (s.pending true).head? = some (.write 'a' 1)) = true := by decide +kernel
    obtain ⟨s, reached, first⟩ := (Option.any_eq_true _ _).mp waits
    obtain ⟨rest, waiting⟩ := List.head?_eq_some_iff.mp (of_decide_eq_true first)
    obtain ⟨t, taken⟩ : ∃ t, step s (.deliver true) = some t := by simp [step, waiting]
    obtain ⟨x, letter, frame, value, -⟩ :=
      (last_writer_decides b reached).1 true 'a' 1 rest t waiting taken
    obtain rfl : Port.p1a = x := letter_injective letter
    exact ⟨s, t, rest, reached, waiting, taken, frame, value⟩
  · have ends : (run step (start b) twoCommands).any
        (fun s => s.pending false = [] ∧ s.pending true = []) = true := by decide +kernel
    obtain ⟨s, reached, finished⟩ := (Option.any_eq_true _ _).mp ends
    obtain ⟨first, second⟩ := of_decide_eq_true finished
    have quiet : s.Quiet := by
      intro i
      cases i with
      | false => exact first
      | true => exact second
    exact ⟨s, reached, quiet, (last_writer_decides b reached).2 quiet⟩

/-- The second script's command takes back what the first one switched on. -/
theorem second_script_undoes_first :
    ¬ ∀ (es : List (ControlEvent Bool)) (s : Shared Bool),
      run step (start (setup (powerOn fun _ => .low))) es = some s → s.Quiet →
      ∀ x, (s.board.val x).toNat = xorAll 0 (toggles (issued false es ++ issued true es) x) := by
  intro all
  have final : (run step (start (setup (powerOn fun _ => .low))) twoCommands).map
      (fun s => ((s.pending false).length, (s.pending true).length, (s.board.val .p1a).toNat)) =
        some (0, 0, 1) := by
    decide +kernel
  obtain ⟨s, reached, shown⟩ := Option.map_eq_some_iff.mp final
  simp only [Prod.mk.injEq, List.length_eq_zero_iff] at shown
  obtain ⟨first, second, value⟩ := shown
  have quiet : s.Quiet := by
    intro i
    cases i with
    | false => exact first
    | true => exact second
  have both := all twoCommands s reached quiet .p1a
  rw [value] at both
  revert both
  decide +kernel

end Shared

end GpioCtrlBoard
