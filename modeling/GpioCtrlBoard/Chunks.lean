import GpioCtrlBoard.RequestRun
import GpioCtrlBoard.MultiPort

/-! # Requests cut by TCP

Each call of `handleWebServer` takes the bytes of one chunk, reads a line from
them and forgets the rest, so a divided request is handled as one request per
chunk. Both the divided and the whole request are runs of routes, and two runs
agree iff their three readings do.
-/

namespace GpioCtrlBoard

open WriteStore

def crlf : Str := "\r\n".toList

/-- The three request lines the board knows. -/
inductive RequestLine where
  | portVal (x : Port) (v : UInt8)
  | getValues
  | page

namespace RequestLine

def text : RequestLine → Str
  | .portVal x v => requestHead ++ (portValKey ++ (command x v ++ '&' :: requestTail))
  | .getValues => requestHead ++ (getValuesKey ++ requestTail)
  | .page => requestHead ++ requestTail

def route : RequestLine → Route
  | .portVal x v => .portVal (command x v)
  | .getValues => .getValues
  | .page => .page

theorem route_text (line : RequestLine) : GpioCtrlBoard.route line.text = line.route := by
  cases line with
  | portVal x v =>
      have short := length_command x v
      exact route_portVal (command_no_amp x v) (by omega)
  | getValues | page => rfl

theorem text_no_cr (line : RequestLine) : '\r' ∉ line.text := by
  cases line with
  | portVal x v =>
      have letter : '\r' ≠ x.letter := by cases x <;> decide
      have digits := not_mem_decimal (c := '\r') rfl v.toNat
      simp only [text, command, List.mem_append, List.mem_cons, not_or]
      exact ⟨by decide, by decide, ⟨letter, digits⟩, by decide, by decide⟩
  | getValues | page => decide

end RequestLine

/-- A request: its line and its header lines, none of them empty or with a line
    end inside. -/
structure HttpRequest where
  line : RequestLine
  headers : List Str
  headersClean : ∀ h ∈ headers, h ≠ [] ∧ '\r' ∉ h ∧ '\n' ∉ h

def HttpRequest.bytes (req : HttpRequest) : Str :=
  req.line.text ++ crlf ++ req.headers.flatMap (· ++ crlf) ++ crlf

/-- One call of `handleWebServer` per chunk. -/
def serveChunks (chunks : List Str) (b : Board) : Board :=
  chunks.foldl (fun b chunk => (handleWebServer chunk b).board) b

/-- Equal variables, pin levels and counter. -/
def SameState (b b' : Board) : Prop := SameOutputs b b' ∧ b.count = b'.count

theorem readStringUntil_append {terminator : Char} {line rest : Str} (absent : terminator ∉ line) :
    readStringUntil terminator (line ++ terminator :: rest) = line := by
  have kept : ∀ c ∈ line, decide (c ≠ terminator) := by
    intro c member
    rw [decide_eq_true_iff]
    rintro rfl
    exact absent member
  rw [readStringUntil, List.takeWhile_append_of_pos kept]
  simp

/-- Undivided, a request is routed by its line. -/
theorem HttpRequest.handle_whole (req : HttpRequest) (b : Board) :
    (handleWebServer req.bytes b).board = req.line.route.act b := by
  let rest := '\n' :: (req.headers.flatMap (· ++ crlf) ++ crlf)
  have bytes : req.bytes = req.line.text ++ '\r' :: rest := by
    simp only [HttpRequest.bytes, rest, List.append_assoc]
    rfl
  have nonempty : req.bytes ≠ [] := by
    rw [bytes]
    simp
  rw [handleWebServer_board nonempty, bytes, readStringUntil_append req.line.text_no_cr,
    req.line.route_text]

theorem HttpRequest.bytes_line (req : HttpRequest) :
    req.bytes = req.line.text ++ '\r' :: '\n' :: (req.headers.flatMap (· ++ crlf) ++ crlf) := by
  simp only [HttpRequest.bytes, List.append_assoc]
  rfl

/-- The routes which the chunks of a request are taken for. -/
def chunkRoutes (chunks : List Str) : List Route :=
  chunks.map fun chunk => route (readStringUntil '\r' chunk)

theorem serveChunks_eq {chunks : List Str} (nonempty : ∀ c ∈ chunks, c ≠ []) (b : Board) :
    serveChunks chunks b = Route.actAll (chunkRoutes chunks) b := by
  induction chunks generalizing b with
  | nil => rfl
  | cons chunk chunks ih =>
      have first := handleWebServer_board (nonempty chunk List.mem_cons_self) b
      have rest := ih (fun c member => nonempty c (List.mem_cons_of_mem chunk member))
        ((route (readStringUntil '\r' chunk)).act b)
      simpa only [serveChunks, chunkRoutes, Route.actAll, List.foldl_cons, List.map_cons, first]
        using rest

/-- What the routes of the chunks must add up to, next to the route of the
    undivided request line. -/
structure Harmless (rs : List Route) (r : Route) (b : Board) : Prop where
  ports : ∀ x, (lastWrite x (rs.filterMap Route.assigns)).getD (b.val x) =
    (lastWrite x r.assigns.toList).getD (b.val x)
  pins : rs.any Route.isPortVal = r.isPortVal ∨
    ∀ o : Output, b.gpio.level o.pin =
      portImage (fun x => (lastWrite x r.assigns.toList).getD (b.val x)) o
  counter : (if Route.page ∈ rs then 0 else b.count) + UInt32.ofNat (Route.sincePage rs) =
    (if r = .page then 0 else b.count) + if r = .getValues then 1 else 0

theorem actAll_same_iff (rs : List Route) (r : Route) (b : Board) :
    SameState (Route.actAll rs b) (r.act b) ↔ Harmless rs r b := by
  have single : r.act b = Route.actAll [r] b := rfl
  have final : (r.act b).val = fun x => (lastWrite x r.assigns.toList).getD (b.val x) := by
    funext x
    rw [Route.act_val, writeAll_apply]
  have ports : (Route.actAll rs b).val = (r.act b).val ↔
      ∀ x, (lastWrite x (rs.filterMap Route.assigns)).getD (b.val x) =
        (lastWrite x r.assigns.toList).getD (b.val x) := by
    rw [funext_iff]
    simp only [Route.actAll_val, Route.act_val, writeAll_apply]
  have pins : (Route.actAll rs b).val = (r.act b).val →
      ((Route.actAll rs b).gpio.level = (r.act b).gpio.level ↔
        (rs.any Route.isPortVal = r.isPortVal ∨ ∀ o : Output, b.gpio.level o.pin =
          portImage (fun x => (lastWrite x r.assigns.toList).getD (b.val x)) o)) := by
    intro same
    rw [← final, ← Gpio.level_drive_eq_self_iff, Route.actAll_level, Route.act_gpio, same]
    cases rs.any Route.isPortVal <;> cases r.isPortVal <;> simp [eq_comm]
  have counter : (r.act b).count =
      (if r = .page then 0 else b.count) + if r = .getValues then 1 else 0 := by
    cases r with
    | portVal cmd => simp [Route.act]
    | getValues => simp [Route.act]
    | page => simp [Route.act]
  constructor
  · rintro ⟨⟨val, level⟩, count⟩
    exact ⟨ports.mp val, (pins val).mp level, by rw [← counter, ← count, Route.actAll_count]⟩
  · rintro ⟨val, level, count⟩
    have same := ports.mpr val
    exact ⟨⟨same, (pins same).mpr level⟩, by rw [counter, ← count, Route.actAll_count]⟩

/-- The routes under which a division has the effect of the undivided line from
    every board state. -/
def Faithful (rs : List Route) : RequestLine → Prop
  | .portVal x v => .page ∉ rs ∧ rs.count .getValues % 2 ^ 32 = 0 ∧
      ∀ y, lastWrite y (rs.filterMap Route.assigns) = if y = x then some v else none
  | .getValues => (∀ r ∈ rs, r = .getValues) ∧ rs.length % 2 ^ 32 = 1
  | .page => .page ∈ rs ∧ (∀ r ∈ rs, r.isPortVal = false) ∧ Route.sincePage rs % 2 ^ 32 = 0

theorem sincePage_of_no_page {rs : List Route} (noPage : .page ∉ rs) :
    Route.sincePage rs = rs.count .getValues := by
  have all : ∀ r ∈ rs.reverse, decide (r ≠ Route.page) := by
    intro r member
    rw [decide_eq_true_iff]
    rintro rfl
    exact noPage (List.mem_reverse.mp member)
  rw [Route.sincePage, List.takeWhile_eq_self_iff.mpr all, List.count_reverse]

theorem counter_eq_iff {p q : Prop} [Decidable p] [Decidable q] {k m : UInt32} :
    (∀ n : UInt32, (if p then 0 else n) + k = (if q then 0 else n) + m) ↔ (p ↔ q) ∧ k = m := by
  constructor
  · intro all
    have zero := all 0
    have one := all 1
    have same : k = m := by simpa using zero
    subst same
    refine ⟨?_, rfl⟩
    by_cases hp : p <;> by_cases hq : q <;> simp [hp, hq] at one ⊢
  · rintro ⟨same, rfl⟩ n
    simp only [same]

theorem getD_eq_iff {α : Type*} [Nontrivial α] {o o' : Option α} :
    (∀ d, o.getD d = o'.getD d) ↔ o = o' := by
  constructor
  · intro all
    obtain ⟨d, e, different⟩ := exists_pair_ne α
    cases o with
    | none =>
        cases o' with
        | none => rfl
        | some w => exact absurd ((all d).trans (all e).symm) different
    | some v =>
        cases o' with
        | none => exact absurd ((all d).symm.trans (all e)) different
        | some w => exact congrArg some (all d)
  · rintro rfl d
    rfl

instance byteNontrivial : Nontrivial UInt8 := ⟨0, 1, by decide⟩

/-- A board whose variables, counter and pins hold one value each. -/
def uniform (v : UInt8) (n : UInt32) (l : Level) : Board :=
  { p1aVal := v, p1bVal := v, p2aVal := v, p2bVal := v, count := n, gpio := ⟨fun _ => l, []⟩ }

/-- From every board state, only the readings of the routes themselves count. -/
theorem harmless_all_iff (rs : List Route) (r : Route) :
    (∀ b, Harmless rs r b) ↔
      (∀ x, lastWrite x (rs.filterMap Route.assigns) = lastWrite x r.assigns.toList) ∧
      rs.any Route.isPortVal = r.isPortVal ∧
      (.page ∈ rs ↔ r = .page) ∧
      UInt32.ofNat (Route.sincePage rs) = if r = .getValues then 1 else 0 := by
  constructor
  · intro all
    refine ⟨?_, ?_, ?_⟩
    · intro x
      apply getD_eq_iff.mp
      intro v
      have ports := (all (uniform v 0 .low)).ports x
      have value : (uniform v 0 .low).val x = v := by cases x <;> rfl
      simpa only [value] using ports
    · rcases (all (uniform 0 0 .low)).pins with same | low
      · exact same
      · rcases (all (uniform 0 0 .high)).pins with same | high
        · exact same
        · exact absurd ((low (.p1a, 0)).trans (high (.p1a, 0)).symm) (by decide)
    · exact counter_eq_iff.mp fun n => (all (uniform 0 n .low)).counter
  · rintro ⟨ports, pins, page, counter⟩ b
    exact
      { ports := fun x => by rw [ports]
        pins := .inl pins
        counter := counter_eq_iff.mpr ⟨page, counter⟩ b.count }

theorem touched_of_lastWrite {rs : List Route} {x : Port} {v : UInt8}
    (written : lastWrite x (rs.filterMap Route.assigns) = some v) : rs.any Route.isPortVal = true := by
  obtain ⟨r, member, assigned⟩ := List.mem_filterMap.mp (mem_of_lastWrite written)
  refine List.any_eq_true.mpr ⟨r, member, ?_⟩
  cases r with
  | portVal cmd => rfl
  | getValues | page => simp [Route.assigns] at assigned

theorem assigns_of_no_portVal {rs : List Route} (noPort : ∀ r ∈ rs, r.isPortVal = false) :
    rs.filterMap Route.assigns = [] := by
  refine List.filterMap_eq_nil_iff.mpr fun r member => ?_
  cases r with
  | portVal cmd => exact absurd (noPort _ member) (by simp [Route.isPortVal])
  | getValues | page => rfl

theorem all_getValues_iff {rs : List Route} :
    (∀ r ∈ rs, r = .getValues) ↔ (∀ r ∈ rs, r.isPortVal = false) ∧ .page ∉ rs := by
  constructor
  · intro all
    refine ⟨fun r member => ?_, fun member => ?_⟩
    · rw [all r member]
      rfl
    · exact absurd (all _ member) (by simp)
  · rintro ⟨noPort, noPage⟩ r member
    cases r with
    | portVal cmd => exact absurd (noPort _ member) (by simp [Route.isPortVal])
    | getValues => rfl
    | page => exact absurd member noPage

theorem faithful_iff (rs : List Route) (line : RequestLine) :
    (∀ b, Harmless rs line.route b) ↔ Faithful rs line := by
  rw [harmless_all_iff]
  cases line with
  | portVal x v =>
      have writes : ∀ y, lastWrite y (Route.portVal (command x v)).assigns.toList =
          if y = x then some v else none := by
        intro y
        simp [Route.assigns, accepted_command, lastWrite_cons, eq_comm]
      simp only [writes, Faithful, RequestLine.route, reduceCtorEq, iff_false, if_false]
      constructor
      · rintro ⟨ports, -, noPage, counter⟩
        rw [sincePage_of_no_page noPage, UInt32.ofNat_eq_iff_mod_eq_toNat] at counter
        exact ⟨noPage, counter, ports⟩
      · rintro ⟨noPage, counter, ports⟩
        refine ⟨ports, touched_of_lastWrite (x := x) (by rw [ports, if_pos rfl]), noPage, ?_⟩
        rw [sincePage_of_no_page noPage, UInt32.ofNat_eq_iff_mod_eq_toNat]
        exact counter
  | getValues =>
      have total : (∀ r ∈ rs, r = .getValues) → Route.sincePage rs = rs.length := by
        intro all
        rw [sincePage_of_no_page (all_getValues_iff.mp all).2, List.count_eq_length]
        exact fun r member => (all r member).symm
      simp only [Faithful, RequestLine.route, Route.assigns, Route.isPortVal, reduceCtorEq,
        iff_false, if_true, List.any_eq_false, Bool.not_eq_true]
      constructor
      · rintro ⟨-, noPort, noPage, counter⟩
        have all := all_getValues_iff.mpr ⟨noPort, noPage⟩
        rw [total all, UInt32.ofNat_eq_iff_mod_eq_toNat] at counter
        exact ⟨all, counter⟩
      · rintro ⟨all, counter⟩
        obtain ⟨noPort, noPage⟩ := all_getValues_iff.mp all
        refine ⟨fun x => by rw [assigns_of_no_portVal noPort]; rfl, noPort, noPage, ?_⟩
        rw [total all, UInt32.ofNat_eq_iff_mod_eq_toNat]
        exact counter
  | page =>
      simp only [Faithful, RequestLine.route, Route.assigns, Route.isPortVal, reduceCtorEq,
        iff_true, if_false, List.any_eq_false, Bool.not_eq_true]
      constructor
      · rintro ⟨-, noPort, page, counter⟩
        rw [UInt32.ofNat_eq_iff_mod_eq_toNat] at counter
        exact ⟨page, noPort, counter⟩
      · rintro ⟨page, noPort, counter⟩
        refine ⟨fun x => ?_, noPort, page, (UInt32.ofNat_eq_iff_mod_eq_toNat _ _).mpr counter⟩
        rw [assigns_of_no_portVal noPort]
        rfl

/-- From every board state at once chunks, in particular those into which a
    request is divided, have the effect of the whole request iff their routes are
    faithful to the request line, and from one given state iff they are harmless
    there. -/
theorem chunked_request_iff (req : HttpRequest) (chunks : List Str) (nonempty : ∀ c ∈ chunks, c ≠ []) :
    ((∀ b, SameState (serveChunks chunks b) (handleWebServer req.bytes b).board) ↔
      Faithful (chunkRoutes chunks) req.line) ∧
    ∀ b, SameState (serveChunks chunks b) (handleWebServer req.bytes b).board ↔
      Harmless (chunkRoutes chunks) req.line.route b := by
  have here : ∀ b, SameState (serveChunks chunks b) (handleWebServer req.bytes b).board ↔
      Harmless (chunkRoutes chunks) req.line.route b := by
    intro b
    rw [serveChunks_eq nonempty, req.handle_whole, actAll_same_iff]
  exact ⟨(forall_congr' here).trans (faithful_iff _ _), here⟩

/-- A request without header lines which sets port A to 255. -/
def allOnesRequest : HttpRequest where
  line := .portVal .p1a 255
  headers := []
  headersClean := by simp

/-- That request, cut inside its value. -/
def cutInValue : List Str := ["GET /portVal=a2".toList, "55& HTTP/1.1\r\n\r\n".toList]

theorem chunked_request_iff_cutInValue :
    ((∀ b, SameState (serveChunks cutInValue b) (handleWebServer allOnesRequest.bytes b).board) ↔
      Faithful (chunkRoutes cutInValue) allOnesRequest.line) ∧
    ∀ b, SameState (serveChunks cutInValue b) (handleWebServer allOnesRequest.bytes b).board ↔
      Harmless (chunkRoutes cutInValue) allOnesRequest.line.route b :=
  chunked_request_iff allOnesRequest cutInValue (by decide)

/-- The cut request sets port A to 2 and then resets the counter. -/
theorem cut_value_diverges :
    cutInValue.flatten = allOnesRequest.bytes ∧ (∀ c ∈ cutInValue, c ≠ []) ∧
    ¬ SameState (serveChunks cutInValue (setup (powerOn fun _ => .low)))
      (handleWebServer allOnesRequest.bytes (setup (powerOn fun _ => .low))).board := by
  refine ⟨by decide +kernel, by decide, ?_⟩
  rintro ⟨⟨same, -⟩, -⟩
  have port := congrFun same .p1a
  revert port
  decide +kernel

end GpioCtrlBoard
