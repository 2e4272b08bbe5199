import GpioCtrlBoard.Chunks
import GpioCtrlBoard.Preemption
import GpioCtrlBoard.Replies

/-! # Pages which are open in browsers

Every 500 ms the script of a page asks for `getValues`, and the text of the answer
becomes that of its paragraph. The loop prints the five numbers of an answer one
after the other, and the serial thread may change a port between any two of them.

To `open` an `XMLHttpRequest` aborts the request before it. The board may answer it
all the same, but the answer is dropped.
-/

namespace GpioCtrlBoard

open LabelledRun

/-- A number of a reply, and how many steps of the run came before it was read. -/
structure Reading where
  number : Nat
  moment : Nat
  deriving DecidableEq

/-- What the loop does: nothing of interest, a call of `decodeData` for a request, or
    `clientResponse`. `ajax` is the request of a page which is answered, `since` the
    moment at which `clientResponse` was called. -/
inductive Serving where
  | waiting
  | deciding
  | printing (ajax : Option Nat) (since : Nat) (printed : List Reading)
  deriving DecidableEq

/-- What has become of the request of a page. -/
inductive Ajax where
  | unsent
  | sent (page : Nat)
  | taken (page : Nat)
  | answered (page : Nat) (printed : List Reading)
  | done
  deriving DecidableEq

/-- The board and the pages which have been loaded from it. `ajaxRequest` is the
    request which a page waits for; `count_P` is `none` for the text a page is loaded
    with. `now` counts the steps. -/
structure Live where
  machine : Machine
  serving : Serving
  nextId : Nat
  requests : Nat → Ajax
  ajaxRequest : Nat → Option Nat
  count_P : Nat → Option (List Reading)
  now : Nat

/-- `request` is that of another client than the pages, `serve` that of a page; `reply`
    is the call of `clientResponse` behind `decodeData`. -/
inductive LiveEvent where
  | act (a : Action)
  | request (r : Route)
  | reply
  | print
  | finish
  | updateCount (page : Nat)
  | serve (id : Nat)
  | arrive (id : Nat)
  | lose (id : Nat)

/-- The steps with which `clientResponse` is called. -/
def LiveEvent.begins : LiveEvent → Bool
  | .request .getValues | .reply | .serve _ => true
  | _ => false

namespace Live

/-- The action of a route which calls no `decodeData`. -/
def set (r : Route) (s : Live) : Live :=
  { s with machine := { s.machine with board := r.act s.machine.board } }

/-- An answer is on its way to its page, unless the request has been lost. -/
def answer (ajax : Option Nat) (printed : List Reading) (s : Live) : Live :=
  match ajax with
  | none => s
  | some id =>
    match s.requests id with
    | .taken page => { s with requests := Function.update s.requests id (.answered page printed) }
    | _ => s

/-- `onreadystatechange` with state 4 and status 200. -/
def show_ (page id : Nat) (printed : List Reading) (s : Live) : Live :=
  if s.ajaxRequest page = some id then
    { s with
      ajaxRequest := Function.update s.ajaxRequest page none
      count_P := Function.update s.count_P page (some printed) }
  else s

/-- The page is told with status 0. -/
def giveUp (page id : Nat) (s : Live) : Live :=
  if s.ajaxRequest page = some id then { s with ajaxRequest := Function.update s.ajaxRequest page none } else s

def end_ (id : Nat) (s : Live) : Live := { s with requests := Function.update s.requests id .done }

def move (s : Live) : LiveEvent → Option Live
  -- The loop calls `decodeData` only for a request.
  | .act (.call .mainLoop _) => none
  | .act a => (s.machine.step a).map fun m => { s with machine := m }
  | .request r =>
    if s.serving = .waiting then
      match r with
      | .portVal cmd => (s.machine.step (.call .mainLoop cmd)).map fun m => { s with machine := m, serving := .deciding }
      | .getValues => some { s.set .getValues with serving := .printing none s.now [] }
      | .page => some (s.set .page)
    else none
  | .reply =>
    if s.serving = .deciding ∧ s.machine.pc .mainLoop = .idle then some { s with serving := .printing none s.now [] }
    else none
  | .print =>
    match s.serving with
    | .printing ajax since printed => ((status s.machine.board)[printed.length]?).map fun number =>
        { s with serving := .printing ajax since (printed ++ [⟨number, s.now⟩]) }
    | _ => none
  | .finish =>
    match s.serving with
    | .printing ajax _ printed =>
      if printed.length = statusKeys.length then some ({ s with serving := .waiting }.answer ajax printed) else none
    | _ => none
  | .updateCount page => some { s with
      nextId := s.nextId + 1
      requests := Function.update s.requests s.nextId (.sent page)
      ajaxRequest := Function.update s.ajaxRequest page (some s.nextId) }
  | .serve id =>
    match s.serving, s.requests id with
    | .waiting, .sent page => some { s.set .getValues with
        serving := .printing (some id) s.now []
        requests := Function.update s.requests id (.taken page) }
    | _, _ => none
  | .arrive id =>
    match s.requests id with
    | .answered page printed => some ((s.end_ id).show_ page id printed)
    | _ => none
  | .lose id =>
    match s.requests id with
    | .sent page | .taken page | .answered page _ => some ((s.end_ id).giveUp page id)
    | _ => none

def step (s : Live) (e : LiveEvent) : Option Live := (s.move e).map fun t => { t with now := s.now + 1 }

/-- The pages as they are loaded from a board. -/
def init (power : Pin → Level) : Live where
  machine := .start power
  serving := .waiting
  nextId := 0
  requests := fun _ => .unsent
  ajaxRequest := fun _ => none
  count_P := fun _ => none
  now := 0

/-- The request of a page is taken for `getValues` when it has arrived whole. -/
theorem route_getValues {max : Nat} {d : Delivered} {request : HttpRequest} (line : request.line = .getValues)
    (bytes : d.chunk.bytes = request.bytes) (fits : request.line.text.length ≤ max) : d.route max = .getValues := by
  have clean : ∀ ch ∈ request.line.text, inLine ch = true := by
    rw [line]
    exact List.all_eq_true.mp rfl
  have whole : d.line max = request.line.text := receivedLine_whole (bytes.trans request.bytes_line) clean fits d.stale
  rw [Delivered.route, whole, request.line.route_text, line]
  rfl

/-! ## What is read -/

/-- The readings are the numbers of the board, in their order, at moments which come
    one after the other behind `since`. -/
structure ReadInOrder (start : Live) (es : List LiveEvent) (since : Nat) (printed : List Reading) : Prop where
  value : ∀ (i : Nat) (r : Reading), printed[i]? = some r →
    ∃ s, run step start (es.take r.moment) = some s ∧ (status s.machine.board)[i]? = some r.number
  since : ∀ r ∈ printed, since < r.moment
  past : ∀ r ∈ printed, r.moment < es.length
  sorted : printed.Pairwise fun r r' => r.moment < r'.moment

/-- The last call of `clientResponse` in a run. -/
def Begun (es : List LiveEvent) (since : Nat) : Prop :=
  (∃ e, es[since]? = some e ∧ e.begins = true) ∧ ∀ k e, since < k → es[k]? = some e → e.begins = false

/-- The reply which ends at some step of the run. -/
def Replied (start : Live) (es : List LiveEvent) (since : Nat) (printed : List Reading) : Prop :=
  ∃ before rest, es = before ++ .finish :: rest ∧ printed.length = statusKeys.length ∧ Begun before since ∧
    ReadInOrder start before since printed

variable {start s t : Live} {es : List LiveEvent} {e : LiveEvent} {since : Nat} {printed : List Reading}

theorem ReadInOrder.nil : ReadInOrder start es since [] :=
  ⟨fun i r here => by simp at here, by simp, by simp, .nil⟩

theorem ReadInOrder.more (read : ReadInOrder start es since printed) (e : LiveEvent) :
    ReadInOrder start (es ++ [e]) since printed := by
  refine ⟨fun i r here => ?_, read.since, fun r member => ?_, read.sorted⟩
  · have past := read.past r (List.mem_of_getElem? here)
    rw [List.take_append_of_le_length past.le]
    exact read.value i r here
  · rw [List.length_append]
    exact Nat.lt_add_right _ (read.past r member)

/-- The next number is read. -/
theorem ReadInOrder.read (read : ReadInOrder start es since printed) (reached : run step start es = some s)
    (begun : since < es.length) {number : Nat}
    (here : (status s.machine.board)[printed.length]? = some number) (e : LiveEvent) :
    ReadInOrder start (es ++ [e]) since (printed ++ [⟨number, es.length⟩]) := by
  have more := read.more e
  refine ⟨fun i r at_ => ?_, fun r member => ?_, fun r member => ?_, ?_⟩
  · rcases lt_trichotomy i printed.length with inside | rfl | outside
    · rw [List.getElem?_append_left inside] at at_
      exact more.value i r at_
    · rw [List.getElem?_concat_length, Option.some.injEq] at at_
      subst at_
      exact ⟨s, by rw [List.take_left]; exact reached, here⟩
    · rw [List.getElem?_eq_none (by simp; omega)] at at_
      cases at_
  · rcases List.mem_append.mp member with before | now
    · exact read.since r before
    · obtain rfl := List.mem_singleton.mp now
      exact begun
  · rcases List.mem_append.mp member with before | now
    · exact more.past r before
    · obtain rfl := List.mem_singleton.mp now
      simp
  · rw [List.pairwise_append]
    refine ⟨read.sorted, List.pairwise_singleton _ _, fun r before r' now => ?_⟩
    obtain rfl := List.mem_singleton.mp now
    exact read.past r before

theorem Begun.lt (begun : Begun es since) : since < es.length := by
  obtain ⟨⟨e, here, -⟩, -⟩ := begun
  exact (List.getElem?_eq_some_iff.mp here).1

theorem Begun.more (begun : Begun es since) (other : e.begins = false) : Begun (es ++ [e]) since := by
  obtain ⟨⟨e', here, begins⟩, later⟩ := begun
  have inside := (List.getElem?_eq_some_iff.mp here).1
  refine ⟨⟨e', by rw [List.getElem?_append_left inside]; exact here, begins⟩, fun k f behind at_ => ?_⟩
  rcases Nat.lt_or_ge k es.length with before | after
  · rw [List.getElem?_append_left before] at at_
    exact later k f behind at_
  · rw [List.getElem?_append_right after] at at_
    obtain rfl := List.mem_singleton.mp (List.mem_of_getElem? at_)
    exact other

theorem begun_now (es : List LiveEvent) (begins : e.begins = true) : Begun (es ++ [e]) es.length := by
  refine ⟨⟨e, List.getElem?_concat_length, begins⟩, fun k f behind at_ => ?_⟩
  rw [List.getElem?_eq_none (by simp; omega)] at at_
  cases at_

theorem Replied.more (replied : Replied start es since printed) (e : LiveEvent) :
    Replied start (es ++ [e]) since printed := by
  obtain ⟨before, rest, rfl, whole⟩ := replied
  exact ⟨before, rest ++ [e], by simp, whole⟩

theorem Replied.past (replied : Replied start es since printed) : ∀ r ∈ printed, r.moment < es.length := by
  obtain ⟨before, rest, rfl, -, -, read⟩ := replied
  intro r member
  have inside := read.past r member
  rw [List.length_append]
  omega

/-! ## What the pages show -/

/-- What is under way to the pages and what they show has been read in order, and a
    page waits for an answer which is read behind the one it shows. -/
structure Honest (start : Live) (es : List LiveEvent) (s : Live) : Prop where
  clock : s.now = es.length
  printing : ∀ ajax since printed, s.serving = .printing ajax since printed →
    Begun es since ∧ ReadInOrder start es since printed
  unsent : ∀ id, s.nextId ≤ id → s.requests id = .unsent
  served : ∀ id since printed, s.serving = .printing (some id) since printed → s.requests id ≠ .unsent
  answered : ∀ id page printed, s.requests id = .answered page printed → ∃ since, Replied start es since printed
  shown : ∀ page printed, s.count_P page = some printed → ∃ since, Replied start es since printed
  behind : ∀ page id since shown printed, s.ajaxRequest page = some id → s.count_P page = some shown →
    s.serving = .printing (some id) since printed → ∀ r ∈ shown, r.moment ≤ since
  later : ∀ page owner id shown printed, s.ajaxRequest page = some id → s.count_P page = some shown →
    s.requests id = .answered owner printed → ∀ r ∈ shown, ∀ r' ∈ printed, r.moment < r'.moment

/-- The loop goes on, and the pages stay as they are. -/
theorem Honest.loop (honest : Honest start es s) (e : LiveEvent) (now : t.now = s.now + 1)
    (nextId : t.nextId = s.nextId) (requests : t.requests = s.requests) (ajaxRequest : t.ajaxRequest = s.ajaxRequest)
    (count_P : t.count_P = s.count_P)
    (printing : ∀ ajax since printed, t.serving = .printing ajax since printed →
      Begun (es ++ [e]) since ∧ ReadInOrder start (es ++ [e]) since printed)
    (same : ∀ id since printed, t.serving = .printing (some id) since printed →
      ∃ before, s.serving = .printing (some id) since before) : Honest start (es ++ [e]) t := by
  refine ⟨?_, printing, ?_, fun id since printed here => ?_, fun id page printed here => ?_, fun page printed here => ?_,
    fun page id since shown printed waits here served => ?_, ?_⟩
  · rw [now, honest.clock, List.length_append, List.length_singleton]
  · rw [nextId, requests]
    exact honest.unsent
  · obtain ⟨before, served⟩ := same id since printed here
    rw [requests]
    exact honest.served id since before served
  · rw [requests] at here
    obtain ⟨since, replied⟩ := honest.answered id page printed here
    exact ⟨since, replied.more e⟩
  · rw [count_P] at here
    obtain ⟨since, replied⟩ := honest.shown page printed here
    exact ⟨since, replied.more e⟩
  · obtain ⟨before, served'⟩ := same id since printed served
    rw [ajaxRequest] at waits
    rw [count_P] at here
    exact honest.behind page id since shown before waits here served'
  · rw [ajaxRequest, count_P, requests]
    exact honest.later

theorem update_cases {α : Type} {f : Nat → α} {i j : Nat} {value x : α} (here : Function.update f i value j = x) :
    (j = i ∧ value = x) ∨ (j ≠ i ∧ f j = x) := by
  by_cases same : j = i
  · rw [same, Function.update_self] at here
    exact .inl ⟨same, here⟩
  · rw [Function.update_of_ne same] at here
    exact .inr ⟨same, here⟩

theorem step_move (taken : s.step e = some t) : ∃ u, s.move e = some u ∧ t = { u with now := s.now + 1 } := by
  obtain ⟨u, moved, rfl⟩ := Option.map_eq_some_iff.mp taken
  exact ⟨u, moved, rfl⟩

theorem move_act {a : Action} (moved : s.move (.act a) = some t) :
    ∃ m, s.machine.step a = some m ∧ t = { s with machine := m } := by
  have acted : (s.machine.step a).map (fun m => { s with machine := m }) = some t := by
    cases a with
    | call u receivedData =>
        cases u with
        | mainLoop => cases moved
        | heartBeat => exact moved
    | assign | eval | write | ret => exact moved
  obtain ⟨m, stepped, rfl⟩ := Option.map_eq_some_iff.mp acted
  exact ⟨m, stepped, rfl⟩

/-- A call of `clientResponse` begins. -/
theorem begin_printing (honest : Honest start es s) (begins : e.begins = true) {ajax : Option Nat}
    (here : Serving.printing ajax s.now [] = .printing ajax since printed) :
    Begun (es ++ [e]) since ∧ ReadInOrder start (es ++ [e]) since printed := by
  obtain ⟨-, rfl, rfl⟩ := Serving.printing.inj here
  rw [honest.clock]
  exact ⟨begun_now es begins, .nil⟩

theorem Honest.act {a : Action} (honest : Honest start es s) (moved : s.move (.act a) = some t) :
    Honest start (es ++ [.act a]) { t with now := s.now + 1 } := by
  obtain ⟨m, -, rfl⟩ := move_act moved
  exact honest.loop _ rfl rfl rfl rfl rfl
    (fun ajax since printed here => (honest.printing ajax since printed here).imp (·.more rfl) (·.more _))
    fun id since printed here => ⟨printed, here⟩

theorem Honest.request {r : Route} (honest : Honest start es s) (moved : s.move (.request r) = some t) :
    Honest start (es ++ [.request r]) { t with now := s.now + 1 } := by
  simp only [move] at moved
  split at moved
  · rename_i waiting
    cases r with
    | portVal cmd =>
        obtain ⟨m, -, rfl⟩ := Option.map_eq_some_iff.mp moved
        exact honest.loop _ rfl rfl rfl rfl rfl (fun _ _ _ here => by cases here) fun _ _ _ here => by cases here
    | getValues =>
        obtain rfl := Option.some.inj moved
        refine honest.loop _ rfl rfl rfl rfl rfl (fun ajax since printed here => ?_) fun _ _ _ here => by cases here
        obtain rfl := (Serving.printing.inj here).1
        exact begin_printing honest rfl here
    | page =>
        obtain rfl := Option.some.inj moved
        refine honest.loop _ rfl rfl rfl rfl rfl (fun _ _ _ here => ?_) fun _ _ _ here => ?_
        · cases waiting.symm.trans here
        · cases waiting.symm.trans here
  · cases moved

theorem Honest.reply (honest : Honest start es s) (moved : s.move .reply = some t) :
    Honest start (es ++ [.reply]) { t with now := s.now + 1 } := by
  simp only [move] at moved
  split at moved
  · obtain rfl := Option.some.inj moved
    refine honest.loop _ rfl rfl rfl rfl rfl (fun ajax since printed here => ?_) fun _ _ _ here => by cases here
    obtain rfl := (Serving.printing.inj here).1
    exact begin_printing honest rfl here
  · cases moved

theorem Honest.print (honest : Honest start es s) (reached : run step start es = some s)
    (moved : s.move .print = some t) : Honest start (es ++ [.print]) { t with now := s.now + 1 } := by
  simp only [move] at moved
  split at moved
  · rename_i ajax since printed serving
    obtain ⟨number, read, rfl⟩ := Option.map_eq_some_iff.mp moved
    obtain ⟨begun, readings⟩ := honest.printing ajax since printed serving
    refine honest.loop _ rfl rfl rfl rfl rfl (fun _ _ _ here => ?_) fun id _ _ here => ?_
    · obtain ⟨rfl, rfl, rfl⟩ := Serving.printing.inj here
      rw [honest.clock]
      exact ⟨begun.more rfl, readings.read reached begun.lt read _⟩
    · obtain ⟨rfl, rfl, -⟩ := Serving.printing.inj here
      exact ⟨printed, serving⟩
  · cases moved

/-- The answer which is complete goes to its page. -/
theorem Honest.finish (honest : Honest start es s) (moved : s.move .finish = some t) :
    Honest start (es ++ [.finish]) { t with now := s.now + 1 } := by
  simp only [move] at moved
  split at moved
  · rename_i ajax since printed serving
    split at moved
    · rename_i whole
      obtain rfl := Option.some.inj moved
      obtain ⟨begun, read⟩ := honest.printing ajax since printed serving
      have idle : ∀ {u : Live}, u = { s with serving := .waiting } →
          Honest start (es ++ [.finish]) { u with now := s.now + 1 } := fun same => by
        subst same
        exact honest.loop _ rfl rfl rfl rfl rfl (fun _ _ _ here => by cases here) fun _ _ _ here => by cases here
      cases ajax with
      | none => exact idle rfl
      | some id =>
          cases state : s.requests id with
          | unsent | sent | answered | done => exact idle (by simp only [answer, state])
          | taken page =>
              have replied : Replied start (es ++ [.finish]) since printed := ⟨es, [], rfl, whole, begun, read⟩
              simp only [answer, state]
              refine ⟨by simp [honest.clock], fun _ _ _ here => (by cases here), fun id' fresh => ?_,
                fun _ _ _ here => (by cases here), fun id' owner printed' here => ?_, fun owner printed' here => ?_,
                fun _ _ _ _ _ _ _ here => (by cases here), fun p owner id' shown printed' waits here there => ?_⟩
              · have other : id' ≠ id := by
                  rintro rfl
                  cases state.symm.trans (honest.unsent id' fresh)
                exact (Function.update_of_ne other _ _).trans (honest.unsent id' fresh)
              · rcases update_cases here with ⟨-, now⟩ | ⟨-, before⟩
                · obtain ⟨-, rfl⟩ := Ajax.answered.inj now
                  exact ⟨since, replied⟩
                · obtain ⟨since', before⟩ := honest.answered id' owner printed' before
                  exact ⟨since', before.more _⟩
              · obtain ⟨since', before⟩ := honest.shown owner printed' here
                exact ⟨since', before.more _⟩
              · rcases update_cases there with ⟨rfl, now⟩ | ⟨-, before⟩
                · obtain ⟨-, rfl⟩ := Ajax.answered.inj now
                  intro r member r' member'
                  have first := honest.behind p id' since shown printed waits here serving r member
                  exact Nat.lt_of_le_of_lt first (read.since r' member')
                · exact honest.later p owner id' shown printed' waits here before
    · cases moved
  · cases moved

theorem Honest.updateCount {page : Nat} (honest : Honest start es s) (moved : s.move (.updateCount page) = some t) :
    Honest start (es ++ [.updateCount page]) { t with now := s.now + 1 } := by
  obtain rfl := Option.some.inj moved
  have old : ∀ {id : Nat} {a : Ajax}, (∀ p, a ≠ .sent p) → Function.update s.requests s.nextId (.sent page) id = a →
      s.requests id = a := fun {id a} other here => by
    rcases update_cases here with ⟨-, now⟩ | ⟨-, before⟩
    · exact absurd now.symm (other page)
    · exact before
  have idle : ∀ since printed, s.serving ≠ .printing (some s.nextId) since printed := fun since printed here =>
    honest.served _ since printed here (honest.unsent _ le_rfl)
  refine ⟨by simp [honest.clock], fun ajax since printed here => ?_, fun id fresh => ?_, fun id since printed here => ?_,
    fun id owner printed here => ?_, fun owner printed here => ?_, fun p id since shown printed waits here there => ?_,
    fun p owner id shown printed waits here there => ?_⟩
  · exact (honest.printing ajax since printed here).imp (·.more rfl) (·.more _)
  · have other : id ≠ s.nextId := Nat.ne_of_gt fresh
    exact (Function.update_of_ne other _ _).trans (honest.unsent id (Nat.le_of_succ_le fresh))
  · intro unsent
    exact honest.served id since printed here (old (fun _ => by simp) unsent)
  · obtain ⟨since, replied⟩ := honest.answered id owner printed (old (fun _ => by simp) here)
    exact ⟨since, replied.more _⟩
  · obtain ⟨since, replied⟩ := honest.shown owner printed here
    exact ⟨since, replied.more _⟩
  · rcases update_cases waits with ⟨-, now⟩ | ⟨-, before⟩
    · obtain rfl := Option.some.inj now
      exact absurd there (idle since printed)
    · exact honest.behind p id since shown printed before here there
  · have answered := old (fun _ => by simp) there
    rcases update_cases waits with ⟨-, now⟩ | ⟨-, before⟩
    · obtain rfl := Option.some.inj now
      cases answered.symm.trans (honest.unsent _ le_rfl)
    · exact honest.later p owner id shown printed before here answered

theorem Honest.serve {id : Nat} (honest : Honest start es s) (moved : s.move (.serve id) = some t) :
    Honest start (es ++ [.serve id]) { t with now := s.now + 1 } := by
  simp only [move] at moved
  split at moved
  · rename_i page waiting sent
    obtain rfl := Option.some.inj moved
    have old : ∀ {j : Nat} {a : Ajax}, (∀ p, a ≠ .taken p) → Function.update s.requests id (.taken page) j = a →
        j ≠ id ∧ s.requests j = a := fun {j a} other here => by
      rcases update_cases here with ⟨-, now⟩ | before
      · exact absurd now.symm (other page)
      · exact before
    refine ⟨by simp [honest.clock], fun ajax since printed here => ?_, fun j fresh => ?_, fun j since printed here => ?_,
      fun j owner printed here => ?_, fun owner printed here => ?_, fun p j since shown printed waits here there => ?_,
      fun p owner j shown printed waits here there => ?_⟩
    · obtain rfl := (Serving.printing.inj here).1
      exact begin_printing honest rfl here
    · have other : j ≠ id := by
        rintro rfl
        cases sent.symm.trans (honest.unsent j fresh)
      exact (Function.update_of_ne other _ _).trans (honest.unsent j fresh)
    · obtain rfl := Option.some.inj (Serving.printing.inj here).1
      intro unsent
      exact (old (fun _ => by simp) unsent).1 rfl
    · obtain ⟨since, replied⟩ := honest.answered j owner printed (old (fun _ => by simp) here).2
      exact ⟨since, replied.more _⟩
    · obtain ⟨since, replied⟩ := honest.shown owner printed here
      exact ⟨since, replied.more _⟩
    · obtain ⟨since', replied⟩ := honest.shown p shown here
      obtain rfl := (Serving.printing.inj there).2.1
      rw [honest.clock]
      exact fun r member => (replied.past r member).le
    · exact honest.later p owner j shown printed waits here (old (fun _ => by simp) there).2
  · cases moved

/-- A request is over, and its page may have stopped waiting. -/
theorem Honest.over (honest : Honest start es s) (id : Nat) (e : LiveEvent) (other : e.begins = false)
    (now : t.now = s.now + 1) (serving : t.serving = s.serving) (nextId : t.nextId = s.nextId)
    (requests : t.requests = Function.update s.requests id .done) (known : s.requests id ≠ .unsent)
    (shown : ∀ page printed, t.count_P page = some printed → ∃ since, Replied start es since printed)
    (waits : ∀ page j, t.ajaxRequest page = some j → s.ajaxRequest page = some j ∧ t.count_P page = s.count_P page) :
    Honest start (es ++ [e]) t := by
  have old : ∀ {j : Nat} {a : Ajax}, a ≠ .done → t.requests j = a → s.requests j = a := fun {j a} apart here => by
    rw [requests] at here
    rcases update_cases here with ⟨-, now⟩ | ⟨-, before⟩
    · exact absurd now.symm apart
    · exact before
  refine ⟨?_, fun ajax since printed here => ?_, fun j fresh => ?_, fun j since printed here => ?_,
    fun j owner printed here => ?_, fun page printed here => ?_, fun page j since visible printed here there serves => ?_,
    fun page owner j visible printed here there answered => ?_⟩
  · rw [now, honest.clock, List.length_append, List.length_singleton]
  · rw [serving] at here
    exact (honest.printing ajax since printed here).imp (·.more other) (·.more _)
  · rw [nextId] at fresh
    have apart : j ≠ id := by
      rintro rfl
      exact known (honest.unsent j fresh)
    rw [requests, Function.update_of_ne apart]
    exact honest.unsent j fresh
  · rw [serving] at here
    exact fun unsent => honest.served j since printed here (old (by simp) unsent)
  · obtain ⟨since, replied⟩ := honest.answered j owner printed (old (by simp) here)
    exact ⟨since, replied.more e⟩
  · obtain ⟨since, replied⟩ := shown page printed here
    exact ⟨since, replied.more e⟩
  · obtain ⟨waited, same⟩ := waits page j here
    rw [same] at there
    rw [serving] at serves
    exact honest.behind page j since visible printed waited there serves
  · obtain ⟨waited, same⟩ := waits page j here
    rw [same] at there
    exact honest.later page owner j visible printed waited there (old (by simp) answered)

theorem Honest.arrive {id : Nat} (honest : Honest start es s) (moved : s.move (.arrive id) = some t) :
    Honest start (es ++ [.arrive id]) { t with now := s.now + 1 } := by
  simp only [move] at moved
  split at moved
  · rename_i page printed answered
    obtain rfl := Option.some.inj moved
    have known : s.requests id ≠ .unsent := by
      rw [answered]
      simp
    unfold show_
    split
    · refine honest.over id _ rfl rfl rfl rfl rfl known (fun p printed' here => ?_) fun p j waits => ?_
      · rcases update_cases here with ⟨-, now⟩ | ⟨-, before⟩
        · obtain rfl := Option.some.inj now
          exact honest.answered id page printed answered
        · exact honest.shown p printed' before
      · rcases update_cases waits with ⟨-, now⟩ | ⟨other, before⟩
        · cases now
        · exact ⟨before, Function.update_of_ne other _ _⟩
    · exact honest.over id _ rfl rfl rfl rfl rfl known honest.shown fun p j waits => ⟨waits, rfl⟩
  · cases moved

theorem Honest.lose {id : Nat} (honest : Honest start es s) (moved : s.move (.lose id) = some t) :
    Honest start (es ++ [.lose id]) { t with now := s.now + 1 } := by
  have ends : ∀ page, s.requests id ≠ .unsent →
      Honest start (es ++ [.lose id]) { ((s.end_ id).giveUp page id) with now := s.now + 1 } := fun page known => by
    unfold giveUp
    split
    · refine honest.over id _ rfl rfl rfl rfl rfl known honest.shown fun p j waits => ?_
      rcases update_cases waits with ⟨-, now⟩ | ⟨-, before⟩
      · cases now
      · exact ⟨before, rfl⟩
    · exact honest.over id _ rfl rfl rfl rfl rfl known honest.shown fun p j waits => ⟨waits, rfl⟩
  cases state : s.requests id with
  | sent page | taken page | answered page printed =>
      simp only [move, state, Option.some.injEq] at moved
      subst moved
      exact ends page (by simp [state])
  | unsent | done => simp [move, state] at moved

theorem Honest.step (honest : Honest start es s) (reached : run Live.step start es = some s)
    (taken : s.step e = some t) : Honest start (es ++ [e]) t := by
  obtain ⟨u, moved, rfl⟩ := step_move taken
  cases e with
  | act a => exact honest.act moved
  | request r => exact honest.request moved
  | reply => exact honest.reply moved
  | print => exact honest.print reached moved
  | finish => exact honest.finish moved
  | updateCount page => exact honest.updateCount moved
  | serve id => exact honest.serve moved
  | arrive id => exact honest.arrive moved
  | lose id => exact honest.lose moved

theorem honest_init (power : Pin → Level) : Honest (init power) [] (init power) := by
  refine ⟨rfl, fun _ _ _ here => ?_, fun _ _ => rfl, fun _ _ _ here => ?_, fun _ _ _ here => ?_, fun _ _ here => ?_,
    fun _ _ _ _ _ here => ?_, fun _ _ _ _ _ here => ?_⟩
  all_goals cases here

theorem honest_run (power : Pin → Level) (reached : run step (init power) es = some s) : Honest (init power) es s :=
  run_induction (motive := Honest (init power)) (honest_init power)
    (fun _ _ _ _ reached honest taken => honest.step reached taken) reached

/-! ## Replies -/

/-- The replies of a run, each with the moment at which `clientResponse` was called. -/
def replies : Live → List LiveEvent → List (Nat × List Reading) := emitted step fun s e _ =>
  match e, s.serving with
  | .finish, .printing _ since printed => [(since, printed)]
  | _, _ => []

/-- What the client receives. -/
def replyText (printed : List Reading) : Str :=
  header.toList ++ [' '].intercalate ((statusKeys.zip (printed.map Reading.number)).map fun entry =>
    entry.1 ++ decimal entry.2)

/-- However the serial thread preempts the loop, each of the five numbers of a reply
    is the one which the board held at some moment behind the call of `clientResponse`
    which the reply comes from, and the moments are in the order of the numbers. -/
theorem replies_read_in_order (power : Pin → Level) (reached : run step (init power) es = some s) :
    ∀ reply ∈ replies (init power) es, Replied (init power) es reply.1 reply.2 := by
  refine run_induction (motive := fun es _ => ∀ reply ∈ replies (init power) es, Replied (init power) es reply.1 reply.2)
    (fun reply none => by cases none) (fun es s e t reached before taken reply member => ?_) reached
  rw [replies, emitted_snoc reached taken] at member
  rcases List.mem_append.mp member with old | new
  · exact (before reply old).more e
  · split at new
    · rename_i ajax since printed serving
      obtain rfl := List.mem_singleton.mp new
      obtain ⟨u, moved, -⟩ := step_move taken
      obtain ⟨begun, read⟩ := (honest_run power reached).printing ajax since printed serving
      refine ⟨es, [], rfl, ?_, begun, read⟩
      simp only [move, serving] at moved
      split at moved
      · assumption
      · cases moved
    · cases new

/-- The serial thread sets port A and then port B between the prints of the two. -/
def torn : List LiveEvent :=
  List.flatten [[.updateCount 0, .serve 0, .print, .print],
    (Action.call .heartBeat "a1".toList :: .assign .heartBeat :: (Machine.loop .heartBeat outputs ++ [.ret .heartBeat])).map .act,
    [.act (.call .heartBeat "b1".toList), .act (.assign .heartBeat), .print, .print, .print, .finish, .arrive 0]]

/-- The numbers are none which the board ever held together. -/
theorem replies_read_in_order_torn :
    ∃ reply, replies (init fun _ => .low) torn = [reply] ∧ reply.2.map Reading.number = [1, 0, 1, 0, 0] ∧
      Replied (init fun _ => .low) torn reply.1 reply.2 ∧
      ∀ s ∈ states step (init fun _ => .low) torn, status s.machine.board ≠ [1, 0, 1, 0, 0] := by
  have ran : (run step (init fun _ => .low) torn).isSome = true := by decide +kernel
  obtain ⟨s, reached⟩ := Option.isSome_iff_exists.mp ran
  have one : replies (init fun _ => .low) torn = [(1, [⟨1, 2⟩, ⟨0, 3⟩, ⟨1, 73⟩, ⟨0, 74⟩, ⟨0, 75⟩])] := by decide +kernel
  refine ⟨_, one, rfl, ?_, by decide +kernel⟩
  exact replies_read_in_order (fun _ => .low) reached _ (by rw [one]; exact List.mem_singleton_self _)

/-! ## A request alone -/

theorem replies_append_finish {u : Live} (reached : run step s es = some t) (quiet : replies s es = [])
    {ajax : Option Nat} (serving : t.serving = .printing ajax since printed) (taken : step t .finish = some u) :
    replies s (es ++ [.finish]) = [(since, printed)] := by
  unfold replies at quiet ⊢
  rw [emitted_snoc reached taken, quiet]
  simp only [serving, List.nil_append]

theorem replies_quiet (s : Live) (quiet : ∀ e ∈ es, e ≠ .finish) : replies s es = [] := by
  unfold replies
  induction es generalizing s with
  | nil => rfl
  | cons e es ih =>
      have rest := fun s => ih s fun f member => quiet f (List.mem_cons_of_mem _ member)
      cases taken : step s e with
      | none => rw [emitted, taken]
      | some t =>
          rw [emitted_cons taken, rest t, List.append_nil]
          split
          · exact absurd rfl (quiet _ List.mem_cons_self)
          · rfl

/-- Without a switch the numbers are those of the board. -/
theorem run_prints (numbers : List Nat) {ajax : Option Nat} (serving : s.serving = .printing ajax since printed)
    (split : status s.machine.board = printed.map Reading.number ++ numbers) :
    ∃ printed', printed'.map Reading.number = status s.machine.board ∧
      run step s (List.replicate numbers.length .print) =
        some { s with serving := .printing ajax since printed', now := s.now + numbers.length } := by
  induction numbers generalizing s printed with
  | nil =>
      refine ⟨printed, by rw [split, List.append_nil], ?_⟩
      rw [← serving]
      rfl
  | cons number numbers ih =>
      let t : Live := { s with serving := .printing ajax since (printed ++ [⟨number, s.now⟩]), now := s.now + 1 }
      have read : (status s.machine.board)[printed.length]? = some number := by
        rw [split, List.getElem?_append_right (by simp)]
        simp
      have taken : step s .print = some t := by
        simp only [step, move, serving, read, Option.map_some, t]
      obtain ⟨printed', whole, ran⟩ := ih (s := t) rfl (by simp [t, split])
      refine ⟨printed', whole, ?_⟩
      rw [List.length_cons, List.replicate_succ, run_cons, taken, Option.bind_some, ran]
      simp only [t, Nat.add_assoc, Nat.add_comm 1]

/-- The prints of `clientResponse`. -/
def prints : List LiveEvent := List.replicate statusKeys.length .print

theorem run_clientResponse (serving : s.serving = .printing none since []) :
    run step s (prints ++ [.finish]) = some { s with serving := .waiting, now := s.now + 6 } ∧
    (replies s (prints ++ [.finish])).map (fun reply => replyText reply.2) = [(clientResponse s.machine.board).client] := by
  obtain ⟨printed, whole, ran⟩ := run_prints (status s.machine.board) serving rfl
  have length : printed.length = statusKeys.length := by
    rw [← List.length_map Reading.number, whole]
    rfl
  let t : Live := { s with serving := .printing none since printed, now := s.now + 5 }
  have reached : run step s prints = some t := ran
  have taken : step t .finish = some { s with serving := .waiting, now := s.now + 6 } := by
    simp only [step, move, t, length, if_true, answer, Option.map_some]
  refine ⟨run_snoc.mpr ⟨t, reached, taken⟩, ?_⟩
  have quiet : replies s prints = [] := replies_quiet s fun e member => by
    rw [List.eq_of_mem_replicate member]
    simp
  rw [replies_append_finish reached quiet rfl taken, List.map_singleton, replyText, whole, clientResponse_client]
  rfl

/-- The loop goes through `decodeData` without a switch. -/
theorem run_acts {as : List Action} {m : Machine} (own : ∀ a ∈ as, ∀ cmd, a ≠ .call .mainLoop cmd)
    (ran : run Machine.step s.machine as = some m) :
    run step s (as.map .act) = some { s with machine := m, now := s.now + as.length } := by
  induction as generalizing s with
  | nil =>
      obtain rfl := Option.some.inj ran
      rfl
  | cons a as ih =>
      obtain ⟨m', first, rest⟩ := run_cons_some.mp ran
      have taken : step s (.act a) = some { s with machine := m', now := s.now + 1 } := by
        have other := own a List.mem_cons_self
        cases a with
        | call u cmd =>
            cases u with
            | mainLoop => exact absurd rfl (other cmd)
            | heartBeat => simp only [step, move, first, Option.map_some]
        | assign | eval | write | ret => simp only [step, move, first, Option.map_some]
      rw [List.map_cons, run_cons, taken, Option.bind_some,
        ih (fun a member => own a (List.mem_cons_of_mem _ member)) rest, List.length_cons]
      simp only [Nat.add_assoc, Nat.add_comm 1]

/-- The steps of the loop for a request of a route. -/
def alone : Route → List LiveEvent
  | .portVal cmd => .request (.portVal cmd) ::
      ((Action.assign .mainLoop :: (Machine.loop .mainLoop outputs ++ [.ret .mainLoop])).map .act ++ .reply :: (prints ++ [.finish]))
  | .getValues => .request .getValues :: (prints ++ [.finish])
  | .page => [.request .page]

theorem run_route (r : Route) (waiting : s.serving = .waiting) (idle : s.machine.pc .mainLoop = .idle) :
    ∃ t, run step s (alone r) = some t ∧ t.serving = .waiting ∧ t.machine.pc = s.machine.pc ∧
      t.machine.board = r.act s.machine.board ∧
      (r ≠ .page → (replies s (alone r)).map (fun reply => replyText reply.2) =
        [(clientResponse (r.act s.machine.board)).client]) := by
  cases r with
  | portVal cmd =>
      -- The request is the call itself, and the loop over the outputs follows.
      obtain ⟨m, called, decoded⟩ := run_cons_some.mp (s.machine.run_call .mainLoop cmd idle)
      let s₁ : Live := { s with machine := m, serving := .deciding, now := s.now + 1 }
      have taken : step s (.request (.portVal cmd)) = some s₁ := by
        simp only [step, move, if_pos waiting, called, Option.map_some, s₁]
      have own : ∀ a ∈ Action.assign .mainLoop :: (Machine.loop .mainLoop outputs ++ [.ret .mainLoop]),
          ∀ c, a ≠ .call .mainLoop c := by
        simp only [Machine.loop, List.mem_cons, List.mem_append, List.mem_flatMap, List.not_mem_nil, or_false]
        rintro a (rfl | ⟨_, -, rfl | rfl⟩ | rfl) c <;> simp
      have acted := run_acts (s := s₁) own decoded
      let s₂ : Live := { s₁ with
        machine := { s.machine with board := (decodeData cmd s.machine.board).1 }
        now := s₁.now + (Action.assign .mainLoop :: (Machine.loop .mainLoop outputs ++ [.ret .mainLoop])).length }
      let s₃ : Live := { s₂ with serving := .printing none s₂.now [], now := s₂.now + 1 }
      have replying : step s₂ .reply = some s₃ := by
        simp only [step, move, s₂, s₁, idle, and_self, if_true, Option.map_some, s₃]
      obtain ⟨ran, said⟩ := run_clientResponse (s := s₃) rfl
      refine ⟨{ s₃ with serving := .waiting, now := s₃.now + 6 }, ?_, rfl, rfl, rfl, fun _ => ?_⟩
      · rw [alone, run_cons, taken, Option.bind_some, run_append, acted, Option.bind_some, run_cons, replying]
        exact ran
      · have quiet : replies s₁ ((Action.assign .mainLoop :: (Machine.loop .mainLoop outputs ++
            [.ret .mainLoop])).map .act) = [] := replies_quiet s₁ fun e member => by
          obtain ⟨a, -, rfl⟩ := List.mem_map.mp member
          simp
        rw [alone, replies, emitted_cons taken, emitted_append acted, ← replies, quiet, replies, emitted_cons replying]
        exact said
  | getValues =>
      let s₁ : Live := { s.set .getValues with serving := .printing none s.now [], now := s.now + 1 }
      have taken : step s (.request .getValues) = some s₁ := by
        simp only [step, move, if_pos waiting, Option.map_some, s₁]
      obtain ⟨ran, said⟩ := run_clientResponse (s := s₁) rfl
      refine ⟨_, run_cons_some.mpr ⟨s₁, taken, ran⟩, rfl, rfl, rfl, fun _ => ?_⟩
      rw [alone, replies, emitted_cons taken]
      exact said
  | page =>
      have taken : step s (.request .page) = some { s.set .page with now := s.now + 1 } := by
        simp only [step, move, if_pos waiting, Option.map_some]
      exact ⟨_, run_cons_some.mpr ⟨_, taken, rfl⟩, waiting, rfl, rfl, fun page => absurd rfl page⟩

/-- Without a switch a request leaves the board which `handleWebServer` leaves, and
    is answered with its text. -/
theorem run_alone (request : Str) (waiting : s.serving = .waiting) (idle : s.machine.pc .mainLoop = .idle) :
    ∃ t, run step s (alone (route request)) = some t ∧ t.serving = .waiting ∧
      t.machine.pc = s.machine.pc ∧ t.machine.board = (handleRequest request s.machine.board).board ∧
      (route request ≠ .page → (replies s (alone (route request))).map (fun reply => replyText reply.2) =
        [(handleRequest request s.machine.board).client]) := by
  obtain ⟨t, ran, waits, pc, board, said⟩ := run_route (route request) waiting idle
  refine ⟨t, ran, waits, pc, board.trans (handleRequest_board request _).symm, fun noPage => ?_⟩
  rw [said noPage, handleRequest_client noPage]

/-! ## A page never goes back -/

theorem Replied.nonempty (replied : Replied start es since printed) : ∃ r, r ∈ printed := by
  obtain ⟨before, rest, -, whole, -⟩ := replied
  exact List.exists_mem_of_length_pos (by rw [whole]; decide)

end Live

end GpioCtrlBoard
