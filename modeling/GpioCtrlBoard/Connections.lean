import GpioCtrlBoard.SocketTable
import GpioCtrlBoard.Stack

/-! # The sockets over whole runs

Unless a `bind` fails, the slots hold the open sockets, each once, and only open
sockets are given to the stack. At most one of them listens.
-/

namespace GpioCtrlBoard

open LabelledRun

namespace Sockets

variable {F : Fnet} {n : Nat} {contract : F.Contract} {w m : Option (Fin n)} {s t : Sockets F n}

/-! ## Steps of the server -/

/-- A call on a socket which opens and closes nothing and makes nothing listen. -/
structure Plain (c : F.Handle → FnetCall F.Handle) : Prop where
  on : ∀ h, (c h).on = some h
  opens : ∀ h reply, (c h).opens reply = none
  closes : ∀ h, (c h).closes = none
  other : ∀ h g, c h ≠ .listen g

theorem plain_setopt : Plain (F := F) .setopt := ⟨fun _ => rfl, fun _ _ => rfl, fun _ => rfl, fun _ _ => by simp⟩
theorem plain_bind : Plain (F := F) .bind := ⟨fun _ => rfl, fun _ _ => rfl, fun _ => rfl, fun _ _ => by simp⟩
theorem plain_shutdown : Plain (F := F) .shutdown := ⟨fun _ => rfl, fun _ _ => rfl, fun _ => rfl, fun _ _ => by simp⟩
theorem plain_peek : Plain (F := F) .peek := ⟨fun _ => rfl, fun _ _ => rfl, fun _ => rfl, fun _ _ => by simp⟩
theorem plain_recvfrom : Plain (F := F) .recvfrom := ⟨fun _ => rfl, fun _ _ => rfl, fun _ => rfl, fun _ _ => by simp⟩
theorem plain_send : Plain (F := F) .send := ⟨fun _ => rfl, fun _ _ => rfl, fun _ => rfl, fun _ _ => by simp⟩

/-- The state of a run in which no `bind` has failed. -/
structure Sound (contract : F.Contract) (s : Sockets F n) : Prop where
  table : Table contract s.phase.waits s.phase.marks s
  holds : s.phase.Holds s.ptr s.Listens
  bound : s.phase.discards = false

/-- An ordinary next phase, with what it needs. -/
structure Next (s : Sockets F n) (phase : ServerPhase n) : Prop where
  waits : phase.waits = none
  marks : phase.marks = none
  bound : phase.discards = false
  holds : phase.Holds s.ptr s.Listens

theorem Sound.enter (table : Table contract none none s) {phase : ServerPhase n} (next : Next s phase) :
    Sound contract (s.at_ phase) := by
  refine ⟨?_, next.holds, next.bound⟩
  change Table contract phase.waits phase.marks _
  rw [next.waits, next.marks]
  exact table.of_eq rfl rfl rfl rfl

theorem Table.legal_on (table : Table contract none m s) {i : Fin n} {h : F.Handle} (here : s.ptr i = some h)
    {c : FnetCall F.Handle} (on : c.on = some h) (g : F.Handle) (given : c.on = some g) : contract.isOpen s.net g := by
  obtain rfl := Option.some.inj (on.symm.trans given)
  exact table.opened i h (by simp) here

/-- The table after a plain call on the socket of a slot. -/
theorem Table.plain (table : Table contract none m s) {i : Fin n} {h : F.Handle} (here : s.ptr i = some h)
    {c : F.Handle → FnetCall F.Handle} (plain : Plain c) : Table contract none m (s.call (c h)) :=
  table.call (table.legal_on here (plain.on h)) (plain.opens h _) (plain.closes h) (.inl (plain.other h))

theorem Next.plain (table : Table contract none m s) {phase : ServerPhase n} (next : Next s phase) {i : Fin n}
    {h : F.Handle} (here : s.ptr i = some h) {c : F.Handle → FnetCall F.Handle} (plain : Plain c) :
    Next (s.call (c h)) phase :=
  ⟨next.waits, next.marks, next.bound, next.holds.mono (fun _ => Iff.rfl)
    fun _ => listens_call (table.legal_on here (plain.on h)) (.inl (plain.other h))⟩

theorem Sound.on (table : Table contract none none s) {i : Fin n} {c : F.Handle → FnetCall F.Handle}
    {phase : Reply F.Handle → ServerPhase n} (taken : s.on i c (fun reply u => u.at_ (phase reply)) = some t)
    (plain : Plain c) (next : ∀ reply, s.ptr i ≠ none → Next s (phase reply)) : Sound contract t := by
  obtain ⟨h, here, rfl⟩ := on_some taken
  exact .enter (table.plain here plain) ((next _ (by rw [here]; simp)).plain table here plain)

/-- The scan goes on with the next slot. -/
theorem Next.scan {i : Nat} {sockindex : Option (Fin n)} {listening : Bool}
    (ahead : listening = false → ∀ j, s.Listens j → i ≤ j) : Next s (.scan i sockindex listening) :=
  ⟨rfl, rfl, rfl, ahead⟩

/-- The scan of `server.available`. -/
theorem Sound.go_scan {i : Nat} {sockindex : Option (Fin n)} {listening : Bool} {more : Bool}
    (sound : Sound contract s) (phase : s.phase = .scan i sockindex listening) (taken : s.go more = some t) :
    Sound contract t := by
  obtain ⟨table, holds, -⟩ := sound
  rw [phase] at table holds
  simp only [go, phase] at taken
  split at taken
  · rename_i inside
    split at taken
    · obtain rfl := Option.some.inj taken
      exact .enter table ⟨rfl, rfl, rfl, fun known none => known (socketStatus_closed none), fun now => now, holds⟩
    · rename_i unmarked
      obtain rfl := Option.some.inj taken
      refine .enter table (.scan fun alone j now => ?_)
      have other : (j : Nat) ≠ i := by
        rintro rfl
        rcases table.marked j now with none | marked
        · cases none
        · exact unmarked marked
      exact Nat.lt_of_le_of_ne (holds alone j now) other.symm
  · rename_i past
    obtain rfl := Option.some.inj taken
    cases listening with
    | true => exact .enter table ⟨rfl, rfl, rfl, trivial⟩
    | false =>
        refine .enter table ⟨rfl, rfl, rfl, fun j now => past ?_⟩
        exact Nat.lt_of_le_of_lt (holds rfl j now) j.isLt

theorem Sound.go_look {i : Fin n} {stat : SnSR} {sockindex : Option (Fin n)} {listening : Bool} {more : Bool}
    (sound : Sound contract s) (phase : s.phase = .look i stat sockindex listening) (taken : s.go more = some t) :
    Sound contract t := by
  obtain ⟨table, holds, -⟩ := sound
  rw [phase] at table holds
  obtain ⟨known, status, ahead⟩ := holds
  simp only [go, phase] at taken
  -- A slot which does not listen is behind the scan.
  have past : stat ≠ .LISTEN → listening = false → ∀ j, s.Listens j → (i : Nat) + 1 ≤ j := by
    intro other alone j now
    have apart : (i : Nat) ≠ j := fun same => other (status (Fin.ext same ▸ now))
    exact Nat.lt_of_le_of_ne (ahead alone j now) apart
  cases stat with
  | ESTABLISHED =>
      refine .on table taken plain_peek fun reply _ => ?_
      simp only [reduceCtorEq, if_false]
      split
      · exact .scan (past (by simp))
      · exact .scan (past (by simp))
  | CLOSE_WAIT =>
      refine .on table taken plain_peek fun reply open_ => ?_
      simp only [if_true]
      split
      · exact .scan (past (by simp))
      · exact ⟨rfl, rfl, rfl, open_, past (by simp)⟩
  | LISTEN =>
      obtain rfl := Option.some.inj taken
      exact .enter table (.scan fun alone => by cases alone)
  | CLOSED =>
      obtain rfl := Option.some.inj taken
      have quiet : ¬ s.Listens i := fun now => by cases status now
      exact .enter (table.unmark quiet) (.scan (past (by simp)))
  | INIT | one =>
      obtain rfl := Option.some.inj taken
      exact .enter table (.scan (past (by simp)))

/-- `socketClose`. -/
theorem Sound.go_wait {i : Fin n} {after : After n} {more : Bool} (sound : Sound contract s)
    (phase : s.phase = .wait i after) (taken : s.go more = some t) : Sound contract t := by
  have table := sound.table
  have holds := sound.holds
  rw [phase] at table holds
  simp only [go, phase, Option.some.injEq] at taken
  subst taken
  split
  · -- The pointer is cleared, and the slot is free for what comes next.
    have cleared := Table.clear table
    have rest : after.Holds (s.setPtr i none).Listens := holds.2.mono fun j now => (listens_setPtr_none now).2
    cases after with
    | scan k sockindex listening => exact .enter cleared (.scan rest)
    | make sockindex => exact .enter cleared ⟨rfl, rfl, rfl, ptr_setPtr_self s i none, rest⟩
    | idle => exact .enter cleared ⟨rfl, rfl, rfl, trivial⟩
  · exact sound

/-- `socketBegin`, up to the `socket` which it makes. -/
theorem Sound.go_begin {sockindex : Option (Fin n)} {more : Bool} (sound : Sound contract s)
    (phase : s.phase = .begin_ sockindex) (taken : s.go more = some t) : Sound contract t := by
  obtain ⟨table, holds, -⟩ := sound
  rw [phase] at table holds
  simp only [go, phase] at taken
  split at taken
  · rename_i i found
    obtain rfl := Option.some.inj taken
    have unused := List.find?_some (p := fun i => (s.ptr i).isNone) found
    exact .enter table ⟨rfl, rfl, rfl, Option.isNone_iff_eq_none.mp unused, holds⟩
  · obtain rfl := Option.some.inj taken
    exact .enter table ⟨rfl, rfl, rfl, holds⟩

theorem Sound.go_resort {i : Nat} {sockindex : Option (Fin n)} {more : Bool} (sound : Sound contract s)
    (phase : s.phase = .resort i sockindex) (taken : s.go more = some t) : Sound contract t := by
  obtain ⟨table, holds, -⟩ := sound
  rw [phase] at table holds
  simp only [go, phase] at taken
  split at taken
  · split at taken
    · rename_i leaving
      obtain rfl := Option.some.inj taken
      refine .enter table ⟨rfl, rfl, rfl, fun none => ?_, holds⟩
      rw [socketStatus_closed none] at leaving
      cases leaving
    · obtain rfl := Option.some.inj taken
      exact .enter table ⟨rfl, rfl, rfl, holds⟩
  · obtain rfl := Option.some.inj taken
    exact .enter table ⟨rfl, rfl, rfl, trivial⟩

theorem Sound.go_make {i : Fin n} {sockindex : Option (Fin n)} {more : Bool} (sound : Sound contract s)
    (phase : s.phase = .make i sockindex) (taken : s.go more = some t) : Sound contract t := by
  obtain ⟨table, holds, -⟩ := sound
  rw [phase] at table holds
  obtain ⟨unused, silent⟩ := holds
  simp only [go, phase, Option.some.injEq] at taken
  subst taken
  have made := Table.make table unused
  cases outcome : (s.reply .socket).made with
  | none =>
      rw [outcome] at made
      exact .enter made ⟨rfl, rfl, rfl, trivial⟩
  | some h =>
      rw [outcome] at made
      refine .enter made ⟨rfl, rfl, rfl, ?_, fun j now => silent j (listens_make contract outcome now).2⟩
      rw [ptr_setPtr_self]
      simp

theorem Sound.go_bind {i : Fin n} {sockindex : Option (Fin n)} {more : Bool} (sound : Sound contract s)
    (phase : s.phase = .bind i sockindex) (taken : s.go more = some t) (bound : t.phase.discards = false) :
    Sound contract t := by
  obtain ⟨table, holds, -⟩ := sound
  rw [phase] at table holds
  obtain ⟨open_, silent⟩ := holds
  simp only [go, phase] at taken
  obtain ⟨h, here, rfl⟩ := on_some taken
  split at bound
  · rename_i ok
    rw [if_pos ok]
    have quiet : ∀ j, ¬ (s.call (.bind h)).Listens j := fun j now =>
      silent j (listens_call (table.legal_on here rfl) (.inl (plain_bind.other h)) now)
    exact .enter ((table.plain here plain_bind).unmark (quiet i)) ⟨rfl, rfl, rfl, open_, quiet⟩
  · cases bound

theorem Sound.go_listen {i : Fin n} {sockindex : Option (Fin n)} {more : Bool} (sound : Sound contract s)
    (phase : s.phase = .listen i sockindex) (taken : s.go more = some t) : Sound contract t := by
  obtain ⟨table, holds, -⟩ := sound
  rw [phase] at table holds
  obtain ⟨open_, silent⟩ := holds
  simp only [go, phase] at taken
  obtain ⟨h, here, rfl⟩ := on_some taken
  cases ok : (s.reply (.listen h)).ok with
  | true => exact ⟨(table.listen here silent).of_eq rfl rfl rfl rfl, open_, rfl⟩
  | false =>
      have refused : Table contract none none (s.call (.listen h)) :=
        table.call (table.legal_on here rfl) rfl rfl (.inr ok)
      exact .enter refused ⟨rfl, rfl, rfl, open_⟩

theorem Sound.go {more : Bool} (sound : Sound contract s) (taken : s.go more = some t)
    (bound : t.phase.discards = false) : Sound contract t := by
  cases phase : s.phase with
  | scan i sockindex listening => exact sound.go_scan phase taken
  | look i stat sockindex listening => exact sound.go_look phase taken
  | wait i after => exact sound.go_wait phase taken
  | begin_ sockindex => exact sound.go_begin phase taken
  | resort i sockindex => exact sound.go_resort phase taken
  | make i sockindex => exact sound.go_make phase taken
  | bind i sockindex => exact sound.go_bind phase taken bound
  | listen i sockindex => exact sound.go_listen phase taken
  | discard i sockindex =>
      have bound' := sound.bound
      rw [phase] at bound'
      cases bound'
  | idle =>
      obtain ⟨table, holds, -⟩ := sound
      rw [phase] at table
      simp only [Sockets.go, phase, Option.some.injEq] at taken
      subst taken
      exact .enter table (.scan fun _ j _ => Nat.zero_le j)
  | shut i after =>
      obtain ⟨table, holds, -⟩ := sound
      rw [phase] at table holds
      simp only [Sockets.go, phase] at taken
      exact .on table taken plain_shutdown fun _ _ => ⟨rfl, rfl, rfl, holds⟩
  | close i after =>
      obtain ⟨table, holds, -⟩ := sound
      rw [phase] at table holds
      simp only [Sockets.go, phase] at taken
      obtain ⟨h, here, rfl⟩ := on_some taken
      refine ⟨(table.close here).of_eq rfl rfl rfl rfl, ⟨holds.1, ?_⟩, rfl⟩
      exact holds.2.mono fun j => listens_call (table.legal_on here rfl) (.inl fun _ => by simp)
  | setopt i sockindex =>
      obtain ⟨table, holds, -⟩ := sound
      rw [phase] at table holds
      simp only [Sockets.go, phase] at taken
      exact .on table taken plain_setopt fun _ _ => ⟨rfl, rfl, rfl, holds⟩
  | mark i sockindex =>
      obtain ⟨table, holds, -⟩ := sound
      rw [phase] at table holds
      simp only [Sockets.go, phase, Option.some.injEq] at taken
      subst taken
      exact .enter table.mark ⟨rfl, rfl, rfl, holds⟩
  | register i sockindex =>
      obtain ⟨table, holds, -⟩ := sound
      rw [phase] at table holds
      simp only [Sockets.go, phase, Option.some.injEq] at taken
      subst taken
      have called : Table contract none none (s.call .register) :=
        table.call (by simp [FnetCall.on]) rfl rfl (.inl fun _ => by simp)
      refine .enter called ?_
      split
      · exact ⟨rfl, rfl, rfl, trivial⟩
      · exact ⟨rfl, rfl, rfl, holds⟩
  | giveUp i sockindex =>
      obtain ⟨table, holds, -⟩ := sound
      rw [phase] at table
      simp only [Sockets.go, phase] at taken
      exact .on table taken plain_shutdown fun _ _ => ⟨rfl, rfl, rfl, trivial⟩
  | client sockindex =>
      obtain ⟨table, holds, -⟩ := sound
      rw [phase] at table
      simp only [Sockets.go, phase] at taken
      cases sockindex with
      | none =>
          obtain rfl := Option.some.inj taken
          exact .enter table ⟨rfl, rfl, rfl, trivial⟩
      | some i =>
          simp only at taken
          split at taken
          · obtain rfl := Option.some.inj taken
            exact .enter table ⟨rfl, rfl, rfl, trivial⟩
          · refine .on table taken plain_recvfrom fun reply open_ => ?_
            split
            · exact ⟨rfl, rfl, rfl, open_⟩
            · exact ⟨rfl, rfl, rfl, trivial⟩
  | serve i =>
      obtain ⟨table, holds, -⟩ := sound
      rw [phase] at table holds
      simp only [Sockets.go, phase] at taken
      split at taken
      · obtain ⟨h, here, rfl⟩ := on_some taken
        have stays : (s.call (.send h)).at_ s.phase = s.call (.send h) := rfl
        rw [← stays, phase]
        exact .enter (table.plain here plain_send) ⟨rfl, rfl, rfl, holds⟩
      · obtain rfl := Option.some.inj taken
        exact .enter table ⟨rfl, rfl, rfl, holds⟩
  | hangUp i =>
      obtain ⟨table, holds, -⟩ := sound
      rw [phase] at table
      simp only [Sockets.go, phase] at taken
      exact .on table taken plain_shutdown fun _ _ => ⟨rfl, rfl, rfl, trivial⟩
  | connected i left =>
      obtain ⟨table, holds, -⟩ := sound
      rw [phase] at table
      simp only [Sockets.go, phase] at taken
      split at taken <;> obtain rfl := Option.some.inj taken <;> exact .enter table ⟨rfl, rfl, rfl, trivial⟩
  | available i left =>
      obtain ⟨table, holds, -⟩ := sound
      rw [phase] at table
      simp only [Sockets.go, phase] at taken
      split at taken
      · obtain rfl := Option.some.inj taken
        exact .enter table ⟨rfl, rfl, rfl, trivial⟩
      · split at taken
        · obtain rfl := Option.some.inj taken
          exact .enter table ⟨rfl, rfl, rfl, trivial⟩
        · refine .on table taken plain_recvfrom fun reply _ => ?_
          split <;> exact ⟨rfl, rfl, rfl, trivial⟩
  | stop i =>
      obtain ⟨table, holds, -⟩ := sound
      rw [phase] at table
      simp only [Sockets.go, phase, Option.some.injEq] at taken
      subst taken
      refine .enter table ?_
      split
      · exact ⟨rfl, rfl, rfl, trivial⟩
      · rename_i here
        exact ⟨rfl, rfl, rfl, fun none => here (by rw [none]; rfl), trivial⟩

/-! ## The interrupt, and whole runs -/

theorem pollSlot_phase (s : Sockets F n) (i : Fin n) : (s.pollSlot i).phase = s.phase := by
  rcases pollSlot_cases s i with same | ⟨h, -, -, -, ⟨-, kept⟩ | ⟨tmp, -, kept⟩⟩
  · rw [same]
  · rw [kept]
    rfl
  · rw [kept]
    rfl

/-- `poll` exchanges sockets, but takes and frees no slot. -/
theorem pollSlot_isNone (s : Sockets F n) (i j : Fin n) : (s.pollSlot i).ptr j = none ↔ s.ptr j = none := by
  rcases pollSlot_cases s i with same | ⟨h, -, -, here, ⟨-, kept⟩ | ⟨tmp, -, kept⟩⟩
  · rw [same]
  · rw [kept]
    rfl
  · rw [kept]
    change Function.update s.ptr i (some tmp) j = none ↔ _
    by_cases hit : j = i
    · rw [hit, Function.update_self, here]
      simp
    · rw [Function.update_of_ne hit]

theorem Sound.pollSlot (sound : Sound contract s) (i : Fin n) : Sound contract (s.pollSlot i) := by
  obtain ⟨table, less⟩ := sound.table.pollSlot i
  refine ⟨?_, ?_, ?_⟩
  · rw [pollSlot_phase]
    exact table
  · rw [pollSlot_phase]
    exact sound.holds.mono (pollSlot_isNone s i) less
  · rw [pollSlot_phase]
    exact sound.bound

theorem Sound.step {e : SocketEvent F} (sound : Sound contract s) (taken : s.step e = some t)
    (bound : t.phase.discards = false) : Sound contract t := by
  cases e with
  | go more => exact sound.go taken bound
  | poll =>
      obtain rfl := Option.some.inj taken
      exact poll_induction sound fun u i before => before.pollSlot i
  | move m =>
      obtain rfl := Option.some.inj taken
      refine ⟨sound.table.move m, sound.holds.mono (fun _ => Iff.rfl) fun j now => ?_, sound.bound⟩
      obtain ⟨h, here, listening⟩ := listens_iff.mp now
      exact listens_iff.mpr ⟨h, here, contract.listening_move listening⟩

/-- A step is a `bind` which fails. -/
def bindFails (s : Sockets F n) (e : SocketEvent F) : Bool := (s.step e).any fun t => t.phase.discards

/-- No `bind` fails in a run. -/
def Bound (s : Sockets F n) (es : List (SocketEvent F)) : Prop :=
  Always Sockets.step (fun s e => s.bindFails e = false) s es

instance (s : Sockets F n) (es : List (SocketEvent F)) : Decidable (Bound s es) :=
  inferInstanceAs (Decidable (Always Sockets.step (fun s e => s.bindFails e = false) s es))

theorem discards_step {e : SocketEvent F} (bound : s.bindFails e = false) (taken : s.step e = some t) :
    t.phase.discards = false := by
  rw [bindFails, taken] at bound
  exact bound

theorem Sound.run {es : List (SocketEvent F)} (sound : Sound contract s)
    (reached : LabelledRun.run Sockets.step s es = some t) (bound : Bound s es) : Sound contract t :=
  Always.run (fun _ _ _ bound sound taken => sound.step taken (discards_step bound taken)) bound reached sound

theorem sound_init {net : F.State} (serverPort : Fin n → Bool) (fresh : ∀ h, ¬ contract.isOpen net h) :
    Sound contract (init net serverPort) := by
  have silent : ∀ i, ¬ (init net serverPort).Listens i := fun i now => by
    obtain ⟨h, here, -⟩ := listens_iff.mp now
    cases here
  refine ⟨⟨fun i h _ here => ?_, fun i j h _ _ here => ?_, fun h isOpen => absurd isOpen (fresh h), fun i none => ?_,
    fun i j now => absurd now (silent i), fun i now => absurd now (silent i), fun u member => ?_⟩, silent, rfl⟩
  · cases here
  · cases here
  · cases none
  · cases member

/-- Slots on a stack with four sockets. -/
def bench (n : Nat) : Sockets (Pool.fnet 4) n := init (Pool.empty 4) fun _ => false

/-- A connection is accepted, and a listening socket is made in the next slot. -/
def accepting : List (SocketEvent (Pool.fnet 4)) :=
  List.replicate 8 (.go false) ++ [.move .connect, .poll] ++ List.replicate 13 (.go false)

/-- A request is served in two texts, its peer leaves, and the socket is closed. -/
def serving : List (SocketEvent (Pool.fnet 4)) :=
  accepting ++ [.move (.arrive (Pool.nth 1) 5)] ++ List.replicate 7 (.go false) ++ [.go true, .go true] ++
    List.replicate 3 (.go false) ++ [.move (.leave (Pool.nth 1))] ++ List.replicate 5 (.go false)

/-- Unless a `bind` fails, at most one socket listens, and it is marked with the port of
    the server, or is about to be. -/
theorem single_listener (contract : F.Contract) {net : F.State} {serverPort : Fin n → Bool}
    {es : List (SocketEvent F)} {s : Sockets F n} (fresh : ∀ h, ¬ contract.isOpen net h)
    (reached : LabelledRun.run Sockets.step (init net serverPort) es = some s) (bound : Bound (init net serverPort) es) :
    (∀ i j, s.Listens i → s.Listens j → i = j) ∧
    ∀ i, s.Listens i → s.phase.marks = some i ∨ s.serverPort i = true := by
  have sound := (sound_init serverPort fresh).run reached bound
  exact ⟨sound.table.one, sound.table.marked⟩

/-- The new socket listens before it is marked. -/
theorem single_listener_accepting :
    ∃ s, LabelledRun.run Sockets.step (bench 2) (accepting.take 20) = some s ∧ s.phase = .mark 1 none ∧
      s.socketStatus 0 = .ESTABLISHED ∧ s.Listens 1 ∧ s.serverPort 1 = false ∧ ∀ i, s.Listens i → i = 1 := by
  have run : (LabelledRun.run Sockets.step (bench 2) (accepting.take 20)).any (fun s => s.phase = .mark 1 none ∧
      s.socketStatus 0 = .ESTABLISHED ∧ s.Listens 1 ∧ s.serverPort 1 = false) = true := by decide +kernel
  obtain ⟨s, reached, facts⟩ := (Option.any_eq_true _ _).mp run
  obtain ⟨phase, connected, listens, unmarked⟩ := of_decide_eq_true facts
  obtain ⟨one, -⟩ := single_listener (Pool.contract 4) Pool.closed_empty reached (by decide +kernel)
  exact ⟨s, reached, phase, connected, listens, unmarked, fun i now => one i 1 now listens⟩

/-- The port is taken when the second listening socket is made, and free again later. -/
def dangling : List (SocketEvent (Pool.fnet 4)) :=
  List.replicate 8 (.go false) ++ [.move .connect, .poll, .move (.take true)] ++ List.replicate 13 (.go false) ++
    [.move (.take false)] ++ List.replicate 16 (.go false)

/-- The socket which the failed `bind` has closed is given out again, and both slots
    hold it. -/
theorem dangling_listens :
    ∃ s, LabelledRun.run Sockets.step (bench 3) dangling = some s ∧ s.ptr 1 = s.ptr 2 ∧ s.Listens 1 ∧ s.Listens 2 := by
  have run : (LabelledRun.run Sockets.step (bench 3) dangling).any (fun s => s.ptr 1 = s.ptr 2 ∧ s.Listens 1 ∧
      s.Listens 2) = true := by decide +kernel
  obtain ⟨s, reached, facts⟩ := (Option.any_eq_true _ _).mp run
  exact ⟨s, reached, of_decide_eq_true facts⟩

end Sockets

end GpioCtrlBoard
