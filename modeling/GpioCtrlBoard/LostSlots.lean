import GpioCtrlBoard.Connections

/-! # Lost slots

The server closes a slot whose status is `CLOSE_WAIT`. A socket which is closed behind
its back, by a reset for instance, is never found in this status: its slot is lost.
-/

namespace GpioCtrlBoard

open LabelledRun

/-- The `sockindex` which is kept while a slot is being closed. -/
def After.sockindex {n : Nat} : After n → Option (Fin n)
  | scan _ sockindex _ | make sockindex => sockindex
  | idle => none

namespace ServerPhase

variable {n : Nat}

/-- `loop` is going to make a call on the socket of the slot, or may do so. -/
def Has (i : Fin n) : ServerPhase n → Prop
  | .idle => False
  | .scan _ sockindex _ | .begin_ sockindex | .resort _ sockindex | .client sockindex => sockindex = some i
  | .look j stat sockindex _ => sockindex = some i ∨ (j = i ∧ (stat = .ESTABLISHED ∨ stat = .CLOSE_WAIT))
  | .shut j after | .close j after | .wait j after => j = i ∨ after.sockindex = some i
  | .make j sockindex | .setopt j sockindex | .bind j sockindex | .discard j sockindex | .listen j sockindex
  | .mark j sockindex | .register j sockindex | .giveUp j sockindex => j = i ∨ sockindex = some i
  | .serve j | .hangUp j | .connected j _ | .available j _ | .stop j => j = i

/-- No slot is in hand, and no socket is to be made. -/
def Skips : ServerPhase n → Prop
  | .idle => True
  | .scan _ sockindex listening => sockindex = none ∧ listening = false
  | .look _ stat sockindex listening => sockindex = none ∧ listening = false ∧ (stat = .CLOSED ∨ stat = .one)
  | .begin_ sockindex | .resort _ sockindex | .client sockindex => sockindex = none
  | _ => False

end ServerPhase

theorem After.phase_has {n : Nat} {i j : Fin n} {after : After n} (has : (after.phase j).Has i) :
    j = i ∨ after.sockindex = some i := by
  cases after with
  | scan => exact .inr has
  | make => exact has
  | idle => cases has

namespace Sockets

variable {F : Fnet} {n : Nat} {contract : F.Contract} {m : Option (Fin n)} {s t : Sockets F n}
  {i j : Fin n} {h : F.Handle}

/-- The slot holds a socket whose connection is over, and `loop` is done with it. -/
structure Lost (i : Fin n) (h : F.Handle) (s : Sockets F n) : Prop where
  here : s.ptr i = some h
  gone : (F.state h s.net).Over
  apart : ¬ s.phase.Has i

theorem status_gone (here : s.ptr i = some h) (gone : (F.state h s.net).Over) :
    s.socketStatus i = .CLOSED ∨ s.socketStatus i = .one := by
  simp only [socketStatus, here]
  rcases gone with gone | gone
  · exact .inl (by rw [gone]; rfl)
  · exact .inr (by rw [gone]; rfl)

theorem not_active (here : s.ptr i = some h) (gone : (F.state h s.net).Over) :
    ¬ (s.socketStatus i = .ESTABLISHED ∨ s.socketStatus i = .CLOSE_WAIT) := by
  rcases status_gone here gone with closed | one
  · simp [closed]
  · simp [one]

/-! ## One slot -/

theorem Lost.of_eq (lost : Lost i h s) (ptr : t.ptr i = s.ptr i) (net : t.net = s.net) (apart : ¬ t.phase.Has i) :
    Lost i h t :=
  ⟨ptr.trans lost.here, net ▸ lost.gone, apart⟩

/-- A call which is about no socket. -/
theorem Lost.call (table : Table contract none m s) (lost : Lost i h s) {c : FnetCall F.Handle} (none : c.on = none)
    (ptr : t.ptr i = s.ptr i) (net : t.net = (s.call c).net) (apart : ¬ t.phase.Has i) : Lost i h t := by
  refine ⟨ptr.trans lost.here, net ▸ ?_, apart⟩
  refine contract.over_call (fun g given => ?_) (table.opened i h (by simp) lost.here) ?_ lost.gone
  · rw [none] at given
    cases given
  · rw [none]
    simp

/-- A call on the socket of another slot. -/
theorem Lost.on (table : Table contract none m s) (lost : Lost i h s) {c : F.Handle → FnetCall F.Handle}
    {next : Reply F.Handle → Sockets F n → Sockets F n} (taken : s.on j c next = some t)
    (on : ∀ g, (c g).on = some g) (other : j ≠ i)
    (kept : ∀ g, (next (s.reply (c g)) (s.call (c g))).ptr = s.ptr ∧
      (next (s.reply (c g)) (s.call (c g))).net = (s.call (c g)).net ∧
      ¬ (next (s.reply (c g)) (s.call (c g))).phase.Has i) : Lost i h t := by
  obtain ⟨g, there, rfl⟩ := on_some taken
  obtain ⟨ptr, net, apart⟩ := kept g
  refine ⟨(congrFun ptr i).trans lost.here, net ▸ ?_, apart⟩
  refine contract.over_call (table.legal_on there (on g)) (table.opened i h (by simp) lost.here) ?_ lost.gone
  rw [on g]
  rintro ⟨⟩
  exact other (table.apart j i h (by simp) (by simp) there lost.here)

theorem Lost.go {more : Bool} (sound : Sound contract s) (lost : Lost i h s) (taken : s.go more = some t) :
    Lost i h t := by
  have table := sound.table
  have apart := lost.apart
  have quiet := not_active lost.here lost.gone
  cases phase : s.phase with
  | idle =>
      simp only [Sockets.go, phase, Option.some.injEq] at taken
      subst taken
      exact lost.of_eq rfl rfl (by simp [Sockets.at_, ServerPhase.Has])
  | scan k sockindex listening =>
      rw [phase] at apart
      simp only [Sockets.go, phase] at taken
      split at taken
      · split at taken
        · obtain rfl := Option.some.inj taken
          refine lost.of_eq rfl rfl ?_
          rintro (has | ⟨rfl, active⟩)
          · exact apart has
          · exact quiet active
        · obtain rfl := Option.some.inj taken
          exact lost.of_eq rfl rfl apart
      · obtain rfl := Option.some.inj taken
        refine lost.of_eq rfl rfl ?_
        cases listening <;> exact apart
  | look j stat sockindex listening =>
      rw [phase] at apart
      simp only [Sockets.go, phase] at taken
      rw [phase] at table
      cases stat with
      | ESTABLISHED | CLOSE_WAIT =>
          have other : j ≠ i := fun same => apart (.inr ⟨same, by simp⟩)
          have kept : ¬ sockindex = some i := fun has => apart (.inl has)
          refine .on table lost taken (fun _ => rfl) other fun g => ⟨rfl, rfl, ?_⟩
          simp only [Sockets.at_, reduceCtorEq, if_true, if_false]
          repeat' split
          all_goals simp [ServerPhase.Has, After.sockindex, other, kept]
      | LISTEN | CLOSED | INIT | one =>
          obtain rfl := Option.some.inj taken
          exact lost.of_eq rfl rfl fun has => apart (.inl has)
  | shut j after =>
      rw [phase] at apart table
      simp only [Sockets.go, phase] at taken
      exact .on table lost taken (fun _ => rfl) (fun same => apart (.inl same)) fun g => ⟨rfl, rfl, apart⟩
  | close j after =>
      rw [phase] at apart table
      simp only [Sockets.go, phase] at taken
      exact .on table lost taken (fun _ => rfl) (fun same => apart (.inl same)) fun g => ⟨rfl, rfl, apart⟩
  | wait j after =>
      rw [phase] at apart
      simp only [Sockets.go, phase, Option.some.injEq] at taken
      subst taken
      split
      · have other : i ≠ j := fun same => apart (.inl same.symm)
        exact lost.of_eq (ptr_setPtr_other s none other) rfl fun has => apart (After.phase_has has)
      · exact lost
  | begin_ sockindex =>
      rw [phase] at apart
      simp only [Sockets.go, phase] at taken
      split at taken
      · rename_i j found
        obtain rfl := Option.some.inj taken
        have unused := List.find?_some (p := fun i => (s.ptr i).isNone) found
        refine lost.of_eq rfl rfl ?_
        rintro (rfl | has)
        · rw [lost.here] at unused
          cases unused
        · exact apart has
      · obtain rfl := Option.some.inj taken
        exact lost.of_eq rfl rfl apart
  | resort k sockindex =>
      rw [phase] at apart
      simp only [Sockets.go, phase] at taken
      split at taken
      · split at taken
        · rename_i leaving
          obtain rfl := Option.some.inj taken
          refine lost.of_eq rfl rfl ?_
          rintro (rfl | has)
          · exact quiet (.inr leaving)
          · exact apart has
        · obtain rfl := Option.some.inj taken
          exact lost.of_eq rfl rfl apart
      · obtain rfl := Option.some.inj taken
        exact lost.of_eq rfl rfl apart
  | make j sockindex =>
      rw [phase] at apart table
      simp only [Sockets.go, phase, Option.some.injEq] at taken
      subst taken
      have other : i ≠ j := fun same => apart (.inl same.symm)
      refine .call (c := .socket) table lost rfl (ptr_setPtr_other _ _ other) rfl ?_
      split
      · exact apart
      · exact fun has => apart (.inr has)
  | setopt j sockindex =>
      rw [phase] at apart table
      simp only [Sockets.go, phase] at taken
      exact .on table lost taken (fun _ => rfl) (fun same => apart (.inl same)) fun g => ⟨rfl, rfl, apart⟩
  | bind j sockindex =>
      rw [phase] at apart table
      simp only [Sockets.go, phase] at taken
      refine .on table lost taken (fun _ => rfl) (fun same => apart (.inl same)) fun g => ?_
      split <;> exact ⟨rfl, rfl, apart⟩
  | discard j sockindex =>
      rw [phase] at apart table
      simp only [Sockets.go, phase] at taken
      exact .on table lost taken (fun _ => rfl) (fun same => apart (.inl same))
        fun g => ⟨rfl, rfl, fun has => apart (.inr has)⟩
  | listen j sockindex =>
      rw [phase] at apart table
      simp only [Sockets.go, phase] at taken
      refine .on table lost taken (fun _ => rfl) (fun same => apart (.inl same)) fun g => ⟨rfl, rfl, ?_⟩
      simp only [Sockets.at_]
      split <;> exact apart
  | mark j sockindex =>
      rw [phase] at apart
      simp only [Sockets.go, phase, Option.some.injEq] at taken
      subst taken
      exact lost.of_eq rfl rfl apart
  | register j sockindex =>
      rw [phase] at apart table
      simp only [Sockets.go, phase, Option.some.injEq] at taken
      subst taken
      refine .call (c := .register) table lost rfl rfl rfl ?_
      simp only [Sockets.at_]
      split
      · exact fun has => apart (.inr has)
      · exact apart
  | giveUp j sockindex =>
      rw [phase] at apart table
      simp only [Sockets.go, phase] at taken
      exact .on table lost taken (fun _ => rfl) (fun same => apart (.inl same))
        fun g => ⟨rfl, rfl, fun has => apart (.inr has)⟩
  | client sockindex =>
      rw [phase] at apart table
      simp only [Sockets.go, phase] at taken
      cases sockindex with
      | none =>
          obtain rfl := Option.some.inj taken
          exact lost.of_eq rfl rfl id
      | some j =>
          have other : j ≠ i := fun same => apart (congrArg some same)
          simp only at taken
          split at taken
          · obtain rfl := Option.some.inj taken
            exact lost.of_eq rfl rfl other
          · refine .on table lost taken (fun _ => rfl) other fun g => ⟨rfl, rfl, ?_⟩
            simp only [Sockets.at_]
            split <;> exact other
  | serve j =>
      rw [phase] at apart table
      simp only [Sockets.go, phase] at taken
      split at taken
      · refine .on table lost taken (fun _ => rfl) apart fun g => ⟨rfl, rfl, ?_⟩
        change ¬ s.phase.Has i
        rw [phase]
        exact apart
      · obtain rfl := Option.some.inj taken
        exact lost.of_eq rfl rfl apart
  | hangUp j =>
      rw [phase] at apart table
      simp only [Sockets.go, phase] at taken
      exact .on table lost taken (fun _ => rfl) apart fun g => ⟨rfl, rfl, apart⟩
  | connected j left =>
      rw [phase] at apart
      simp only [Sockets.go, phase] at taken
      split at taken
      all_goals
        obtain rfl := Option.some.inj taken
        refine lost.of_eq rfl rfl ?_
        first | exact apart | exact id
  | available j left =>
      rw [phase] at apart table
      simp only [Sockets.go, phase] at taken
      split at taken
      · obtain rfl := Option.some.inj taken
        exact lost.of_eq rfl rfl apart
      · split at taken
        · obtain rfl := Option.some.inj taken
          exact lost.of_eq rfl rfl id
        · refine .on table lost taken (fun _ => rfl) apart fun g => ⟨rfl, rfl, ?_⟩
          simp only [Sockets.at_]
          split
          · exact id
          · exact apart
  | stop j =>
      rw [phase] at apart
      simp only [Sockets.go, phase, Option.some.injEq] at taken
      subst taken
      refine lost.of_eq rfl rfl ?_
      simp only [Sockets.at_]
      split
      · exact id
      · rintro (has | none)
        · exact apart has
        · cases none

/-- A socket which is open and whose connection is over, in a call on another socket. -/
theorem gone_call (contract : F.Contract) {c : FnetCall F.Handle} {net : F.State}
    (legal : ∀ g, c.on = some g → contract.isOpen net g) (apart : c.on ≠ some h)
    (before : contract.isOpen net h ∧ (F.state h net).Over) :
    contract.isOpen (F.call c net).1 h ∧ (F.state h (F.call c net).1).Over := by
  refine ⟨(contract.open_call h legal).mpr (.inr ⟨before.1, fun closes => apart ?_⟩),
    contract.over_call legal before.1 apart before.2⟩
  cases c with
  | close g => exact closes
  | socket | setopt | bind | listen | accept | shutdown | peek | recvfrom | send | register | unregister => cases closes

theorem Lost.opened (table : Table contract s.phase.waits m s) (lost : Lost i h s) : contract.isOpen s.net h := by
  refine table.opened i h (fun waiting => lost.apart ?_) lost.here
  cases phase : s.phase with
  | wait j after =>
      rw [phase] at waiting
      exact .inl (Option.some.inj waiting)
  | _ =>
      rw [phase] at waiting
      cases waiting

theorem Lost.pollSlot (sound : Sound contract s) (lost : Lost i h s) (j : Fin n) : Lost i h (s.pollSlot j) := by
  have apart : ¬ (s.pollSlot j).phase.Has i := by
    rw [pollSlot_phase]
    exact lost.apart
  have start := And.intro (lost.opened sound.table) lost.gone
  rcases pollSlot_cases s j with same | ⟨g, -, listens, there, outcome⟩
  · rw [same]
    exact lost
  · obtain ⟨g', there', listening⟩ := listens_iff.mp listens
    obtain rfl : g = g' := Option.some.inj (there.symm.trans there')
    have other : g ≠ h := by
      rintro rfl
      rcases lost.gone with gone | gone
      · cases listening.symm.trans gone
      · cases listening.symm.trans gone
    have slot : i ≠ j := by
      rintro rfl
      exact other (Option.some.inj (there.symm.trans lost.here))
    have mine : contract.isOpen s.net g :=
      sound.table.opened j g (fun waiting => sound.table.silent j waiting listens) there
    have legal : ∀ g', (FnetCall.accept g).on = some g' → contract.isOpen s.net g' := by
      rintro g' ⟨⟩
      exact mine
    have accepted := gone_call contract legal (by simpa [FnetCall.on] using other) start
    rcases outcome with ⟨-, kept⟩ | ⟨tmp, -, kept⟩
    · rw [kept] at apart ⊢
      exact ⟨lost.here, accepted.2, apart⟩
    · have legal' : ∀ g', (FnetCall.close g).on = some g' → contract.isOpen (F.call (.accept g) s.net).1 g' := by
        rintro g' ⟨⟩
        exact (contract.open_call g legal).mpr (.inr ⟨mine, by simp [FnetCall.closes]⟩)
      have closed := gone_call contract legal' (by simpa [FnetCall.on] using other) accepted
      have unregistered := gone_call contract (c := .unregister) (by simp [FnetCall.on]) (by simp [FnetCall.on]) closed
      rw [kept] at apart ⊢
      exact ⟨(ptr_setPtr_other _ _ slot).trans lost.here, unregistered.2, apart⟩

theorem Lost.step {e : SocketEvent F} (sound : Sound contract s) (lost : Lost i h s) (taken : s.step e = some t) :
    Lost i h t := by
  cases e with
  | go more => exact lost.go sound taken
  | poll =>
      obtain rfl := Option.some.inj taken
      refine (poll_induction (motive := fun u => Sound contract u ∧ Lost i h u) ⟨sound, lost⟩ ?_).2
      exact fun u j before => ⟨before.1.pollSlot j, before.2.pollSlot before.1 j⟩
  | move m =>
      obtain rfl := Option.some.inj taken
      exact ⟨lost.here, contract.over_move (lost.opened sound.table) lost.gone, lost.apart⟩

theorem Lost.run {es : List (SocketEvent F)} (sound : Sound contract s) (lost : Lost i h s)
    (reached : LabelledRun.run Sockets.step s es = some t) (bound : Bound s es) : Lost i h t := by
  unfold Bound at bound
  refine (Always.run (motive := fun u => Sound contract u ∧ Lost i h u) ?_ bound reached ⟨sound, lost⟩).2
  exact fun s e t bound before taken =>
    ⟨before.1.step taken (discards_step bound taken), before.2.step before.1 taken⟩

/-! ## All slots -/

/-- Every slot is lost, and `loop` has nothing in hand. -/
structure AllLost (contract : F.Contract) (s : Sockets F n) : Prop where
  gone : ∀ i, ∃ h, s.ptr i = some h ∧ contract.isOpen s.net h ∧ (F.state h s.net).Over
  skips : s.phase.Skips

theorem AllLost.at_ (all : AllLost contract s) {phase : ServerPhase n} (skips : phase.Skips) :
    AllLost contract (s.at_ phase) :=
  ⟨all.gone, skips⟩

theorem AllLost.status (all : AllLost contract s) (i : Fin n) : s.socketStatus i = .CLOSED ∨ s.socketStatus i = .one := by
  obtain ⟨h, here, -, gone⟩ := all.gone i
  exact status_gone here gone

/-- A step of `loop` makes no call. -/
theorem AllLost.go {more : Bool} (all : AllLost contract s) (taken : s.go more = some t) :
    AllLost contract t ∧ t.calls = s.calls := by
  have skips := all.skips
  cases phase : s.phase with
  | idle =>
      simp only [Sockets.go, phase, Option.some.injEq] at taken
      subst taken
      exact ⟨all.at_ ⟨rfl, rfl⟩, rfl⟩
  | scan k sockindex listening =>
      rw [phase] at skips
      obtain ⟨rfl, rfl⟩ := skips
      simp only [Sockets.go, phase] at taken
      split at taken
      · split at taken
        · obtain rfl := Option.some.inj taken
          exact ⟨all.at_ ⟨rfl, rfl, all.status _⟩, rfl⟩
        · obtain rfl := Option.some.inj taken
          exact ⟨all.at_ ⟨rfl, rfl⟩, rfl⟩
      · obtain rfl := Option.some.inj taken
        exact ⟨all.at_ rfl, rfl⟩
  | look j stat sockindex listening =>
      rw [phase] at skips
      obtain ⟨rfl, rfl, rfl | rfl⟩ := skips
      · simp only [Sockets.go, phase, Option.some.injEq] at taken
        subst taken
        exact ⟨⟨all.gone, rfl, rfl⟩, rfl⟩
      · simp only [Sockets.go, phase, Option.some.injEq] at taken
        subst taken
        exact ⟨all.at_ ⟨rfl, rfl⟩, rfl⟩
  | begin_ sockindex =>
      rw [phase] at skips
      simp only [Sockets.go, phase] at taken
      split at taken
      · rename_i j found
        have unused := List.find?_some (p := fun i => (s.ptr i).isNone) found
        obtain ⟨h, here, -⟩ := all.gone j
        rw [here] at unused
        cases unused
      · obtain rfl := Option.some.inj taken
        exact ⟨all.at_ skips, rfl⟩
  | resort k sockindex =>
      rw [phase] at skips
      simp only [Sockets.go, phase] at taken
      split at taken
      · split at taken
        · rename_i inside leaving
          rcases all.status ⟨k, inside⟩ with closed | one
          · cases leaving.symm.trans closed
          · cases leaving.symm.trans one
        · obtain rfl := Option.some.inj taken
          exact ⟨all.at_ skips, rfl⟩
      · obtain rfl := Option.some.inj taken
        exact ⟨all.at_ skips, rfl⟩
  | client sockindex =>
      rw [phase] at skips
      obtain rfl := skips
      simp only [Sockets.go, phase, Option.some.injEq] at taken
      subst taken
      exact ⟨all.at_ trivial, rfl⟩
  | _ =>
      rw [phase] at skips
      exact skips.elim

theorem AllLost.poll (all : AllLost contract s) : s.poll = s := by
  refine poll_induction (motive := fun u => u = s) rfl fun u j before => ?_
  subst before
  rcases pollSlot_cases u j with same | ⟨g, -, listens, -⟩
  · exact same
  · rcases all.status j with closed | one
    · cases listens.symm.trans closed
    · cases listens.symm.trans one

theorem AllLost.step {e : SocketEvent F} (all : AllLost contract s) (taken : s.step e = some t) :
    AllLost contract t ∧ t.calls = s.calls := by
  cases e with
  | go more => exact all.go taken
  | poll =>
      obtain rfl := Option.some.inj taken
      rw [all.poll]
      exact ⟨all, rfl⟩
  | move m =>
      obtain rfl := Option.some.inj taken
      refine ⟨⟨fun i => ?_, all.skips⟩, rfl⟩
      obtain ⟨h, here, isOpen, gone⟩ := all.gone i
      exact ⟨h, here, (contract.open_move m s.net h).mpr isOpen, contract.over_move isOpen gone⟩

theorem AllLost.run {es : List (SocketEvent F)} (all : AllLost contract s)
    (reached : LabelledRun.run Sockets.step s es = some t) : t.calls = s.calls := by
  induction es generalizing s with
  | nil =>
      obtain rfl := Option.some.inj reached
      rfl
  | cons e es ih =>
      obtain ⟨u, taken, later⟩ := run_cons_some.mp reached
      obtain ⟨now, same⟩ := all.step taken
      exact (ih now later).trans same

/-- Between two calls of `handleWebServer` a connection is over whose slot has not been
    freed. Unless a `bind` fails, the slot keeps this socket for ever. Where it is so with
    every slot, the server makes no call of the stack any more, whoever connects. -/
theorem lost_for_ever (contract : F.Contract) {net : F.State} {serverPort : Fin n → Bool}
    {es later : List (SocketEvent F)} {s t : Sockets F n} (fresh : ∀ h, ¬ contract.isOpen net h)
    (reached : LabelledRun.run Sockets.step (init net serverPort) es = some s) (idle : s.phase = .idle)
    (bound : Bound (init net serverPort) es) (after : LabelledRun.run Sockets.step s later = some t)
    (bound' : Bound s later) :
    (∀ i h, s.ptr i = some h → (F.state h s.net).Over → t.ptr i = some h ∧ (F.state h t.net).Over) ∧
    ((∀ i, ∃ h, s.ptr i = some h ∧ (F.state h s.net).Over) → t.calls = s.calls) := by
  have sound := (sound_init serverPort fresh).run reached bound
  have apart : ∀ i, ¬ s.phase.Has i := fun i => by
    rw [idle]
    exact id
  refine ⟨fun i h here gone => ?_, fun all => ?_⟩
  · have lost := Lost.run sound ⟨here, gone, apart i⟩ after bound'
    exact ⟨lost.here, lost.gone⟩
  · have start : AllLost contract s := by
      refine ⟨fun i => ?_, by rw [idle]; trivial⟩
      obtain ⟨h, here, gone⟩ := all i
      exact ⟨h, here, Lost.opened sound.table ⟨here, gone, apart i⟩, gone⟩
    exact start.run after

/-- Both peers reset their connections, and others connect in vain. -/
def resets : List (SocketEvent (Pool.fnet 4)) :=
  accepting ++ [.move (.reset (Pool.nth 1)), .move .connect, .poll, .move (.reset (Pool.nth 2))]

def ignoring : List (SocketEvent (Pool.fnet 4)) :=
  [.move .connect, .poll] ++ List.replicate 20 (.go true) ++ [.move .connect, .poll] ++ List.replicate 3 (.go true)

theorem lost_for_ever_resets :
    ∃ s t, LabelledRun.run Sockets.step (bench 2) resets = some s ∧
      LabelledRun.run Sockets.step s ignoring = some t ∧ t.net.waiting = 2 ∧ t.ptr 0 = some (Pool.handle 1) ∧
      t.ptr 1 = some (Pool.handle 2) ∧ t.calls = s.calls := by
  have run : (LabelledRun.run Sockets.step (bench 2) resets).any (fun s => s.phase = .idle ∧
      (s.ptr 0 = some (Pool.handle 1) ∧ (Pool.fnet 4).state (Pool.handle 1) s.net = .SS_CLOSED) ∧
      (s.ptr 1 = some (Pool.handle 2) ∧ (Pool.fnet 4).state (Pool.handle 2) s.net = .SS_CLOSED) ∧
      Bound s ignoring ∧ (LabelledRun.run Sockets.step s ignoring).any (fun t => t.net.waiting = 2) = true) = true := by
    decide +kernel
  obtain ⟨s, reached, facts⟩ := (Option.any_eq_true _ _).mp run
  obtain ⟨idle, ⟨here, gone⟩, ⟨here', gone'⟩, bound, later⟩ := of_decide_eq_true facts
  obtain ⟨t, after, waiting⟩ := (Option.any_eq_true _ _).mp later
  obtain ⟨kept, silent⟩ :=
    lost_for_ever (Pool.contract 4) Pool.closed_empty reached idle (by decide +kernel) after bound
  refine ⟨s, t, reached, after, of_decide_eq_true waiting, (kept 0 _ here (.inl gone)).1,
    (kept 1 _ here' (.inl gone')).1, silent (Fin.forall_fin_two.mpr ⟨?_, ?_⟩)⟩
  · exact ⟨_, here, .inl gone⟩
  · exact ⟨_, here', .inl gone'⟩

end Sockets

end GpioCtrlBoard
