import GpioCtrlBoard.Sockets

/-! # The slots and the open sockets

What holds of the pointers while no `bind` has failed: the slots hold the open sockets,
each once, and at most one of them listens. Each operation on the tables keeps it.
-/

namespace GpioCtrlBoard

open LabelledRun

/-! ## What the phases know -/

/-- What is known of the listening sockets while a slot is being closed. -/
def After.Holds {n : Nat} (listens : Fin n → Prop) : After n → Prop
  | scan k _ listening => listening = false → ∀ j, listens j → k ≤ j
  | make _ => ∀ j, ¬ listens j
  | idle => True

namespace ServerPhase

variable {n : Nat}

/-- The slot whose socket has been closed while its pointer is still there. -/
def waits : ServerPhase n → Option (Fin n)
  | .wait i _ => some i
  | _ => none

/-- The slot which has begun to listen and is still to be marked. -/
def marks : ServerPhase n → Option (Fin n)
  | .mark i _ => some i
  | _ => none

/-- A `bind` has failed. -/
def discards : ServerPhase n → Bool
  | .discard _ _ => true
  | _ => false

/-- What a phase needs of the pointers, and what the scan has found out: a socket
    which listens lies ahead of it, unless `listening` is set. -/
def Holds {α : Type} (ptr : Fin n → Option α) (listens : Fin n → Prop) : ServerPhase n → Prop
  | .scan k _ listening => listening = false → ∀ j, listens j → k ≤ j
  | .look i stat _ listening => (stat ≠ .CLOSED → ptr i ≠ none) ∧ (listens i → stat = .LISTEN) ∧
      (listening = false → ∀ j, listens j → i ≤ j)
  | .shut i after | .close i after | .wait i after => ptr i ≠ none ∧ after.Holds listens
  | .begin_ _ | .resort _ _ => ∀ j, ¬ listens j
  | .make i _ => ptr i = none ∧ ∀ j, ¬ listens j
  | .setopt i _ | .bind i _ | .listen i _ => ptr i ≠ none ∧ ∀ j, ¬ listens j
  | .discard i _ | .mark i _ | .register i _ | .giveUp i _ | .serve i | .hangUp i => ptr i ≠ none
  | .idle | .client _ | .connected _ _ | .available _ _ | .stop _ => True

end ServerPhase

theorem After.Holds.mono {n : Nat} {listens listens' : Fin n → Prop} {after : After n}
    (holds : after.Holds listens) (less : ∀ j, listens' j → listens j) : after.Holds listens' := by
  cases after with
  | scan k sockindex listening => exact fun alone j now => holds alone j (less j now)
  | make sockindex => exact fun j now => holds j (less j now)
  | idle => trivial

/-- Sockets may be exchanged and stop listening, but no slot taken or freed. -/
theorem ServerPhase.Holds.mono {n : Nat} {α : Type} {ptr ptr' : Fin n → Option α} {listens listens' : Fin n → Prop}
    {phase : ServerPhase n} (holds : phase.Holds ptr listens) (same : ∀ i, ptr' i = none ↔ ptr i = none)
    (less : ∀ j, listens' j → listens j) : phase.Holds ptr' listens' := by
  cases phase with
  | scan k sockindex listening => exact fun alone j now => holds alone j (less j now)
  | look i stat sockindex listening =>
      obtain ⟨known, status, ahead⟩ := holds
      exact ⟨fun open_ => (same i).not.mpr (known open_), fun now => status (less i now),
        fun alone j now => ahead alone j (less j now)⟩
  | shut i after | close i after | wait i after =>
      exact ⟨(same i).not.mpr holds.1, holds.2.mono less⟩
  | begin_ | resort => exact fun j now => holds j (less j now)
  | make i sockindex => exact ⟨(same i).mpr holds.1, fun j now => holds.2 j (less j now)⟩
  | setopt i | bind i | listen i =>
      exact ⟨(same i).not.mpr holds.1, fun j now => holds.2 j (less j now)⟩
  | discard i | mark i | register i | giveUp i | serve i | hangUp i => exact (same i).not.mpr holds
  | idle | client | connected | available | stop => trivial

namespace Sockets

variable {F : Fnet} {n : Nat}

/-- The socket of the slot listens. -/
def Listens (s : Sockets F n) (i : Fin n) : Prop := s.socketStatus i = .LISTEN

instance (s : Sockets F n) (i : Fin n) : Decidable (s.Listens i) :=
  inferInstanceAs (Decidable (s.socketStatus i = .LISTEN))

/-! ## Slots and sockets -/

/-- The slots but for `w` hold the open sockets, each once, and the one which listens
    is marked, or is `m`. -/
structure Table (contract : F.Contract) (w m : Option (Fin n)) (s : Sockets F n) : Prop where
  opened : ∀ i h, w ≠ some i → s.ptr i = some h → contract.isOpen s.net h
  apart : ∀ i j h, w ≠ some i → w ≠ some j → s.ptr i = some h → s.ptr j = some h → i = j
  tabled : ∀ h, contract.isOpen s.net h → ∃ i, w ≠ some i ∧ s.ptr i = some h
  silent : ∀ i, w = some i → ¬ s.Listens i
  one : ∀ i j, s.Listens i → s.Listens j → i = j
  marked : ∀ i, s.Listens i → m = some i ∨ s.serverPort i = true
  legal : ∀ u ∈ s.calls, ∀ h, u.2.on = some h → contract.isOpen u.1 h

variable {contract : F.Contract} {w m : Option (Fin n)} {s t : Sockets F n}

theorem listens_call {c : FnetCall F.Handle} {i : Fin n} (legal : ∀ g, c.on = some g → contract.isOpen s.net g)
    (other : (∀ h, c ≠ .listen h) ∨ (s.reply c).ok = false) (after : (s.call c).Listens i) : s.Listens i := by
  obtain ⟨h, here, listening⟩ := listens_iff.mp after
  rcases contract.listening_call legal listening with was | ⟨same, ok⟩
  · exact listens_iff.mpr ⟨h, here, was⟩
  · rcases other with none | refused
    · exact absurd same (none h)
    · exact absurd (ok.symm.trans refused) (by simp)

theorem Table.legal_call (table : Table contract w m s) {c : FnetCall F.Handle}
    (legal : ∀ g, c.on = some g → contract.isOpen s.net g) :
    ∀ u ∈ (s.call c).calls, ∀ h, u.2.on = some h → contract.isOpen u.1 h := by
  intro u member
  rcases List.mem_append.mp member with before | now
  · exact table.legal u before
  · obtain rfl := List.mem_singleton.mp now
    exact legal

/-- Writes to the phase. -/
theorem Table.of_eq (table : Table contract w m s) (ptr : t.ptr = s.ptr) (port : t.serverPort = s.serverPort)
    (net : t.net = s.net) (calls : t.calls = s.calls) : Table contract w m t := by
  obtain ⟨ptr', port', phase, net', calls'⟩ := t
  dsimp only at ptr port net calls
  subst ptr port net calls
  exact ⟨table.opened, table.apart, table.tabled, table.silent, table.one, table.marked, table.legal⟩

/-- The mark of a slot which does not listen is taken away. -/
theorem Table.unmark (table : Table contract w m s) {i : Fin n} (quiet : ¬ s.Listens i) :
    Table contract w m (s.setPort i false) := by
  refine ⟨table.opened, table.apart, table.tabled, table.silent, table.one, fun j listens => ?_, table.legal⟩
  have other : j ≠ i := by
    rintro rfl
    exact quiet listens
  refine (table.marked j listens).imp id fun marked => ?_
  simpa only [setPort, Function.update_of_ne other] using marked

theorem Table.mark {i : Fin n} (table : Table contract w (some i) s) : Table contract w none (s.setPort i true) := by
  refine ⟨table.opened, table.apart, table.tabled, table.silent, table.one, fun j listens => .inr ?_, table.legal⟩
  by_cases same : j = i
  · rw [same]
    simp only [setPort, Function.update_self]
  · have marked := (table.marked j listens).resolve_left fun now => same (Option.some.inj now).symm
    simpa only [setPort, Function.update_of_ne same] using marked

/-- A call which opens and closes nothing. -/
theorem Table.call (table : Table contract w m s) {c : FnetCall F.Handle}
    (legal : ∀ g, c.on = some g → contract.isOpen s.net g) (opens : c.opens (s.reply c) = none)
    (closes : c.closes = none) (other : (∀ h, c ≠ .listen h) ∨ (s.reply c).ok = false) :
    Table contract w m (s.call c) := by
  have same : ∀ h, contract.isOpen (s.call c).net h ↔ contract.isOpen s.net h := fun h => by
    refine (contract.open_call h legal).trans ?_
    change c.opens (s.reply c) = some h ∨ _ ↔ _
    simp [opens, closes]
  have less : ∀ i, (s.call c).Listens i → s.Listens i := fun i => listens_call legal other
  exact ⟨fun i h apart here => (same h).mpr (table.opened i h apart here), table.apart,
    fun h isOpen => table.tabled h ((same h).mp isOpen), fun i waiting now => table.silent i waiting (less i now),
    fun i j now now' => table.one i j (less i now) (less j now'), fun i now => table.marked i (less i now),
    table.legal_call legal⟩

/-- The first socket which listens. -/
theorem Table.listen (table : Table contract none none s) {i : Fin n} {h : F.Handle} (here : s.ptr i = some h)
    (alone : ∀ j, ¬ s.Listens j) : Table contract none (some i) (s.call (.listen h)) := by
  have legal : ∀ g, (FnetCall.listen h).on = some g → contract.isOpen s.net g := by
    rintro g ⟨⟩
    exact table.opened i h (by simp) here
  have same : ∀ g, contract.isOpen (s.call (.listen h)).net g ↔ contract.isOpen s.net g := fun g => by
    refine (contract.open_call g legal).trans ?_
    simp [FnetCall.opens, FnetCall.closes]
  have mine : ∀ j, (s.call (.listen h)).Listens j → j = i := fun j now => by
    obtain ⟨g, there, listening⟩ := listens_iff.mp now
    rcases contract.listening_call legal listening with was | ⟨same, -⟩
    · exact (alone j (listens_iff.mpr ⟨g, there, was⟩)).elim
    · obtain rfl := FnetCall.listen.inj same
      exact table.apart j i h (by simp) (by simp) there here
  refine ⟨fun j g known there => (same g).mpr (table.opened j g known there), table.apart,
    fun g isOpen => table.tabled g ((same g).mp isOpen), fun j none => ?_,
    fun j k now now' => (mine j now).trans (mine k now').symm, fun j now => .inl (congrArg some (mine j now).symm),
    table.legal_call legal⟩
  cases none

/-- `close` in `socketClose` leaves the pointer, which is then waited with. -/
theorem Table.close (table : Table contract none none s) {i : Fin n} {h : F.Handle} (here : s.ptr i = some h) :
    Table contract (some i) none (s.call (.close h)) := by
  have legal : ∀ g, (FnetCall.close h).on = some g → contract.isOpen s.net g := by
    rintro g ⟨⟩
    exact table.opened i h (by simp) here
  have after : ∀ g, contract.isOpen (s.call (.close h)).net g ↔ contract.isOpen s.net g ∧ h ≠ g := fun g => by
    refine (contract.open_call g legal).trans ?_
    simp [FnetCall.opens, FnetCall.closes]
  have less : ∀ j, (s.call (.close h)).Listens j → s.Listens j := fun j =>
    listens_call legal (.inl fun _ => by simp)
  refine ⟨fun j g other there => (after g).mpr ⟨table.opened j g (by simp) there, ?_⟩,
    fun j k g _ _ => table.apart j k g (by simp) (by simp), fun g isOpen => ?_, fun j waiting listens => ?_,
    fun j k now now' => table.one j k (less j now) (less k now'), fun j now => table.marked j (less j now),
    table.legal_call legal⟩
  · rintro rfl
    exact other (congrArg some (table.apart i j h (by simp) (by simp) here there))
  · obtain ⟨before, other⟩ := (after g).mp isOpen
    obtain ⟨j, -, there⟩ := table.tabled g before
    refine ⟨j, ?_, there⟩
    rintro ⟨⟩
    exact other (Option.some.inj (here.symm.trans there))
  · cases waiting
    obtain ⟨g, there, listening⟩ := listens_iff.mp listens
    obtain rfl : h = g := Option.some.inj (here.symm.trans there)
    exact contract.closed_silent (fun isOpen => ((after h).mp isOpen).2 rfl) listening

theorem listens_setPtr_none {i j : Fin n} (now : (s.setPtr i none).Listens j) : j ≠ i ∧ s.Listens j := by
  obtain ⟨h, here, listening⟩ := listens_iff.mp now
  have other : j ≠ i := by
    rintro rfl
    rw [ptr_setPtr_self] at here
    cases here
  rw [ptr_setPtr_other s none other] at here
  exact ⟨other, listens_iff.mpr ⟨h, here, listening⟩⟩

theorem Table.clear {i : Fin n} (table : Table contract (some i) m s) : Table contract none m (s.setPtr i none) := by
  have split : ∀ {j h}, (s.setPtr i none).ptr j = some h → some i ≠ some j ∧ s.ptr j = some h := fun {j h} there => by
    by_cases same : j = i
    · subst same
      rw [ptr_setPtr_self] at there
      cases there
    · rw [ptr_setPtr_other s none same] at there
      exact ⟨fun equal => same (Option.some.inj equal).symm, there⟩
  refine ⟨fun j h _ there => table.opened j h (split there).1 (split there).2,
    fun j k h _ _ there there' => table.apart j k h (split there).1 (split there').1 (split there).2 (split there').2,
    fun h isOpen => ?_, fun _ none => ?_,
    fun j k now now' => table.one j k (listens_setPtr_none now).2 (listens_setPtr_none now').2,
    fun j now => table.marked j (listens_setPtr_none now).2, table.legal⟩
  · obtain ⟨j, other, there⟩ := table.tabled h isOpen
    have apart : j ≠ i := fun same => other (congrArg some same.symm)
    exact ⟨j, by simp, by rw [ptr_setPtr_other s none apart]; exact there⟩
  · cases none

/-- A slot gets a socket which was not open before. -/
theorem Table.exchange {i : Fin n} {made : F.Handle} (table : Table contract w m s) (apart : w ≠ some i)
    (fresh : ¬ contract.isOpen s.net made) (ptr : t.ptr = Function.update s.ptr i (some made))
    (port : t.serverPort = s.serverPort)
    (opened : ∀ h, contract.isOpen t.net h ↔ made = h ∨ (contract.isOpen s.net h ∧ s.ptr i ≠ some h))
    (less : ∀ j, t.Listens j → j ≠ i ∧ s.Listens j)
    (legal : ∀ u ∈ t.calls, ∀ h, u.2.on = some h → contract.isOpen u.1 h) : Table contract w m t := by
  have mine : t.ptr i = some made := by rw [ptr, Function.update_self]
  have others : ∀ {j}, j ≠ i → t.ptr j = s.ptr j := fun other => by rw [ptr, Function.update_of_ne other]
  have new : ∀ {j}, w ≠ some j → s.ptr j ≠ some made := fun known there => fresh (table.opened _ _ known there)
  refine ⟨fun j h known there => (opened h).mpr ?_, fun j k h known known' there there' => ?_, fun h isOpen => ?_,
    fun j waiting now => table.silent j waiting (less j now).2,
    fun j k now now' => table.one j k (less j now).2 (less k now').2, fun j now => ?_, legal⟩
  · by_cases same : j = i
    · subst same
      exact .inl (Option.some.inj (mine.symm.trans there))
    · rw [others same] at there
      exact .inr ⟨table.opened j h known there, fun here => same (table.apart j i h known apart there here)⟩
  · by_cases same : j = i <;> by_cases same' : k = i
    · rw [same, same']
    · subst same
      obtain rfl := Option.some.inj (mine.symm.trans there)
      rw [others same'] at there'
      exact absurd there' (new known')
    · subst same'
      obtain rfl := Option.some.inj (mine.symm.trans there')
      rw [others same] at there
      exact absurd there (new known)
    · rw [others same] at there
      rw [others same'] at there'
      exact table.apart j k h known known' there there'
  · rcases (opened h).mp isOpen with rfl | ⟨before, elsewhere⟩
    · exact ⟨i, apart, mine⟩
    · obtain ⟨j, known, there⟩ := table.tabled h before
      have other : j ≠ i := by
        rintro rfl
        exact elsewhere there
      exact ⟨j, known, by rw [others other]; exact there⟩
  · rw [port]
    exact table.marked j (less j now).2

/-- A slot's new socket is silent, and the others are as they were. -/
theorem listens_update {i j : Fin n} {made : F.Handle} (ptr : t.ptr = Function.update s.ptr i (some made))
    (silent : F.state made t.net ≠ .SS_LISTENING)
    (net : ∀ h, F.state h t.net = .SS_LISTENING → F.state h s.net = .SS_LISTENING) (now : t.Listens j) :
    j ≠ i ∧ s.Listens j := by
  obtain ⟨h, here, listening⟩ := listens_iff.mp now
  have other : j ≠ i := by
    rintro rfl
    rw [ptr, Function.update_self] at here
    obtain rfl := Option.some.inj here
    exact silent listening
  rw [ptr, Function.update_of_ne other] at here
  exact ⟨other, listens_iff.mpr ⟨h, here, net h listening⟩⟩

/-- Nothing begins to listen in a call other than `listen`. -/
theorem state_call {c : FnetCall F.Handle} {h : F.Handle} (legal : ∀ g, c.on = some g → contract.isOpen s.net g)
    (other : ∀ g, c ≠ .listen g) (listening : F.state h (s.call c).net = .SS_LISTENING) :
    F.state h s.net = .SS_LISTENING :=
  (contract.listening_call legal listening).resolve_right fun same => other h same.1

theorem legal_socket (contract : F.Contract) (s : Sockets F n) (g : F.Handle)
    (given : (FnetCall.socket : FnetCall F.Handle).on = some g) : contract.isOpen s.net g := by
  cases given

theorem listens_make (contract : F.Contract) {i j : Fin n} {h : F.Handle} (made : (s.reply .socket).made = some h)
    (now : ((s.call .socket).setPtr i (some h)).Listens j) : j ≠ i ∧ s.Listens j := by
  have legal := legal_socket contract s
  have kept : ∀ g, F.state g (s.call .socket).net = .SS_LISTENING → F.state g s.net = .SS_LISTENING :=
    fun g => state_call legal fun _ => by simp
  have silent := contract.closed_silent (contract.fresh legal made)
  exact listens_update (t := (s.call .socket).setPtr i (some h)) rfl (fun now => silent (kept h now)) kept now

theorem Table.make (table : Table contract none none s) {i : Fin n} (unused : s.ptr i = none) :
    Table contract none none ((s.call .socket).setPtr i (s.reply .socket).made) := by
  have legal := legal_socket contract s
  cases made : (s.reply .socket).made with
  | none =>
      have same : ((s.call .socket).setPtr i none).ptr = s.ptr := by
        change Function.update s.ptr i none = s.ptr
        rw [← unused, Function.update_eq_self]
      exact (table.call legal made rfl (.inl fun _ => by simp)).of_eq same rfl rfl rfl
  | some h =>
      refine table.exchange (by simp) (contract.fresh legal made) rfl rfl (fun g => ?_)
        (fun j => listens_make contract made) (table.legal_call legal)
      refine (contract.open_call g legal).trans ?_
      change (s.reply .socket).made = some g ∨ _ ↔ _
      simp [made, unused, FnetCall.closes]

/-- A connection which is accepted takes the slot of the socket which listened. -/
theorem Table.pollSlot (table : Table contract w m s) (i : Fin n) :
    Table contract w m (s.pollSlot i) ∧ ∀ j, (s.pollSlot i).Listens j → s.Listens j := by
  rcases pollSlot_cases s i with same | ⟨h, -, listens, here, outcome⟩
  · rw [same]
    exact ⟨table, fun _ now => now⟩
  · have apart : w ≠ some i := fun waiting => table.silent i waiting listens
    have mine := table.opened i h apart here
    have legal : ∀ g, (FnetCall.accept h).on = some g → contract.isOpen s.net g := by
      rintro g ⟨⟩
      exact mine
    rcases outcome with ⟨none, kept⟩ | ⟨tmp, made, kept⟩
    · rw [kept]
      exact ⟨table.call legal none rfl (.inl fun _ => by simp), fun _ => listens_call legal (.inl fun _ => by simp)⟩
    · rw [kept]
      have fresh : ¬ contract.isOpen s.net tmp := contract.fresh legal made
      let accepted := s.call (.accept h)
      let closed := accepted.call (.close h)
      have first : ∀ g, contract.isOpen accepted.net g ↔ tmp = g ∨ contract.isOpen s.net g := fun g => by
        refine (contract.open_call g legal).trans ?_
        change (s.reply (.accept h)).made = some g ∨ _ ↔ _
        simp [made, FnetCall.closes]
      have legal' : ∀ g, (FnetCall.close h).on = some g → contract.isOpen accepted.net g := by
        rintro g ⟨⟩
        exact (first h).mpr (.inr mine)
      have second : ∀ g, contract.isOpen closed.net g ↔ contract.isOpen accepted.net g ∧ h ≠ g := fun g => by
        refine (contract.open_call g legal').trans ?_
        simp [FnetCall.opens, FnetCall.closes]
      have legal'' : ∀ g, (FnetCall.unregister : FnetCall F.Handle).on = some g → contract.isOpen closed.net g := by
        rintro g ⟨⟩
      have quiet : ∀ g, F.state g (closed.call .unregister).net = .SS_LISTENING → F.state g s.net = .SS_LISTENING :=
        fun g now => state_call legal (fun _ => by simp) (state_call legal' (fun _ => by simp)
          (state_call legal'' (fun _ => by simp) now))
      have less : ∀ j, ((closed.setPtr i (some tmp)).call .unregister).Listens j → j ≠ i ∧ s.Listens j := fun j =>
        listens_update rfl (fun now => contract.closed_silent fresh (quiet tmp now)) quiet
      refine ⟨table.exchange apart fresh rfl rfl (fun g => ?_) less ?_, fun j now => (less j now).2⟩
      · refine (contract.open_call g legal'').trans ?_
        simp only [FnetCall.opens, FnetCall.closes, reduceCtorEq, false_or, ne_eq, not_false_iff, and_true, here]
        rw [second, first, Option.some.injEq]
        constructor
        · rintro ⟨rfl | before, other⟩
          · exact .inl rfl
          · exact .inr ⟨before, other⟩
        · rintro (rfl | ⟨before, other⟩)
          · exact ⟨.inl rfl, fun same => fresh (same ▸ mine)⟩
          · exact ⟨.inr before, other⟩
      · intro u member
        rcases List.mem_append.mp member with before | now
        · rcases List.mem_append.mp before with before | now
          · exact table.legal_call legal u before
          · obtain rfl := List.mem_singleton.mp now
            exact legal'
        · obtain rfl := List.mem_singleton.mp now
          exact legal''

theorem Table.move (table : Table contract w m s) (move : F.Move) :
    Table contract w m { s with net := F.move move s.net } := by
  have less : ∀ i, ({ s with net := F.move move s.net } : Sockets F n).Listens i → s.Listens i := fun i now => by
    obtain ⟨h, here, listening⟩ := listens_iff.mp now
    exact listens_iff.mpr ⟨h, here, contract.listening_move listening⟩
  exact ⟨fun i h known here => (contract.open_move move s.net h).mpr (table.opened i h known here), table.apart,
    fun h isOpen => table.tabled h ((contract.open_move move s.net h).mp isOpen),
    fun i waiting now => table.silent i waiting (less i now), fun i j now now' => table.one i j (less i now) (less j now'),
    fun i now => table.marked i (less i now), table.legal⟩

end Sockets

end GpioCtrlBoard
