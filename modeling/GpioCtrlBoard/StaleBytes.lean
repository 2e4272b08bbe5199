import GpioCtrlBoard.NumberText
import GpioCtrlBoard.ReceiveBuffer

/-! # Lines which stale bytes cannot change

A chunk without a line end is read on into the bytes behind it. Whether they
matter is decided by how the chunk ends: inside the value of its field, or with
the beginning of a key.
-/

namespace GpioCtrlBoard

open TextSearch

/-! ## Values which go on -/

/-- At most `k` more bytes cannot change what a value is accepted for: it stays
    too short, has no port letter, is too long or out of range for good, or its
    number is over and the rest cannot make it too long. -/
def Firm (v : Str) (k : Nat) : Prop :=
  match v with
  | [] => k = 1
  | c :: d =>
    Port.ofLetter c = none ∨ 3 < d.length ∨
      (d ≠ [] ∧ (Str.toInt d < 0 ∨ 255 < Str.toInt d)) ∨
      (d ≠ [] ∧ d.length + k ≤ 3 ∧ NumberEnded d)

theorem accepted_short {s : Str} (short : s.length ≤ 1) : accepted s = none := by
  cases taken : accepted s with
  | none => rfl
  | some assignment =>
      obtain ⟨d, rfl, nonempty, -, -⟩ := accepted_eq_some.mp taken
      have length := List.length_pos_of_ne_nil nonempty
      rw [List.length_cons] at short
      omega

theorem Firm.accepted_append {v : Str} {k : Nat} (firm : Firm v k) {u : Str} (fits : u.length ≤ k) :
    accepted (v ++ u) = accepted v := by
  cases v with
  | nil =>
      have one : k = 1 := firm
      have short : ([] ++ u).length ≤ 1 := by
        rw [List.nil_append]
        omega
      have nothing : accepted [] = none := rfl
      rw [accepted_short short, nothing]
  | cons c d =>
      cases addressed : Port.ofLetter c with
      | none => rw [List.cons_append, accepted_no_letter addressed, accepted_no_letter addressed]
      | some x =>
          have letter := Port.ofLetter_eq_some.mp addressed
          subst letter
          rw [List.cons_append, accepted_letter, accepted_letter]
          rcases firm with noLetter | long | ⟨-, outside⟩ | ⟨nonempty, short, ended⟩
          · rw [addressed] at noLetter
            cases noLetter
          · rw [if_neg, if_neg]
            · omega
            · rw [List.length_append]
              omega
          · have later := toInt_append_outside outside u
            rw [if_neg (by omega), if_neg (by omega)]
          · have length : (d ++ u).length ≤ 3 := by
              rw [List.length_append]
              omega
            have guard : (d ++ u ≠ [] ∧ (d ++ u).length ≤ 3 ∧ 0 ≤ Str.toInt d ∧ Str.toInt d ≤ 255) ↔
                (d ≠ [] ∧ d.length ≤ 3 ∧ 0 ≤ Str.toInt d ∧ Str.toInt d ≤ 255) := by
              have more : d ++ u ≠ [] := by simp [nonempty]
              have less : d.length ≤ 3 := by omega
              simp only [more, nonempty, length, less, ne_eq, not_false_iff, true_and]
            simp only [toInt_append_ended ended, guard]

/-- A number to which one more digit makes no difference is over. -/
theorem ended_of_accepted {x : Port} {v : UInt8} {d : Str} (taken : accepted (x.letter :: d) = some (x, v))
    (more : accepted (x.letter :: (d ++ ['1'])) = some (x, v)) : NumberEnded d := by
  by_contra goesOn
  obtain ⟨e, whole, -, -, value⟩ := accepted_eq_some.mp taken
  obtain ⟨e', whole', -, -, value'⟩ := accepted_eq_some.mp more
  rw [← (List.cons.inj whole).2] at value
  rw [← (List.cons.inj whole').2] at value'
  exact toInt_append_one goesOn (value'.trans value.symm)

/-- A value to which ones make no difference is firm. -/
theorem firm_of_ones {x : Port} {d : Str} {k : Nat} (positive : 0 < k)
    (ones : ∀ n ≤ k, accepted (x.letter :: (d ++ List.replicate n '1')) = accepted (x.letter :: d)) :
    Firm (x.letter :: d) k := by
  have one := ones 1 positive
  rw [List.replicate_one] at one
  by_cases long : 3 < d.length
  · exact .inr (.inl long)
  by_cases empty : d = []
  · -- The first digit makes a number of nothing.
    subst empty
    have taken : accepted (x.letter :: ([] ++ ['1'])) = some (x, 1) :=
      accepted_eq_some.mpr ⟨['1'], rfl, by decide, by decide, by decide⟩
    rw [taken, accepted_short le_rfl] at one
    cases one
  by_cases outside : Str.toInt d < 0 ∨ 255 < Str.toInt d
  · exact .inr (.inr (.inl ⟨empty, outside⟩))
  have guard : d ≠ [] ∧ d.length ≤ 3 ∧ 0 ≤ Str.toInt d ∧ Str.toInt d ≤ 255 :=
    ⟨empty, by omega, by omega, by omega⟩
  have taken := accepted_letter x d
  rw [if_pos guard] at taken
  have short : d.length + k ≤ 3 := by
    -- With more room the value can be made too long.
    by_contra tooLong
    have gone := ones (4 - d.length) (by omega)
    rw [taken, accepted_letter, if_neg] at gone
    · cases gone
    · rintro ⟨-, length, -⟩
      rw [List.length_append, List.length_replicate] at length
      omega
  exact .inr (.inr (.inr ⟨empty, short, ended_of_accepted taken (one.trans taken)⟩))

/-- A value which is not firm is changed by ones, or by a whole command. -/
theorem firm_of_accepted {v : Str} {k : Nat} (positive : 0 < k)
    (same : ∀ u, u.length ≤ k → (∀ ch ∈ u, ch = 'a' ∨ ch = '1') → accepted (v ++ u) = accepted v) :
    Firm v k := by
  cases v with
  | nil =>
      by_contra more
      have other : k ≠ 1 := more
      have two : ['a', '1'].length ≤ k := by
        simp only [List.length_cons, List.length_nil]
        omega
      have command := same ['a', '1'] two (by simp)
      exact absurd command (by decide)
  | cons c d =>
      cases addressed : Port.ofLetter c with
      | none => exact .inl addressed
      | some x =>
          have letter := Port.ofLetter_eq_some.mp addressed
          subst letter
          refine firm_of_ones positive fun n inside => ?_
          apply same
          · rw [List.length_replicate]
            exact inside
          · intro ch member
            exact .inr (List.eq_of_mem_replicate member)

/-! ## Lines which go on -/

theorem indexOf_pos_iff {r text : Str} :
    Str.indexOf r text > 0 ↔ ∃ n, find? text r = some (n + 1) := by
  cases found : find? text r with
  | none => simp [Str.indexOf, found]
  | some m =>
      cases m with
      | zero => simp [Str.indexOf, found]
      | succ n =>
          simp only [Str.indexOf, found]
          constructor
          · intro _
            exact ⟨n, rfl⟩
          · intro _
            omega

/-- A key which does not stand behind the first byte does not count. -/
theorem not_indexOf_pos {r text : Str} (none : ∀ m, find? text r ≠ some (m + 1)) :
    ¬ Str.indexOf r text > 0 := by
  rw [indexOf_pos_iff]
  rintro ⟨m, here⟩
  exact none m here

/-- A line is for a port iff the key stands behind its first byte. -/
theorem isPortVal_route_iff {r : Str} :
    (route r).isPortVal = true ↔ ∃ n, find? portValKey r = some (n + 1) := by
  rw [← indexOf_pos_iff]
  by_cases here : Str.indexOf r portValKey > 0
  · rw [route, if_pos here]
    exact iff_of_true rfl here
  · rw [route, if_neg here]
    refine iff_of_false ?_ here
    split <;> exact Bool.false_ne_true

theorem route_getValues {r : Str} {n : Nat} (noPort : ∀ m, find? portValKey r ≠ some (m + 1))
    (found : find? getValuesKey r = some (n + 1)) : route r = .getValues := by
  rw [route, if_neg (not_indexOf_pos noPort), if_pos (indexOf_pos_iff.mpr ⟨n, found⟩)]

theorem route_page {r : Str} (noPort : ∀ m, find? portValKey r ≠ some (m + 1))
    (noValues : ∀ m, find? getValuesKey r ≠ some (m + 1)) : route r = .page := by
  rw [route, if_neg (not_indexOf_pos noPort), if_neg (not_indexOf_pos noValues)]

theorem Route.effect_portVal {v w : Str} :
    (Route.portVal v).effect = (Route.portVal w).effect ↔ accepted v = accepted w := by
  simp [Route.effect, Route.isPortVal, Route.assigns]

/-! ## Chunks which hold a field -/

/-- A field whose `&` has been received is the same however the line goes on. -/
theorem route_closed_field {c rest : Str} {n : Nat} (found : find? portValKey c = some (n + 1))
    (split : c = c.take (n + 1) ++ (portValKey ++ rest)) (amp : '&' ∈ rest) :
    ∃ v, ∀ u, (c ++ u).length < 2 ^ 32 → route (c ++ u) = .portVal v := by
  have inside := (find?_spec found).2.1
  obtain ⟨v, w, whole, noAmp⟩ := List.eq_append_cons_of_mem amp
  refine ⟨v, fun u fits => ?_⟩
  refine route_of_stored_field (find?_append_right found u) ⟨noAmp, '&' :: (w ++ u), ?_, .inr ⟨_, rfl⟩⟩ fits
  rw [List.take_append_of_le_length inside]
  calc
    c ++ u = c.take (n + 1) ++ (portValKey ++ rest) ++ u := congrArg (· ++ u) split
    _ = c.take (n + 1) ++ (portValKey ++ (v ++ '&' :: (w ++ u))) := by
      simp only [whole, List.append_assoc, List.cons_append]

/-- Any other field goes on with the line. -/
theorem route_open_field {c rest : Str} {n : Nat} (found : find? portValKey c = some (n + 1))
    (split : c = c.take (n + 1) ++ (portValKey ++ rest)) (noAmp : '&' ∉ rest) {u : Str}
    (fits : (c ++ u).length < 2 ^ 32) :
    route (c ++ u) = .portVal (rest ++ u.takeWhile (· ≠ '&')) := by
  have inside := (find?_spec found).2.1
  have plain : '&' ∉ rest ++ u.takeWhile (· ≠ '&') := by
    rw [List.mem_append, not_or]
    refine ⟨noAmp, fun member => ?_⟩
    have differs := List.mem_takeWhile_imp member
    simp at differs
  refine route_of_stored_field (find?_append_right found u) ⟨plain, u.dropWhile (· ≠ '&'), ?_, ?_⟩ fits
  · rw [List.take_append_of_le_length inside, List.append_assoc, List.takeWhile_append_dropWhile]
    calc
      c ++ u = c.take (n + 1) ++ (portValKey ++ rest) ++ u := congrArg (· ++ u) split
      _ = c.take (n + 1) ++ (portValKey ++ (rest ++ u)) := by simp only [List.append_assoc]
  · cases behind : u.dropWhile (· ≠ '&') with
    | nil => exact .inl rfl
    | cons ch more =>
        have stops := List.head?_dropWhile_not (· ≠ '&') u
        rw [behind] at stops
        right
        refine ⟨more, ?_⟩
        have amp : ch = '&' := by simpa using stops
        rw [amp]

/-- A field which has not been ended is safe if it is firm. -/
theorem open_field_iff {c rest : Str} {n k : Nat} (found : find? portValKey c = some (n + 1))
    (split : c = c.take (n + 1) ++ (portValKey ++ rest)) (noAmp : '&' ∉ rest) (positive : 0 < k)
    (fits : c.length + k < 2 ^ 32) :
    (∀ u, u.length ≤ k → (∀ ch ∈ u, inLine ch) → (route (c ++ u)).effect = (route c).effect) ↔
      Firm rest k := by
  have routed : ∀ u : Str, u.length ≤ k →
      route (c ++ u) = .portVal (rest ++ u.takeWhile (· ≠ '&')) := by
    intro u short
    apply route_open_field found split noAmp
    rw [List.length_append]
    omega
  have alone : route c = .portVal rest := by
    have nothing := routed [] (Nat.zero_le k)
    rwa [List.append_nil, List.takeWhile_nil, List.append_nil] at nothing
  constructor
  · intro same
    apply firm_of_accepted positive
    intro u short plain
    have kept : ∀ ch ∈ u, inLine ch := by
      intro ch member
      rcases plain ch member with rfl | rfl <;> rfl
    have whole : u.takeWhile (· ≠ '&') = u := by
      rw [List.takeWhile_eq_self_iff]
      intro ch member
      rcases plain ch member with rfl | rfl <;> rfl
    have equal := same u short kept
    rwa [routed u short, alone, Route.effect_portVal, whole] at equal
  · intro firm u short _
    rw [routed u short, alone, Route.effect_portVal]
    exact firm.accepted_append ((List.takeWhile_prefix _).length_le.trans short)

/-! ## Chunks which hold none -/

/-- `getValues` has been received, or cannot be completed by `k` more bytes. -/
def ValuesSettled (c : Str) (k : Nat) : Prop :=
  find? getValuesKey c ≠ none ∨ ¬ Completes getValuesKey c k

theorem Completes.mono {pat s : Str} {k l : Nat} (ends : Completes pat s k) (more : k ≤ l) :
    Completes pat s l := by
  obtain ⟨i, positive, inside, begun, room⟩ := ends
  exact ⟨i, positive, inside, begun, by omega⟩

theorem key_inLine : (∀ ch ∈ portValKey, inLine ch) ∧ ∀ ch ∈ getValuesKey, inLine ch :=
  ⟨List.all_eq_true.mp rfl, List.all_eq_true.mp rfl⟩

theorem getValuesKey_chars : getValuesKey = ['g', 'e', 't', 'V', 'a', 'l', 'u', 'e', 's'] := rfl

/-- A key of the sketch which can be completed can be completed within the line. -/
theorem key_completed {key c : Str} {h : Char} {t : Str} {k : Nat} (chars : key = h :: t)
    (fresh : h ∉ t) (plain : ∀ ch ∈ key, inLine ch) (absent : find? key c = none)
    (ends : Completes key c k) :
    ∃ u, u.length ≤ k ∧ (∀ ch ∈ u, inLine ch) ∧ ∃ n, find? key (c ++ u) = some (n + 1) := by
  subst chars
  obtain ⟨u, tail, short, here⟩ := find?_completed fresh absent ends
  exact ⟨u, short, fun ch member => plain ch (tail.subset member), here⟩

/-- Where no field can appear, only `getValues` counts. -/
theorem no_field_iff {c : Str} {k : Nat} (nonempty : c ≠ [])
    (noPort : ∀ u, u.length ≤ k → ∀ m, find? portValKey (c ++ u) ≠ some (m + 1)) :
    (∀ u, u.length ≤ k → (∀ ch ∈ u, inLine ch) → (route (c ++ u)).effect = (route c).effect) ↔
      ValuesSettled c k := by
  have noPort' : ∀ m, find? portValKey c ≠ some (m + 1) := by
    have nothing := noPort [] (Nat.zero_le k)
    rwa [List.append_nil] at nothing
  cases found : find? getValuesKey c with
  | some m =>
      have settled : ValuesSettled c k := .inl (by rw [found]; exact Option.some_ne_none m)
      refine iff_of_true (fun u short _ => ?_) settled
      have later := find?_append_right found u
      cases m with
      | zero =>
          rw [route_page (noPort u short) (by rw [later]; simp), route_page noPort' (by rw [found]; simp)]
      | succ m => rw [route_getValues (noPort u short) later, route_getValues noPort' found]
  | none =>
      have alone : route c = .page := route_page noPort' (by rw [found]; simp)
      have only : ValuesSettled c k ↔ ¬ Completes getValuesKey c k := by
        rw [ValuesSettled, found]
        simp
      rw [only, alone]
      constructor
      · intro same ends
        obtain ⟨u, short, kept, m, here⟩ :=
          key_completed getValuesKey_chars (by decide) key_inLine.2 found ends
        have equal := same u short kept
        rw [route_getValues (noPort u short) here] at equal
        exact absurd equal (by decide)
      · intro never u short _
        rw [route_page (noPort u short)]
        intro m here
        exact never (Completes.mono (completes_of_find? nonempty found here) short)

/-! ## Which chunks are judged by their own bytes -/

/-- How a chunk without a line end has to end when `k` more bytes are read. -/
def Settled (c : Str) (k : Nat) : Prop :=
  match find? portValKey c with
  | some (p + 1) => '&' ∈ c.drop (p + 9) ∨ Firm (c.drop (p + 9)) k
  | some 0 => ValuesSettled c k
  | none => ¬ Completes portValKey c k ∧ ValuesSettled c k

theorem settled_iff {c : Str} {k : Nat} (nonempty : c ≠ []) (positive : 0 < k)
    (fits : c.length + k < 2 ^ 32) :
    (∀ u, u.length ≤ k → (∀ ch ∈ u, inLine ch) → (route (c ++ u)).effect = (route c).effect) ↔
      Settled c k := by
  cases found : find? portValKey c with
  | some m =>
      cases m with
      | zero =>
          rw [Settled, found]
          apply no_field_iff nonempty
          intro u _ m
          rw [find?_append_right found u]
          simp
      | succ n =>
          have located : Str.indexOf c portValKey = (n + 1 : Nat) := by simp only [Str.indexOf, found]
          obtain ⟨rest, behind, split, lengths⟩ := indexOf_portVal_rest located
          have value : c.drop (n + 9) = rest := by
            have nine : n + 9 = n + 1 + 8 := rfl
            rw [nine, ← List.drop_drop, behind]
            rfl
          simp only [Settled, found, value]
          by_cases amp : '&' ∈ rest
          · obtain ⟨v, routed⟩ := route_closed_field found split amp
            have alone := routed [] (by rw [List.append_nil]; omega)
            rw [List.append_nil] at alone
            refine iff_of_true (fun u short _ => ?_) (.inl amp)
            rw [routed u (by rw [List.length_append]; omega), alone]
          · rw [open_field_iff found split amp positive fits]
            simp only [amp, false_or]
  | none =>
      simp only [Settled, found]
      by_cases ends : Completes portValKey c k
      · -- A field can appear: then there is one more thing to do than without it.
        have never : ¬ (¬ Completes portValKey c k ∧ ValuesSettled c k) := fun h => h.1 ends
        refine iff_of_false ?_ never
        intro same
        obtain ⟨u, short, kept, here⟩ :=
          key_completed portValKey_chars (by decide) key_inLine.1 found ends
        have equal := congrArg Prod.fst (same u short kept)
        have noPort : ¬ (route c).isPortVal = true := by
          rw [isPortVal_route_iff, found]
          simp
        exact noPort (equal.symm.trans (isPortVal_route_iff.mpr here))
      · have noPort : ∀ u, u.length ≤ k → ∀ m, find? portValKey (c ++ u) ≠ some (m + 1) := by
          intro u short m here
          exact ends (Completes.mono (completes_of_find? nonempty found here) short)
        rw [no_field_iff nonempty noPort]
        simp only [ends, not_false_iff, true_and]

/-- What an earlier request has left in the buffer does not matter exactly when
    nothing of it is read, or when the chunk is settled. The index of a socket
    has 16 bits, so its buffer is smaller than that. -/
theorem judged_by_own_bytes_iff {size : Nat} (small : size < 2 ^ 16) (max : Nat)
    (chunk : Received size) :
    JudgedByOwnBytes max chunk ↔
      chunk.bytes = [] ∨ (∃ ch ∈ chunk.bytes, inLine ch = false) ∨ room max chunk = 0 ∨
        Settled chunk.bytes (room max chunk) := by
  by_cases empty : chunk.bytes = []
  · exact iff_of_true (judged_of_nil empty) (.inl empty)
  by_cases closed : (∃ ch ∈ chunk.bytes, inLine ch = false) ∨ room max chunk = 0
  · refine iff_of_true (judged_of_closed empty closed) ?_
    rcases closed with ends | full
    · exact .inr (.inl ends)
    · exact .inr (.inr (.inl full))
  · obtain ⟨unended, open_⟩ := not_or.mp closed
    have clean : ∀ ch ∈ chunk.bytes, inLine ch := by
      intro ch member
      by_contra ends
      exact unended ⟨ch, member, by simpa using ends⟩
    have positive : 0 < room max chunk := Nat.pos_of_ne_zero open_
    have fits : chunk.bytes.length + room max chunk < 2 ^ 32 := by
      have inside := chunk.fits
      rw [room]
      omega
    rw [judged_iff_texts empty clean positive, settled_iff empty positive fits]
    simp only [empty, unended, open_, false_or]

/-- A request which sets port A, received up to the first digit of its value. -/
def cutRequest : Received 2048 := ⟨"GET /portVal=a2".toList, by decide⟩

theorem judged_by_own_bytes_iff_cutRequest :
    JudgedByOwnBytes 120 cutRequest ↔
      cutRequest.bytes = [] ∨ (∃ ch ∈ cutRequest.bytes, inLine ch = false) ∨ room 120 cutRequest = 0 ∨
        Settled cutRequest.bytes (room 120 cutRequest) :=
  judged_by_own_bytes_iff (by decide) 120 cutRequest

/-- With `55` left behind it by a request for another port, it sets port A to 255. -/
theorem stale_digits_applied : ¬ JudgedByOwnBytes 120 cutRequest := by
  intro judged
  have nonempty : cutRequest.bytes ≠ [] := List.cons_ne_nil _ _
  have clean : ∀ ch ∈ cutRequest.bytes, inLine ch := List.all_eq_true.mp rfl
  have digits : ∀ ch ∈ ['5', '5'], inLine ch := List.all_eq_true.mp rfl
  have same := (judged_iff_texts nonempty clean (by decide)).mp judged ['5', '5'] (by decide) digits
  revert same
  decide +kernel

end GpioCtrlBoard
