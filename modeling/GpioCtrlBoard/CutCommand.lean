import GpioCtrlBoard.Chunks
import GpioCtrlBoard.NumberText

/-! # Request lines which are cut off

When the read times out or reaches its cap, the handler works on a beginning of
the request line. A beginning which ends inside the value is a shorter command
of its own: the missing `&` does not stop the field from being cut out.
-/

namespace GpioCtrlBoard

theorem handleRequest_val_of_assigns {r : Str} (silent : (route r).assigns = none) (b : Board) :
    (handleRequest r b).board.val = b.val := by
  rw [handleRequest_board, Route.act_val, silent]
  rfl

/-! ## Where a command can be cut -/

/-- The digits `d` have been received, the `&` has not. -/
def PendingValue (x : Port) (v : UInt8) (p d : Str) : Prop :=
  d ≠ [] ∧ d <+: decimal v.toNat ∧ p = requestHead ++ (portValKey ++ (x.letter :: d))

/-- The cut lies in front of the first digit, inside or right behind the value,
    or behind the `&`. -/
theorem cut_cases {x : Port} {v : UInt8} {p : Str} (cut : p <+: (RequestLine.portVal x v).text) :
    p <+: requestHead ++ portValKey ∨
      p = requestHead ++ (portValKey ++ [x.letter]) ∨
      (∃ d, PendingValue x v p d) ∨
      ∃ post, p = requestHead ++ (portValKey ++ (command x v ++ '&' :: post)) := by
  rw [RequestLine.text, ← List.append_assoc] at cut
  rcases TextSearch.prefix_append_cases cut with early | ⟨q, rfl, behindKey⟩
  · exact .inl early
  · rw [command, List.cons_append, List.prefix_cons_iff] at behindKey
    rcases behindKey with rfl | ⟨q, rfl, behindLetter⟩
    · left
      rw [List.append_nil]
    · right
      rcases TextSearch.prefix_append_cases behindLetter with inside | ⟨q, rfl, behindValue⟩
      · by_cases nonempty : q = []
        · subst nonempty
          exact .inl (List.append_assoc _ _ _)
        · exact .inr (.inl ⟨q, nonempty, inside, List.append_assoc _ _ _⟩)
      · rcases List.prefix_cons_iff.mp behindValue with rfl | ⟨post, rfl, -⟩
        · refine .inr (.inl ⟨decimal v.toNat, ?_, List.prefix_rfl, ?_⟩)
          · exact List.ne_nil_of_length_pos (length_decimal_byte v).1
          · rw [List.append_nil, List.append_assoc]
        · exact .inr (.inr ⟨post, List.append_assoc _ _ _⟩)

/-- In front of the first digit there is nothing to assign. -/
theorem assigns_of_early_cut : ∀ p ∈ (requestHead ++ portValKey).inits, (route p).assigns = none := by
  decide +kernel

theorem assigns_of_letter (x : Port) :
    (route (requestHead ++ (portValKey ++ [x.letter]))).assigns = none := by
  cases x <;> decide +kernel

/-- The first digits of a byte denote a byte. -/
theorem toInt_of_prefix {v : UInt8} {d : Str} (received : d <+: decimal v.toNat) :
    ∃ n : UInt8, Str.toInt d = n.toNat := by
  obtain ⟨e, whole⟩ := received
  have digits : ∀ c ∈ d, c.isDigit := by
    intro c member
    apply isDigit_of_mem_decimal (n := v.toNat)
    rw [← whole]
    exact List.mem_append_left e member
  have value : Nat.ofDigitChars 10 (d ++ e) 0 = v.toNat := by
    rw [whole, decimal, Nat.ofDigitChars_ten_toDigits]
  rw [Nat.ofDigitChars_append, Nat.ofDigitChars_eq_ofDigitChars_zero] at value
  have small := v.toNat_lt
  have shift : Nat.ofDigitChars 10 d 0 ≤ 10 ^ e.length * Nat.ofDigitChars 10 d 0 :=
    Nat.le_mul_of_pos_left _ (Nat.pow_pos (by decide))
  refine ⟨UInt8.ofNat (Nat.ofDigitChars 10 d 0), ?_⟩
  rw [Str.toInt, atol_of_digits digits, toNat_ofNat (by omega)]

/-- A value without its `&` is applied as it stands. -/
theorem PendingValue.applied {x : Port} {v : UInt8} {p d : Str} (pending : PendingValue x v p d) :
    ∃ n : UInt8, Str.toInt d = n.toNat ∧
      ∀ b, (handleRequest p b).board.val = Function.update b.val x n := by
  obtain ⟨nonempty, received, rfl⟩ := pending
  obtain ⟨n, value⟩ := toInt_of_prefix received
  have short : d.length ≤ 3 := received.length_le.trans (length_decimal_byte v).2
  have taken : accepted (x.letter :: d) = some (x, n) :=
    accepted_eq_some.mpr ⟨d, rfl, nonempty, short, value⟩
  have noAmp : '&' ∉ x.letter :: d := by
    intro member
    exact command_no_amp x v (((List.prefix_cons_inj x.letter).mpr received).subset member)
  have small : 13 + (x.letter :: d).length < 2 ^ 32 := by
    rw [List.length_cons]
    omega
  have routed := route_field noAmp (.inl rfl) small
  rw [List.append_nil] at routed
  refine ⟨n, value, fun b => ?_⟩
  rw [handleRequest_board, routed]
  exact decodeData_val_accepted taken b

theorem PendingValue.no_amp {x : Port} {v : UInt8} {p d : Str} (pending : PendingValue x v p d) :
    '&' ∉ p := by
  obtain ⟨-, received, rfl⟩ := pending
  have letter : '&' ≠ x.letter := by cases x <;> decide
  have digits : '&' ∉ d := fun member => not_mem_decimal rfl v.toNat (received.subset member)
  simp only [List.mem_append, List.mem_cons, not_or]
  exact ⟨by decide, by decide, letter, digits⟩

/-! ## What a cut command does -/

/-- What is left of a command leaves the variables alone or does what the whole
    command does, and leaves them alone as long as its `&` is missing. -/
structure CutSafe (x : Port) (v : UInt8) (p : Str) (b : Board) : Prop where
  whole : (handleRequest p b).board.val = b.val ∨
    (handleRequest p b).board.val = (handleRequest (RequestLine.portVal x v).text b).board.val
  pending : '&' ∉ p → (handleRequest p b).board.val = b.val

/-- A cut is safe unless it lies inside or right behind the value and the digits
    received denote another value than the port has. -/
theorem cut_request_iff (x : Port) (v : UInt8) (p : Str) (b : Board)
    (cut : p <+: (RequestLine.portVal x v).text) :
    CutSafe x v p b ↔ ∀ d, PendingValue x v p d → Str.toInt d = (b.val x).toNat := by
  constructor
  · intro safe d pending
    obtain ⟨n, value, applied⟩ := pending.applied
    have kept := safe.pending pending.no_amp
    rw [applied] at kept
    rw [value, ← kept, Function.update_self]
  · intro held
    rcases cut_cases cut with early | rfl | ⟨d, pending⟩ | ⟨post, rfl⟩
    · have kept := handleRequest_val_of_assigns
        (assigns_of_early_cut p ((List.mem_inits p _).mpr early)) b
      exact ⟨.inl kept, fun _ => kept⟩
    · have kept := handleRequest_val_of_assigns (assigns_of_letter x) b
      exact ⟨.inl kept, fun _ => kept⟩
    · obtain ⟨n, value, applied⟩ := pending.applied
      have same : n = b.val x := by
        apply UInt8.toNat_inj.mp
        have held := held d pending
        omega
      have kept := applied b
      rw [same, Function.update_eq_self] at kept
      exact ⟨.inl kept, fun _ => kept⟩
    · have short := length_command x v
      have routed : route (requestHead ++ (portValKey ++ (command x v ++ '&' :: post))) =
          .portVal (command x v) := route_portVal (command_no_amp x v) (by omega)
      constructor
      · right
        rw [handleRequest_board, handleRequest_board, routed, RequestLine.route_text]
        rfl
      · intro absent
        simp at absent

/-- Port A is to be set to 255, and the last digit is missing. -/
def cutTo25 : Str := "GET /portVal=a25".toList

theorem cut_request_iff_cutTo25 :
    CutSafe .p1a 255 cutTo25 (setup (powerOn fun _ => .low)) ↔
      ∀ d, PendingValue .p1a 255 cutTo25 d →
        Str.toInt d = ((setup (powerOn fun _ => .low)).val .p1a).toNat :=
  cut_request_iff .p1a 255 cutTo25 _ (by decide +kernel)

/-- Port A is set to 25, neither its old value nor the one sent. -/
theorem cut_value_applied :
    cutTo25 <+: (RequestLine.portVal .p1a 255).text ∧ cutTo25 ≠ (RequestLine.portVal .p1a 255).text ∧
      ¬ CutSafe .p1a 255 cutTo25 (setup (powerOn fun _ => .low)) := by
  refine ⟨by decide +kernel, by decide +kernel, ?_⟩
  intro safe
  have pending : PendingValue .p1a 255 cutTo25 ['2', '5'] :=
    ⟨by decide, by decide +kernel, by decide +kernel⟩
  obtain ⟨n, value, applied⟩ := pending.applied
  have twentyFive : n = 25 := by
    apply UInt8.toNat_inj.mp
    have number : Str.toInt ['2', '5'] = 25 := by decide
    have small : (25 : UInt8).toNat = 25 := rfl
    omega
  have result : (handleRequest cutTo25 (setup (powerOn fun _ => .low))).board.val .p1a = 25 := by
    rw [applied, Function.update_self, twentyFive]
  rcases safe.whole with kept | whole
  · rw [kept, setup_val, powerOn_val] at result
    exact absurd result (by decide)
  · rw [whole, handleRequest_board, RequestLine.route_text] at result
    rw [RequestLine.route, Route.act, decodeData_val_command, Function.update_self] at result
    exact absurd result (by decide)

end GpioCtrlBoard
