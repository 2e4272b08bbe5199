import Mathlib

/-! # First occurrences in a list

Search for a pattern or a single item from the left. The specification lemmas
speak of the text as a concatenation, so that callers never compute with
positions.
-/

namespace TextSearch

variable {α : Type*} [DecidableEq α]

/-- Position of the first occurrence of `pat` in a list. -/
def find? (pat : List α) : List α → Option Nat
  | [] => if pat = [] then some 0 else none
  | c :: cs => if pat <+: c :: cs then some 0 else (find? pat cs).map (· + 1)

theorem find?_of_prefix {pat s : List α} (h : pat <+: s) : find? pat s = some 0 := by
  cases s with
  | nil => simp [find?, List.prefix_nil.mp h]
  | cons c cs => rw [find?, if_pos h]

/-- The first occurrence lies behind a stretch at none of whose positions the
    pattern starts. -/
theorem find?_append {pat rest : List α} (pre : List α) (here : pat <+: rest)
    (earlier : ∀ i < pre.length, ¬ pat <+: (pre ++ rest).drop i) :
    find? pat (pre ++ rest) = some pre.length := by
  induction pre with
  | nil => exact find?_of_prefix here
  | cons c pre ih =>
      have miss : ¬ pat <+: c :: (pre ++ rest) := earlier 0 (by simp)
      have tail := ih fun i inside => earlier (i + 1) (by simp only [List.length_cons]; omega)
      rw [List.cons_append, find?, if_neg miss, tail]
      rfl

/-- The first occurrence is an occurrence, and no earlier position is one. -/
theorem find?_spec {pat s : List α} {n : Nat} (found : find? pat s = some n) :
    pat <+: s.drop n ∧ n ≤ s.length ∧ ∀ i < n, ¬ pat <+: s.drop i := by
  induction s generalizing n with
  | nil =>
      by_cases blank : pat = []
      · rw [find?, if_pos blank] at found
        cases found
        simp [blank]
      · rw [find?, if_neg blank] at found
        cases found
  | cons c cs ih =>
      by_cases here : pat <+: c :: cs
      · rw [find?, if_pos here] at found
        cases found
        simp [here]
      · rw [find?, if_neg here, Option.map_eq_some_iff] at found
        obtain ⟨m, found, rfl⟩ := found
        obtain ⟨occurs, inside, first⟩ := ih found
        refine ⟨occurs, Nat.succ_le_succ inside, ?_⟩
        intro i before
        cases i with
        | zero => exact here
        | succ i => exact first i (Nat.lt_of_succ_lt_succ before)

/-- Without an occurrence the pattern starts nowhere. -/
theorem find?_none {pat s : List α} (absent : find? pat s = none) (i : Nat) :
    ¬ pat <+: s.drop i := by
  induction s generalizing i with
  | nil =>
      by_cases blank : pat = []
      · rw [find?, if_pos blank] at absent
        cases absent
      · simpa using blank
  | cons c cs ih =>
      by_cases here : pat <+: c :: cs
      · rw [find?, if_pos here] at absent
        cases absent
      · rw [find?, if_neg here, Option.map_eq_none_iff] at absent
        cases i with
        | zero => exact here
        | succ i => exact ih absent i

theorem find?_eq_some {pat s : List α} {n : Nat} :
    find? pat s = some n ↔ pat <+: s.drop n ∧ n ≤ s.length ∧ ∀ i < n, ¬ pat <+: s.drop i := by
  constructor
  · exact find?_spec
  · rintro ⟨here, inside, earlier⟩
    have length : (s.take n).length = n := List.length_take_of_le inside
    have split : s.take n ++ s.drop n = s := List.take_append_drop n s
    have found := find?_append (s.take n) here (by rwa [length, split])
    rwa [split, length] at found

omit [DecidableEq α] in
/-- An occurrence which begins early enough lies in the text in front. -/
theorem prefix_of_append {pat s u : List α} {i : Nat} (inside : i + pat.length ≤ s.length)
    (here : pat <+: (s ++ u).drop i) : pat <+: s.drop i := by
  rw [List.drop_append_of_le_length (by omega)] at here
  apply List.prefix_of_prefix_length_le here (List.prefix_append _ _)
  rw [List.length_drop]
  omega

/-- Text behind does not move the first occurrence. -/
theorem find?_append_right {pat s : List α} {n : Nat} (found : find? pat s = some n) (u : List α) :
    find? pat (s ++ u) = some n := by
  obtain ⟨here, inside, earlier⟩ := find?_spec found
  have length := here.length_le
  rw [List.length_drop] at length
  refine find?_eq_some.mpr ⟨?_, ?_, ?_⟩
  · rw [List.drop_append_of_le_length inside]
    exact here.trans (List.prefix_append _ _)
  · rw [List.length_append]
    omega
  · intro i before occurs
    exact earlier i before (prefix_of_append (by omega) occurs)

/-- A text ends, behind its first item, with a beginning of the pattern which at
    most `k` items can complete. -/
def Completes (pat s : List α) (k : Nat) : Prop :=
  ∃ i, 0 < i ∧ i ≤ s.length ∧ s.drop i <+: pat ∧ pat.length ≤ s.length - i + k

/-- A new occurrence behind the first item completes what the text ends with. -/
theorem completes_of_find? {pat s u : List α} {n : Nat} (nonempty : s ≠ [])
    (absent : find? pat s = none) (found : find? pat (s ++ u) = some (n + 1)) :
    Completes pat s u.length := by
  obtain ⟨here, -, -⟩ := find?_spec found
  have room := here.length_le
  have positive := List.length_pos_of_ne_nil nonempty
  simp only [List.length_drop, List.length_append] at room
  by_cases inside : n + 1 ≤ s.length
  · refine ⟨n + 1, by omega, inside, ?_, by omega⟩
    rw [List.drop_append_of_le_length inside] at here
    rcases List.prefix_or_prefix_of_prefix here (List.prefix_append _ _) with early | crossing
    · exact absurd early (find?_none absent (n + 1))
    · exact crossing
  · refine ⟨s.length, positive, le_rfl, ?_, by omega⟩
    rw [List.drop_length]
    exact List.nil_prefix

/-- The rest of the pattern does complete it, and not at the start of the text,
    if the pattern's first item does not come again in it. -/
theorem find?_completed {h : α} {t s : List α} {k : Nat} (fresh : h ∉ t)
    (absent : find? (h :: t) s = none) (ends : Completes (h :: t) s k) :
    ∃ u, u <:+ h :: t ∧ u.length ≤ k ∧ ∃ n, find? (h :: t) (s ++ u) = some (n + 1) := by
  obtain ⟨i, positive, inside, ⟨u, whole⟩, room⟩ := ends
  have lengths := congrArg List.length whole
  rw [List.length_append, List.length_drop] at lengths
  have joined : s ++ u = s.take i ++ h :: t := by
    rw [← whole, ← List.append_assoc, List.take_append_drop]
  refine ⟨u, ⟨s.drop i, whole⟩, by omega, ?_⟩
  cases found : find? (h :: t) (s ++ u) with
  | none =>
      have here : h :: t <+: (s ++ u).drop i := by
        rw [joined, List.drop_left' (List.length_take_of_le inside)]
      exact absurd here (find?_none found i)
  | some n =>
      cases n with
      | succ n => exact ⟨n, rfl⟩
      | zero =>
          -- At the start the pattern would meet its own first item again.
          obtain ⟨here, -, -⟩ := find?_spec found
          rw [List.drop_zero] at here
          by_cases long : (h :: t).length ≤ s.length
          · have early : h :: t <+: s.drop 0 := prefix_of_append (by omega) here
            exact absurd early (find?_none absent 0)
          · obtain ⟨rest, same⟩ := here
            obtain ⟨j, rfl⟩ : ∃ j, i = j + 1 := ⟨i - 1, by omega⟩
            have item := congrArg (fun l => l[j + 1]?) (same.trans joined)
            have left : (h :: t ++ rest)[j + 1]? = t[j]? := by
              rw [List.getElem?_append_left (by omega), List.getElem?_cons_succ]
            have right : (s.take (j + 1) ++ h :: t)[j + 1]? = some h := by
              have length : (s.take (j + 1)).length = j + 1 := List.length_take_of_le inside
              rw [List.getElem?_append_right (by omega), length, Nat.sub_self, List.getElem?_cons_zero]
            simp only [left, right] at item
            exact absurd (List.mem_of_getElem? item) fresh

/-- The first occurrence of an item lies behind a stretch free of it. -/
theorem idxOf?_append_cons {c : α} {pre rest : List α} (absent : c ∉ pre) :
    (pre ++ c :: rest).idxOf? c = some pre.length := by
  induction pre with
  | nil => simp [List.idxOf?_cons]
  | cons d pre ih =>
      obtain ⟨different, absent⟩ := not_or.mp (List.mem_cons.not.mp absent)
      have miss : (d == c) = false := by simpa using Ne.symm different
      rw [List.cons_append, List.idxOf?_cons, miss, ih absent]
      rfl

omit [DecidableEq α] in
/-- A stretch which is over in the first list does not run on into the second. -/
theorem takeWhile_append_of_stop {p : α → Bool} {s : List α} (stop : ∃ c ∈ s, p c = false)
    (u : List α) : (s ++ u).takeWhile p = s.takeWhile p := by
  obtain ⟨c, member, fails⟩ := stop
  have short : (s.takeWhile p).length ≠ s.length := by
    intro all
    have whole := (List.takeWhile_prefix p).eq_of_length all
    rw [List.takeWhile_eq_self_iff.mp whole c member] at fails
    cases fails
  rw [List.takeWhile_append, if_neg short]

omit [DecidableEq α] in
/-- A beginning of a concatenation ends inside the first list or runs on into
    the second. -/
theorem prefix_append_cases {p a b : List α} (cut : p <+: a ++ b) :
    p <+: a ∨ ∃ q, p = a ++ q ∧ q <+: b := by
  rcases List.prefix_or_prefix_of_prefix cut (List.prefix_append a b) with early | ⟨q, rfl⟩
  · exact .inl early
  · exact .inr ⟨q, rfl, (List.prefix_append_right_inj a).mp cut⟩

end TextSearch
