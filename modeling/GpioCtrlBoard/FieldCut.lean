import GpioCtrlBoard.WebServer

/-! # The field cut out of a request line

The bounds of the cut are search results turned into `unsigned int`. A missing
`&` becomes the largest unsigned number, which `substring` clamps to the end of
the line, so the cut is always the text from the `=` of the first `portVal=` to
the next `&` or to the end.
-/

namespace GpioCtrlBoard

/-- The strings which an Arduino `String` can hold: its length is an `unsigned int`. -/
structure StoredString where
  chars : Str
  fits : chars.length < 2 ^ 32

/-- `v` is the value of the field which starts at position `n`: it ends at the
    first `&` behind the key, or with the line. -/
def IsField (r : Str) (n : Nat) (v : Str) : Prop :=
  '&' ∉ v ∧ ∃ w, r = r.take n ++ (portValKey ++ (v ++ w)) ∧ (w = [] ∨ ∃ rest, w = '&' :: rest)

/-- The bounds which `httpFilterString` hands to `substring`. -/
def fieldBounds (httpRqst : Str) (index : Int) : Nat × Nat :=
  let posVal := Str.indexOfChar httpRqst '=' (toUnsigned index)
  let endNumber := Str.indexOfChar httpRqst '&' (toUnsigned (posVal + 1))
  (toUnsigned (posVal + 1), toUnsigned endNumber)

theorem httpFilterString_bounds (r : Str) (index : Int) :
    httpFilterString r index = r.substring (fieldBounds r index).1 (fieldBounds r index).2 := rfl

/-! ## Where the field stands -/

/-- The text behind the first `portVal=`. -/
theorem indexOf_portVal_rest {r : Str} {n : Nat} (found : Str.indexOf r portValKey = n) :
    ∃ rest, r.drop n = portValKey ++ rest ∧ r = r.take n ++ (portValKey ++ rest) ∧
      n + 8 + rest.length = r.length := by
  cases search : TextSearch.find? portValKey r with
  | none => simp [Str.indexOf, search] at found
  | some m =>
      have same : m = n := by simpa [Str.indexOf, search] using found
      subst same
      obtain ⟨⟨rest, behind⟩, inside, -⟩ := TextSearch.find?_spec search
      have key : portValKey.length = 8 := rfl
      have lengths := congrArg List.length behind
      rw [List.length_append, List.length_drop, key] at lengths
      refine ⟨rest, behind.symm, ?_, by omega⟩
      rw [behind, List.take_append_drop]

/-- The left bound lies right behind the key. -/
theorem fieldBounds_left {r rest : Str} {n : Nat} (behind : r.drop n = portValKey ++ rest)
    (small : n + 8 < 2 ^ 32) : (fieldBounds r n).1 = n + 8 := by
  have equals : Str.indexOfChar r '=' (toUnsigned n) = (n + 7 : Nat) := by
    rw [toUnsigned_natCast (by omega)]
    have key : r.drop n = "portVal".toList ++ '=' :: rest := behind
    exact indexOfChar_append n key (by decide)
  simp only [fieldBounds, equals]
  exact toUnsigned_natCast (n := n + 8) small

/-- The right bound is the end of the field, or the largest unsigned number. -/
theorem fieldBounds_right {r v w : Str} {n : Nat} (behind : r.drop n = portValKey ++ (v ++ w))
    (noAmp : '&' ∉ v) (ends : w = [] ∨ ∃ rest, w = '&' :: rest) (fits : n + 8 + v.length < 2 ^ 32) :
    (w = [] ∧ (fieldBounds r n).2 = 2 ^ 32 - 1) ∨
      (w ≠ [] ∧ (fieldBounds r n).2 = n + 8 + v.length) := by
  have left : (fieldBounds r n).1 = n + 8 := fieldBounds_left behind (by omega)
  have right : (fieldBounds r n).2 =
      toUnsigned (Str.indexOfChar r '&' (fieldBounds r n).1) := rfl
  have value : r.drop (n + 8) = v ++ w := by
    rw [← List.drop_drop, behind]
    rfl
  rw [right, left]
  rcases ends with rfl | ⟨rest, rfl⟩
  · -- No `&` is left: -1 is converted to the largest unsigned number.
    have missing : (v ++ []).idxOf? '&' = none := by
      rw [List.append_nil]
      exact List.idxOf?_eq_none_iff.mpr noAmp
    left
    refine ⟨rfl, ?_⟩
    simp only [Str.indexOfChar, value, missing]
    rfl
  · right
    refine ⟨List.cons_ne_nil _ _, ?_⟩
    rw [indexOfChar_append (n + 8) value noAmp]
    exact toUnsigned_natCast fits

theorem IsField.behind {r v : Str} {n : Nat} (field : IsField r n v) (inside : n ≤ r.length) :
    ∃ w, r.drop n = portValKey ++ (v ++ w) ∧ n + 8 + v.length + w.length = r.length ∧
      (w = [] ∨ ∃ rest, w = '&' :: rest) := by
  obtain ⟨-, w, split, ends⟩ := field
  have key : portValKey.length = 8 := rfl
  have joined : r.take n ++ r.drop n = r.take n ++ (portValKey ++ (v ++ w)) := by
    rw [List.take_append_drop]
    exact split
  have behind : r.drop n = portValKey ++ (v ++ w) := List.append_cancel_left joined
  have lengths := congrArg List.length behind
  simp only [List.length_append, List.length_drop, key] at lengths
  exact ⟨w, behind, by omega, ends⟩

/-- The bounds are in order, and what lies between them is the field. Only what
    stands up to its end has to be in the range of the bounds. -/
theorem IsField.cut {r v : Str} {n : Nat} (field : IsField r n v) (inside : n ≤ r.length)
    (fits : n + 8 + v.length < 2 ^ 32) :
    (fieldBounds r n).1 = n + 8 ∧ (fieldBounds r n).1 ≤ (fieldBounds r n).2 ∧
      httpFilterString r n = v := by
  obtain ⟨w, behind, lengths, ends⟩ := field.behind inside
  have left : (fieldBounds r n).1 = n + 8 := fieldBounds_left behind (by omega)
  have value : r.drop (n + 8) = v ++ w := by
    rw [← List.drop_drop, behind]
    rfl
  refine ⟨left, ?_⟩
  rw [httpFilterString_bounds, left]
  rcases fieldBounds_right behind field.1 ends (by omega) with ⟨rfl, right⟩ | ⟨-, right⟩
  · rw [List.length_nil] at lengths
    rw [right, Str.substring, Nat.max_eq_right (by omega), Nat.min_eq_left (by omega),
      List.take_of_length_le (by omega), value, List.append_nil]
    exact ⟨by omega, rfl⟩
  · rw [right, Str.substring, Nat.max_eq_right (by omega), Nat.min_eq_left (by omega),
      List.drop_take, value, Nat.add_sub_cancel_left, List.take_left]
    exact ⟨by omega, rfl⟩

/-- Every text behind a key has a first `&` or none. -/
theorem isField_of_rest {r rest : Str} {n : Nat} (split : r = r.take n ++ (portValKey ++ rest)) :
    ∃ v, IsField r n v := by
  by_cases amp : '&' ∈ rest
  · obtain ⟨v, w, whole, noAmp⟩ := List.eq_append_cons_of_mem amp
    rw [whole] at split
    exact ⟨v, noAmp, '&' :: w, split, .inr ⟨w, rfl⟩⟩
  · refine ⟨rest, amp, [], ?_, .inl rfl⟩
    rw [List.append_nil]
    exact split

/-- Where the key is found, the cut is the field and nothing else, and the
    bounds handed to `substring` stand in order behind the `=`. -/
theorem httpFilterString_cut (r : StoredString) (n : Nat) (found : Str.indexOf r.chars portValKey = n) :
    (∀ v, httpFilterString r.chars n = v ↔ IsField r.chars n v) ∧
    (fieldBounds r.chars n).1 = n + portValKey.length ∧
    (fieldBounds r.chars n).1 ≤ (fieldBounds r.chars n).2 := by
  obtain ⟨rest, -, split, lengths⟩ := indexOf_portVal_rest found
  obtain ⟨v, field⟩ := isField_of_rest split
  have inside : n ≤ r.chars.length := by omega
  have stored := r.fits
  have fits : ∀ v, IsField r.chars n v → n + 8 + v.length < 2 ^ 32 := by
    intro v field
    obtain ⟨w, -, lengths, -⟩ := field.behind inside
    omega
  obtain ⟨left, ordered, cut⟩ := field.cut inside (fits v field)
  refine ⟨?_, left, ordered⟩
  intro v'
  constructor
  · rintro rfl
    rw [cut]
    exact field
  · intro field'
    exact (field'.cut inside (fits v' field')).2.2

/-- A line which ends inside its second field. -/
def openField : StoredString := ⟨"GET /portVal==a&portVal=b".toList, by decide⟩

theorem httpFilterString_cut_openField :
    (∀ v, httpFilterString openField.chars (5 : Nat) = v ↔ IsField openField.chars 5 v) ∧
    (fieldBounds openField.chars (5 : Nat)).1 = 5 + portValKey.length ∧
    (fieldBounds openField.chars (5 : Nat)).1 ≤ (fieldBounds openField.chars (5 : Nat)).2 :=
  httpFilterString_cut openField 5 (by decide +kernel)

/-! ## What a line with a field asks for -/

/-- A line with a key behind its first byte asks for what its field says. -/
theorem route_of_field {r v : Str} {n : Nat}
    (found : TextSearch.find? portValKey r = some (n + 1)) (field : IsField r (n + 1) v)
    (fits : n + 9 + v.length < 2 ^ 32) : route r = .portVal v := by
  have inside := (TextSearch.find?_spec found).2.1
  have located : Str.indexOf r portValKey = (n + 1 : Nat) := by simp only [Str.indexOf, found]
  have positive : ((n + 1 : Nat) : Int) > 0 := by omega
  have cut := (field.cut inside (by omega)).2.2
  simp only [route, located, if_pos positive, cut]

theorem route_of_stored_field {r v : Str} {n : Nat}
    (found : TextSearch.find? portValKey r = some (n + 1)) (field : IsField r (n + 1) v)
    (stored : r.length < 2 ^ 32) : route r = .portVal v := by
  obtain ⟨w, -, lengths, -⟩ := field.behind (TextSearch.find?_spec found).2.1
  exact route_of_field found field (by omega)

/-- The field of a request line counts whether or not its `&` has been received. -/
theorem route_field {payload w : Str} (noAmp : '&' ∉ payload) (ends : w = [] ∨ ∃ rest, w = '&' :: rest)
    (small : 13 + payload.length < 2 ^ 32) :
    route (requestHead ++ (portValKey ++ (payload ++ w))) = .portVal payload := by
  have field : IsField (requestHead ++ (portValKey ++ (payload ++ w))) 5 payload :=
    ⟨noAmp, w, rfl, ends⟩
  exact route_of_field (find_portVal (payload ++ w)) field (by omega)

theorem route_portVal {payload post : Str} (noAmp : '&' ∉ payload)
    (small : 13 + payload.length < 2 ^ 32) :
    route (requestHead ++ (portValKey ++ (payload ++ '&' :: post))) = .portVal payload :=
  route_field noAmp (.inr ⟨post, rfl⟩) small

end GpioCtrlBoard
