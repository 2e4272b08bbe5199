import Mathlib

/-! # Keyed stores driven by a list of writes

A store maps every key to a value and is changed only by writes, applied in
order. The last write to a key decides its value, so two write lists can be
compared key by key without replaying them. `changes` keeps the writes which
alter the value they find, in the order in which they happen.
-/

namespace WriteStore

variable {κ α : Type*} [DecidableEq κ]

/-- Perform one write. -/
def write (s : κ → α) (w : κ × α) : κ → α := Function.update s w.1 w.2

/-- Perform a list of writes, first write first. -/
def writeAll (s : κ → α) (ws : List (κ × α)) : κ → α := ws.foldl write s

/-- The value of the last write to `k`, if there is one. -/
def lastWrite (k : κ) (ws : List (κ × α)) : Option α :=
  (ws.filterMap fun w => if w.1 = k then some w.2 else none).getLast?

@[simp] theorem writeAll_nil (s : κ → α) : writeAll s [] = s := rfl

@[simp] theorem writeAll_cons (s : κ → α) (w : κ × α) (ws : List (κ × α)) :
    writeAll s (w :: ws) = writeAll (write s w) ws := rfl

theorem writeAll_append (s : κ → α) (xs ys : List (κ × α)) :
    writeAll s (xs ++ ys) = writeAll (writeAll s xs) ys :=
  List.foldl_append

@[simp] theorem lastWrite_nil (k : κ) : lastWrite k ([] : List (κ × α)) = none := rfl

theorem lastWrite_append (k : κ) (xs ys : List (κ × α)) :
    lastWrite k (xs ++ ys) = (lastWrite k ys).or (lastWrite k xs) := by
  simp only [lastWrite, List.filterMap_append, List.getLast?_append]

theorem lastWrite_cons (k : κ) (w : κ × α) (ws : List (κ × α)) :
    lastWrite k (w :: ws) = (lastWrite k ws).or (if w.1 = k then some w.2 else none) := by
  rw [← List.singleton_append, lastWrite_append]
  congr 1
  by_cases h : w.1 = k <;> simp [lastWrite, h]

/-- The last write wins; an unwritten key keeps its value. -/
theorem writeAll_apply (s : κ → α) (ws : List (κ × α)) (k : κ) :
    writeAll s ws k = (lastWrite k ws).getD (s k) := by
  induction ws generalizing s with
  | nil => rfl
  | cons w ws ih =>
      rw [writeAll_cons, ih, lastWrite_cons]
      cases lastWrite k ws with
      | some v => rfl
      | none =>
          by_cases h : w.1 = k
          · subst h
            simp [write]
          · simp [write, h, Function.update_of_ne (Ne.symm h)]

theorem lastWrite_eq_none_iff {k : κ} {ws : List (κ × α)} :
    lastWrite k ws = none ↔ k ∉ ws.map Prod.fst := by
  induction ws with
  | nil => simp
  | cons w ws ih =>
      rw [lastWrite_cons, Option.or_eq_none_iff, ih]
      by_cases h : w.1 = k
      · simp [h]
      · simp [h, Ne.symm h]

theorem mem_of_lastWrite {k : κ} {v : α} {ws : List (κ × α)} (h : lastWrite k ws = some v) :
    (k, v) ∈ ws := by
  obtain ⟨w, member, hit⟩ := List.mem_filterMap.mp (List.mem_of_getLast? h)
  by_cases same : w.1 = k
  · rw [if_pos same, Option.some.injEq] at hit
    rw [← same, ← hit]
    exact member
  · simp [same] at hit

/-- At most one write is known by the last writes of all keys. -/
theorem lastWrite_toList_inj {o o' : Option (κ × α)} :
    (∀ k, lastWrite k o.toList = lastWrite k o'.toList) ↔ o = o' := by
  have written : ∀ w : κ × α, lastWrite w.1 (some w).toList = some w.2 := by
    intro w
    simp [lastWrite_cons]
  constructor
  · intro same
    cases o with
    | some w =>
        have member := mem_of_lastWrite ((same w.1).symm.trans (written w))
        exact (Option.mem_toList.mp member).symm
    | none =>
        cases o' with
        | none => rfl
        | some w => exact absurd ((same w.1).trans (written w)) (by simp)
  · rintro rfl k
    rfl

theorem writeAll_of_not_mem (s : κ → α) {ws : List (κ × α)} {k : κ}
    (absent : k ∉ ws.map Prod.fst) : writeAll s ws k = s k := by
  rw [writeAll_apply, lastWrite_eq_none_iff.mpr absent]
  rfl

/-- Where no key is written twice, every write of the list is a last write. -/
theorem writeAll_of_mem (s : κ → α) {ws : List (κ × α)} (distinct : (ws.map Prod.fst).Nodup)
    {w : κ × α} (member : w ∈ ws) : writeAll s ws w.1 = w.2 := by
  induction ws generalizing s with
  | nil => simp at member
  | cons v ws ih =>
      obtain ⟨absent, distinct⟩ := List.nodup_cons.mp distinct
      rw [writeAll_cons]
      rcases List.mem_cons.mp member with rfl | member
      · rw [writeAll_of_not_mem _ absent]
        simp [write]
      · exact ih _ distinct member

/-- Writing a function over a list of keys. -/
theorem writeAll_map (s f : κ → α) (ks : List κ) (k : κ) :
    writeAll s (ks.map fun k => (k, f k)) k = if k ∈ ks then f k else s k := by
  have keys : (ks.map fun k => (k, f k)).map Prod.fst = ks := by
    simp only [List.map_map, Function.comp_def, List.map_id']
  by_cases inside : k ∈ ks
  · rw [if_pos inside, writeAll_apply]
    cases h : lastWrite k (ks.map fun k => (k, f k)) with
    | none =>
        rw [lastWrite_eq_none_iff, keys] at h
        exact absurd inside h
    | some v =>
        obtain ⟨k', -, same⟩ := List.mem_map.mp (mem_of_lastWrite h)
        obtain ⟨rfl, rfl⟩ := Prod.mk.inj same
        rfl
  · rw [if_neg inside]
    apply writeAll_of_not_mem
    rw [keys]
    exact inside

/-- A write list hides an earlier one which touches no other key. -/
theorem writeAll_overwrite (s : κ → α) {xs ys : List (κ × α)}
    (covered : ∀ k ∈ xs.map Prod.fst, k ∈ ys.map Prod.fst) :
    writeAll (writeAll s xs) ys = writeAll s ys := by
  funext k
  rw [writeAll_apply _ ys, writeAll_apply s ys]
  cases h : lastWrite k ys with
  | some v => rfl
  | none =>
      have absent : k ∉ xs.map Prod.fst := fun hk => lastWrite_eq_none_iff.mp h (covered k hk)
      simp only [Option.getD_none, writeAll_of_not_mem s absent]

/-- A write list changes nothing exactly when its last writes find their own values. -/
theorem writeAll_eq_self_iff (s : κ → α) {ws : List (κ × α)} (distinct : (ws.map Prod.fst).Nodup) :
    writeAll s ws = s ↔ ∀ w ∈ ws, s w.1 = w.2 := by
  constructor
  · intro same w member
    rw [← writeAll_of_mem s distinct member, same]
  · intro agree
    funext k
    rw [writeAll_apply]
    cases h : lastWrite k ws with
    | none => rfl
    | some v => exact (agree _ (mem_of_lastWrite h)).symm

/-! ## Writes that change something -/

variable [DecidableEq α]

/-- The writes which find a different value than the one they write. -/
def changes : (κ → α) → List (κ × α) → List (κ × α)
  | _, [] => []
  | s, w :: ws => if s w.1 = w.2 then changes s ws else w :: changes (write s w) ws

theorem changes_append (s : κ → α) (xs ys : List (κ × α)) :
    changes s (xs ++ ys) = changes s xs ++ changes (writeAll s xs) ys := by
  induction xs generalizing s with
  | nil => rfl
  | cons w xs ih =>
      by_cases h : s w.1 = w.2
      · have unchanged : write s w = s := by
          simp only [write, ← h, Function.update_eq_self]
        simp only [List.cons_append, changes, h, if_true, writeAll_cons, unchanged, ih]
      · simp only [List.cons_append, changes, h, if_false, writeAll_cons, ih]

theorem changes_of_agree {s : κ → α} {ws : List (κ × α)} (agree : ∀ w ∈ ws, s w.1 = w.2) :
    changes s ws = [] := by
  induction ws with
  | nil => rfl
  | cons w ws ih =>
      rw [changes, if_pos (agree w List.mem_cons_self)]
      exact ih fun v member => agree v (List.mem_cons_of_mem w member)

/-- One disagreeing write among distinct keys is the only change. -/
theorem changes_of_single {s : κ → α} {ws : List (κ × α)} (distinct : (ws.map Prod.fst).Nodup)
    {w : κ × α} (member : w ∈ ws) (differs : s w.1 ≠ w.2)
    (agree : ∀ v ∈ ws, v ≠ w → s v.1 = v.2) : changes s ws = [w] := by
  induction ws with
  | nil => simp at member
  | cons v ws ih =>
      obtain ⟨absent, distinct⟩ := List.nodup_cons.mp distinct
      by_cases same : v = w
      · subst same
        rw [changes, if_neg differs]
        congr 1
        apply changes_of_agree
        intro u inside
        have other : u.1 ≠ v.1 := fun h => absent (h ▸ List.mem_map_of_mem inside)
        rw [write, Function.update_of_ne other]
        exact agree u (List.mem_cons_of_mem v inside) fun h => other (congrArg Prod.fst h)
      · have later : w ∈ ws := (List.mem_cons.mp member).resolve_left (Ne.symm same)
        rw [changes, if_pos (agree v List.mem_cons_self same)]
        exact ih distinct later fun u inside => agree u (List.mem_cons_of_mem v inside)

end WriteStore
