import Mathlib

/-! # Round robin

A token goes round the places `0 .. n`. It moves on to the first ready place
behind it and starts again at place 0, ready or not, when there is none. While a
ready place waits, the token comes closer with every move; with the ready places
fixed it keeps to one ring, on which every place has its share of the ticks.
-/

namespace RoundRobin

variable {n : Nat}

/-- The places behind `c`, in order. -/
def behind (c : Fin (n + 1)) : List (Fin (n + 1)) := (List.finRange (n + 1)).drop (c + 1)

/-- The first ready place behind `c`, or place 0. -/
def next (ready : Fin (n + 1) → Bool) (c : Fin (n + 1)) : Fin (n + 1) :=
  ((behind c).find? ready).getD 0

theorem mem_behind {c j : Fin (n + 1)} : j ∈ behind c ↔ c < j := by
  rw [behind, List.mem_drop_iff_getElem]
  constructor
  · rintro ⟨i, inside, rfl⟩
    rw [List.getElem_finRange, Fin.lt_def, Fin.val_cast]
    simp only
    omega
  · intro before
    have order : c.val < j.val := before
    have inside := j.isLt
    have split : c.val + 1 + (j.val - (c.val + 1)) = j.val := by omega
    refine ⟨j.val - (c.val + 1), ?_, ?_⟩
    · rw [List.length_finRange]
      omega
    · rw [List.getElem_finRange]
      apply Fin.ext
      rw [Fin.val_cast]
      simp only
      omega

theorem behind_sorted (c : Fin (n + 1)) : (behind c).Pairwise (· < ·) :=
  (List.pairwise_lt_finRange (n + 1)).drop

/-- Either no place behind is ready, or the token moves to the first one. -/
theorem next_cases (ready : Fin (n + 1) → Bool) (c : Fin (n + 1)) :
    (next ready c = 0 ∧ ∀ j, c < j → ready j = false) ∨
      (c < next ready c ∧ ready (next ready c) = true ∧
        ∀ j, c < j → j < next ready c → ready j = false) := by
  cases found : (behind c).find? ready with
  | none =>
      left
      refine ⟨by rw [next, found]; rfl, fun j before => ?_⟩
      simpa using List.find?_eq_none.mp found j (mem_behind.mpr before)
  | some g =>
      right
      have here : next ready c = g := by rw [next, found]; rfl
      obtain ⟨isReady, pre, post, split, skipped⟩ := List.find?_eq_some_iff_append.mp found
      rw [here]
      refine ⟨mem_behind.mp (List.mem_of_find?_eq_some found), isReady, fun j before early => ?_⟩
      have sorted := behind_sorted c
      have member : j ∈ behind c := mem_behind.mpr before
      rw [split] at sorted member
      rcases List.mem_append.mp member with front | back
      · simpa using skipped j front
      · rcases List.mem_cons.mp back with rfl | back
        · exact absurd early (lt_irrefl j)
        · have later := (List.pairwise_cons.mp (List.pairwise_append.mp sorted).2.1).1 j back
          exact absurd early (not_lt_of_gt later)

/-! ## Bounded bypass -/

/-- The number of places which the token can still visit before `i`. -/
def ahead (i c : Fin (n + 1)) : Nat := if c < i then i - c - 1 else i + n - c

/-- A move which does not reach a ready place comes closer to it. -/
theorem ahead_next_lt {ready : Fin (n + 1) → Bool} {i c : Fin (n + 1)}
    (waiting : i = 0 ∨ ready i = true) (missed : next ready c ≠ i) :
    ahead i (next ready c) < ahead i c := by
  have last := c.isLt
  have inside := (next ready c).isLt
  rcases next_cases ready c with ⟨wrapped, none⟩ | ⟨forward, -, between⟩
  · -- Wrapped to the start: every place up to the token lies ahead, `i` among them.
    rw [wrapped] at missed ⊢
    have isReady : ready i = true := waiting.resolve_left (Ne.symm missed)
    have order : ¬ c < i := fun before => by simp [none i before] at isReady
    have positive : 0 < i := Fin.pos_iff_ne_zero.mpr (Ne.symm missed)
    rw [ahead, ahead, if_pos positive, if_neg order]
    rw [Fin.lt_def] at order positive
    simp only [Fin.val_zero] at positive ⊢
    omega
  · by_cases order : c < i
    · have isReady : ready i = true := by
        refine waiting.resolve_left ?_
        rintro rfl
        exact absurd order (Fin.not_lt_zero c)
      have early : next ready c < i := by
        by_contra late
        have skipped := between i order (lt_of_le_of_ne (not_lt.mp late) (Ne.symm missed))
        simp [skipped] at isReady
      rw [ahead, ahead, if_pos early, if_pos order]
      rw [Fin.lt_def] at forward early
      omega
    · have late : ¬ next ready c < i := fun early => order (forward.trans early)
      rw [ahead, ahead, if_neg late, if_neg order]
      rw [Fin.lt_def] at forward order
      omega

/-- The places visited while the ready places change from move to move. -/
def visits (c : Fin (n + 1)) : List (Fin (n + 1) → Bool) → List (Fin (n + 1))
  | [] => []
  | ready :: later => next ready c :: visits (next ready c) later

theorem visits_replicate (ready : Fin (n + 1) → Bool) (c : Fin (n + 1)) (m : Nat) :
    visits c (List.replicate m ready) = (List.range m).map fun k => (next ready)^[k + 1] c := by
  induction m generalizing c with
  | zero => rfl
  | succ m ih =>
      rw [List.replicate_succ, visits, ih, List.range_succ_eq_map, List.map_cons, List.map_map]
      rfl

theorem visits_ahead {i c : Fin (n + 1)} {readies : List (Fin (n + 1) → Bool)}
    (waiting : ∀ ready ∈ readies, i = 0 ∨ ready i = true) (missed : i ∉ visits c readies) :
    (∀ g ∈ visits c readies, ahead i g < ahead i c) ∧
      (visits c readies).Pairwise fun g h => ahead i h < ahead i g := by
  induction readies generalizing c with
  | nil => exact ⟨fun g member => absurd member List.not_mem_nil, List.Pairwise.nil⟩
  | cons ready later ih =>
      rw [visits, List.mem_cons, not_or] at missed
      obtain ⟨other, missed⟩ := missed
      have closer := ahead_next_lt (waiting ready List.mem_cons_self) (Ne.symm other)
      obtain ⟨below, descending⟩ := ih (fun r member => waiting r (List.mem_cons_of_mem _ member)) missed
      constructor
      · intro g member
        rcases List.mem_cons.mp member with rfl | member
        · exact closer
        · exact (below g member).trans closer
      · exact List.pairwise_cons.mpr ⟨below, descending⟩

/-- While a ready place waits for the token, no other place is visited twice. -/
theorem bypass {i c : Fin (n + 1)} {readies : List (Fin (n + 1) → Bool)}
    (waiting : ∀ ready ∈ readies, i = 0 ∨ ready i = true) (missed : i ∉ visits c readies) :
    (visits c readies).Nodup ∧ (visits c readies).length ≤ n := by
  obtain ⟨below, descending⟩ := visits_ahead waiting missed
  have nodup : (visits c readies).Nodup := descending.imp fun closer same => by
    rw [same] at closer
    exact lt_irrefl _ closer
  refine ⟨nodup, ?_⟩
  have count := List.Nodup.length_le_card (List.nodup_cons.mpr ⟨missed, nodup⟩)
  rw [List.length_cons, Fintype.card_fin] at count
  omega

/-! ## Shares of the ticks -/

/-- A token which is still `left` ticks away from its next move. -/
@[ext] structure Token (n : Nat) where
  place : Fin (n + 1)
  left : Nat

variable (ready : Fin (n + 1) → Bool) (w : Fin (n + 1) → Nat)

/-- A place keeps the token for `w c` ticks and gives it up with the next one. -/
def arrive (c : Fin (n + 1)) : Token n := ⟨c, w c⟩

def tick (t : Token n) : Token n :=
  match t.left with
  | 0 => arrive w (next ready t.place)
  | k + 1 => ⟨t.place, k⟩

/-- The place which has the token at each of the next ticks. -/
def holders : Nat → Token n → List (Fin (n + 1))
  | 0, _ => []
  | k + 1, t => t.place :: holders k (tick ready w t)

/-- The ready places behind `c`. -/
def rest (c : Fin (n + 1)) : List (Fin (n + 1)) := (behind c).filter ready

/-- The places on which the token goes round. -/
def ring : List (Fin (n + 1)) := 0 :: rest ready 0

/-- The ticks which a list of places has to itself. -/
def share (places : List (Fin (n + 1))) : Nat := (places.map fun c => w c + 1).sum

theorem mem_ring {c : Fin (n + 1)} : c ∈ ring ready ↔ c = 0 ∨ ready c = true := by
  rw [ring, List.mem_cons, rest, List.mem_filter, mem_behind]
  constructor
  · rintro (zero | ⟨-, isReady⟩)
    · exact .inl zero
    · exact .inr isReady
  · rintro (zero | isReady)
    · exact .inl zero
    · by_cases zero : c = 0
      · exact .inl zero
      · exact .inr ⟨Fin.pos_iff_ne_zero.mpr zero, isReady⟩

theorem ring_nodup : (ring ready).Nodup := by
  refine List.nodup_cons.mpr ⟨?_, ?_⟩
  · rw [rest, List.mem_filter, mem_behind]
    exact fun h => absurd h.1 (lt_irrefl _)
  · exact ((behind_sorted 0).imp ne_of_lt).filter ready

variable {ready} in
theorem next_of_rest_nil {c : Fin (n + 1)} (done : rest ready c = []) : next ready c = 0 := by
  rw [next, ← List.head?_filter]
  rw [rest] at done
  rw [done]
  rfl

variable {ready} in
theorem next_of_rest_cons {c d : Fin (n + 1)} {ds : List (Fin (n + 1))}
    (more : rest ready c = d :: ds) : next ready c = d ∧ rest ready d = ds := by
  rw [rest] at more
  constructor
  · rw [next, ← List.head?_filter, more]
    rfl
  · obtain ⟨pre, post, split, -, -, filtered⟩ := List.filter_eq_cons_iff.mp more
    have place : d.val = c.val + 1 + pre.length := by
      have item := congrArg (fun l => l[pre.length]?) split
      simp only [behind, List.getElem?_drop, List.getElem?_append_right (Nat.le_refl _),
        Nat.sub_self, List.getElem?_cons_zero] at item
      obtain ⟨inside, same⟩ := List.getElem?_eq_some_iff.mp item
      rw [List.getElem_finRange] at same
      rw [← same]
      rfl
    have behindPlace : behind d = post := by
      have later : behind d = (behind c).drop (pre.length + 1) := by
        rw [behind, behind, List.drop_drop]
        congr 1
        omega
      rw [later, split, ← List.drop_drop, List.drop_left]
      rfl
    rw [rest, behindPlace, filtered]

theorem holders_add (a b : Nat) (t : Token n) :
    holders ready w (a + b) t = holders ready w a t ++ holders ready w b ((tick ready w)^[a] t) := by
  induction a generalizing t with
  | zero => rw [Nat.zero_add]; rfl
  | succ a ih =>
      rw [Nat.add_right_comm, holders, holders, ih, List.cons_append, Function.iterate_succ_apply]

/-- The whole stay at one place. -/
theorem stay (c : Fin (n + 1)) (k : Nat) :
    holders ready w (k + 1) ⟨c, k⟩ = List.replicate (k + 1) c ∧
      (tick ready w)^[k + 1] ⟨c, k⟩ = arrive w (next ready c) := by
  induction k with
  | zero => exact ⟨rfl, rfl⟩
  | succ k ih =>
      obtain ⟨held, moved⟩ := ih
      have one : tick ready w ⟨c, k + 1⟩ = ⟨c, k⟩ := rfl
      constructor
      · rw [holders, one, held]
        rfl
      · rw [Function.iterate_succ_apply, one, moved]

theorem iterate_left (c : Fin (n + 1)) (j k : Nat) : (tick ready w)^[j] ⟨c, k + j⟩ = ⟨c, k⟩ := by
  induction j with
  | zero => rfl
  | succ j ih =>
      have one : tick ready w ⟨c, k + (j + 1)⟩ = ⟨c, k + j⟩ := rfl
      rw [Function.iterate_succ_apply, one, ih]

theorem share_cons (c : Fin (n + 1)) (cs : List (Fin (n + 1))) :
    share w (c :: cs) = w c + 1 + share w cs := by
  simp only [share, List.map_cons, List.sum_cons]

/-- From a place on, the token stays at each ready place in turn and then starts
    again. -/
theorem lap (c : Fin (n + 1)) :
    holders ready w (share w (c :: rest ready c)) (arrive w c) =
        (c :: rest ready c).flatMap (fun d => List.replicate (w d + 1) d) ∧
      (tick ready w)^[share w (c :: rest ready c)] (arrive w c) = arrive w 0 := by
  induction more : rest ready c generalizing c with
  | nil =>
      obtain ⟨held, moved⟩ := stay ready w c (w c)
      have single : share w [c] = w c + 1 := rfl
      rw [single, List.flatMap_singleton, arrive, held, moved, next_of_rest_nil more]
      exact ⟨rfl, rfl⟩
  | cons d ds ih =>
      obtain ⟨held, moved⟩ := stay ready w c (w c)
      obtain ⟨here, later⟩ := next_of_rest_cons more
      obtain ⟨heldLater, movedLater⟩ := ih d later
      rw [here] at moved
      rw [share_cons, arrive]
      constructor
      · rw [holders_add, held, moved, heldLater]
        rfl
      · rw [Nat.add_comm, Function.iterate_add_apply, moved, movedLater]

/-- The token gets to every ready place behind it. -/
theorem reaches {c d : Fin (n + 1)} (member : d ∈ c :: rest ready c) :
    ∃ k, (tick ready w)^[k] (arrive w c) = arrive w d := by
  induction more : rest ready c generalizing c with
  | nil =>
      rw [more, List.mem_singleton] at member
      exact ⟨0, by rw [member]; rfl⟩
  | cons e es ih =>
      obtain ⟨-, moved⟩ := stay ready w c (w c)
      obtain ⟨here, later⟩ := next_of_rest_cons more
      rw [more] at member
      rcases List.mem_cons.mp member with rfl | member
      · exact ⟨0, rfl⟩
      · obtain ⟨k, arrived⟩ := ih (by rw [later]; exact member) later
        refine ⟨k + (w c + 1), ?_⟩
        rw [Function.iterate_add_apply, arrive, moved, here, arrived]

/-- A token on the ring which has not outstayed its arrival. -/
def OnRing (t : Token n) : Prop := t.place ∈ ring ready ∧ t.left ≤ w t.place

variable {ready w} in
theorem onRing_tick {t : Token n} (onRing : OnRing ready w t) : OnRing ready w (tick ready w t) := by
  obtain ⟨c, k⟩ := t
  cases k with
  | succ k => exact ⟨onRing.1, (Nat.le_succ k).trans onRing.2⟩
  | zero =>
      refine ⟨(mem_ring ready).mpr ?_, le_rfl⟩
      rcases next_cases ready c with ⟨wrapped, -⟩ | ⟨-, isReady, -⟩
      · exact .inl wrapped
      · exact .inr isReady

/-- Such a token stands somewhere on the lap from place 0. -/
theorem OnRing.exists_iterate {t : Token n} (onRing : OnRing ready w t) :
    ∃ k, (tick ready w)^[k] (arrive w 0) = t := by
  obtain ⟨member, left⟩ := onRing
  obtain ⟨k, arrived⟩ := reaches ready w member
  refine ⟨w t.place - t.left + k, ?_⟩
  have split : arrive w t.place = ⟨t.place, t.left + (w t.place - t.left)⟩ := by
    rw [arrive, Nat.add_sub_cancel' left]
  rw [Function.iterate_add_apply, arrived, split, iterate_left]

theorem count_lap (j : Fin (n + 1)) (places : List (Fin (n + 1))) (nodup : places.Nodup) :
    (places.flatMap fun d => List.replicate (w d + 1) d).count j =
      if j ∈ places then w j + 1 else 0 := by
  induction places with
  | nil => rfl
  | cons c cs ih =>
      obtain ⟨absent, nodup⟩ := List.nodup_cons.mp nodup
      rw [List.flatMap_cons, List.count_append, List.count_replicate, ih nodup]
      by_cases here : j = c
      · subst here
        simp [absent]
      · have other : ¬ (c == j) = true := by simpa using Ne.symm here
        rw [if_neg other, Nat.zero_add]
        simp only [List.mem_cons, here, false_or]

/-- Over any window as long as the shares of the whole ring, wherever it begins,
    every place on the ring has the token for exactly its own share, and the
    token is back where it was. -/
theorem window {t : Token n} (onRing : OnRing ready w t) :
    (tick ready w)^[share w (ring ready)] t = t ∧
      ∀ j, (holders ready w (share w (ring ready)) t).count j = if j ∈ ring ready then w j + 1 else 0 := by
  obtain ⟨held, back⟩ := lap ready w 0
  rw [← ring] at held back
  obtain ⟨k, rfl⟩ := onRing.exists_iterate
  have periodic : Function.IsPeriodicPt (tick ready w) (share w (ring ready)) (arrive w 0) := back
  refine ⟨periodic.apply_iterate k, fun j => ?_⟩
  -- The window slides along the lap: what it loses in front comes again at its end.
  have slid := congrArg (List.count j) (holders_add ready w k (share w (ring ready)) (arrive w 0))
  rw [Nat.add_comm k, holders_add, back, List.count_append, List.count_append, held,
    count_lap w j _ (ring_nodup ready)] at slid
  omega

end RoundRobin
