import Mathlib

/-!
# Picking by cumulative weight

`pickAt weight position cumulative xs` walks `xs`, adding up weights from
`cumulative`, and returns the first entry whose running total exceeds
`position`: the entries own consecutive intervals of positions, each as long as
its weight.

* `pickAt_isSome`: a position below the total is owned by some entry.
* `weight_pos_of_pickAt`: that entry has a weight.
* `pickAt_append`: the interval of an entry starts at the weight before it.
* `pickIndex_eq_iff`: which positions an entry of the list owns.
* `perm_of_counts`: indices that occur as often as the weights say pick each entry
  as often as its weight.
-/

namespace Melis.Lib

variable {α : Type*}

/-- The first entry of the list whose running total exceeds `position`. -/
def pickAt (weight : α → ℕ) (position : ℕ) : ℕ → List α → Option α
  | _, [] => none
  | cumulative, x :: xs =>
    if position < cumulative + weight x then some x
    else pickAt weight position (cumulative + weight x) xs

/-- The index of that entry; the length of the list if there is none. -/
def pickIndex (weight : α → ℕ) (position : ℕ) : ℕ → List α → ℕ
  | _, [] => 0
  | cumulative, x :: xs =>
    if position < cumulative + weight x then 0
    else pickIndex weight position (cumulative + weight x) xs + 1

/-- The weight of the entries before index `i`. -/
def weightBefore (weight : α → ℕ) (xs : List α) (i : ℕ) : ℕ := ((xs.take i).map weight).sum

variable {weight : α → ℕ} {position cumulative : ℕ} {xs : List α} {x : α}

theorem mem_of_pickAt (h : pickAt weight position cumulative xs = some x) : x ∈ xs := by
  induction xs generalizing cumulative with
  | nil => simp [pickAt] at h
  | cons y ys ih =>
    rw [pickAt] at h
    split_ifs at h
    · obtain rfl := Option.some.inj h
      exact List.mem_cons_self
    · exact List.mem_cons_of_mem y (ih h)

theorem pickAt_isSome (h : position < cumulative + (xs.map weight).sum)
    (hle : cumulative ≤ position) : (pickAt weight position cumulative xs).isSome := by
  induction xs generalizing cumulative with
  | nil => simp only [List.map_nil, List.sum_nil] at h; omega
  | cons y ys ih =>
    rw [pickAt]
    simp only [List.map_cons, List.sum_cons] at h
    split_ifs
    · rfl
    · exact ih (by omega) (by omega)

/-- An entry of weight zero owns no position. -/
theorem weight_pos_of_pickAt (h : pickAt weight position cumulative xs = some x)
    (hle : cumulative ≤ position) : 0 < weight x := by
  induction xs generalizing cumulative with
  | nil => simp [pickAt] at h
  | cons y ys ih =>
    rw [pickAt] at h
    split_ifs at h with hlt
    · obtain rfl := Option.some.inj h
      omega
    · exact ih h (Nat.le_of_not_lt hlt)

/-- An entry of positive weight is picked at the total weight before it. -/
theorem pickAt_append (hx : 0 < weight x) (cumulative : ℕ) (pre post : List α) :
    pickAt weight (cumulative + (pre.map weight).sum) cumulative (pre ++ x :: post) = some x := by
  induction pre generalizing cumulative with
  | nil => simp [pickAt, hx]
  | cons y pre ih =>
    rw [List.cons_append, pickAt, if_neg (by simp only [List.map_cons, List.sum_cons]; omega)]
    simp only [List.map_cons, List.sum_cons, ← Nat.add_assoc]
    exact ih _

/-! ## The index of the entry -/

theorem pickAt_eq_getElem? (weight : α → ℕ) (position cumulative : ℕ) (xs : List α) :
    pickAt weight position cumulative xs = xs[pickIndex weight position cumulative xs]? := by
  induction xs generalizing cumulative with
  | nil => rfl
  | cons y ys ih =>
    rw [pickAt, pickIndex]
    split_ifs
    · rfl
    · rw [List.getElem?_cons_succ]
      exact ih _

@[simp] theorem weightBefore_zero (weight : α → ℕ) (xs : List α) : weightBefore weight xs 0 = 0 :=
  rfl

@[simp] theorem weightBefore_cons_succ (weight : α → ℕ) (y : α) (ys : List α) (i : ℕ) :
    weightBefore weight (y :: ys) (i + 1) = weight y + weightBefore weight ys i := by
  simp [weightBefore]

/-- The interval of an entry ends within the total. -/
theorem weightBefore_add_le {i : ℕ} (hi : i < xs.length) :
    weightBefore weight xs i + weight xs[i] ≤ (xs.map weight).sum := by
  induction xs generalizing i with
  | nil => simp at hi
  | cons y ys ih =>
    rw [List.map_cons, List.sum_cons]
    match i with
    | 0 => simp
    | i + 1 =>
      have h := ih (Nat.lt_of_succ_lt_succ hi)
      rw [weightBefore_cons_succ, List.getElem_cons_succ]
      omega

/-- An entry owns the positions from the weight before it up to its own weight
    more. -/
theorem pickIndex_eq_iff {i : ℕ} (hi : i < xs.length) (hle : cumulative ≤ position) :
    pickIndex weight position cumulative xs = i ↔
      cumulative + weightBefore weight xs i ≤ position ∧
        position < cumulative + weightBefore weight xs i + weight xs[i] := by
  induction xs generalizing i cumulative with
  | nil => simp at hi
  | cons y ys ih =>
    rw [pickIndex]
    match i with
    | 0 =>
      rw [weightBefore_zero, List.getElem_cons_zero]
      by_cases h : position < cumulative + weight y
      · rw [if_pos h]
        exact ⟨fun _ => ⟨hle, h⟩, fun _ => rfl⟩
      · rw [if_neg h]
        omega
    | i + 1 =>
      have hi' : i < ys.length := Nat.lt_of_succ_lt_succ hi
      rw [weightBefore_cons_succ, List.getElem_cons_succ]
      by_cases h : position < cumulative + weight y
      · rw [if_pos h]
        omega
      · rw [if_neg h, Nat.add_right_cancel_iff, ih hi' (Nat.le_of_not_lt h)]
        omega

/-- If every index occurs as often as its entry's weight, and no other does, then
    the entries picked are each entry as many times as its weight, in some order. -/
theorem perm_of_counts {is : List ℕ} (hlt : ∀ i ∈ is, i < xs.length)
    (hcount : ∀ i (hi : i < xs.length), is.count i = weight xs[i]) :
    (is.filterMap (xs[·]?)).Perm (xs.flatMap fun x => List.replicate (weight x) x) := by
  have hindices : is.Perm ((List.finRange xs.length).flatMap fun i =>
      List.replicate (weight xs[i]) i.val) := by
    refine List.perm_iff_count.mpr fun j => ?_
    rw [List.count_flatMap, Function.comp_def, ← Fin.sum_univ_def]
    simp only [List.count_replicate, beq_iff_eq]
    by_cases hj : j < xs.length
    · rw [hcount j hj, Finset.sum_eq_single ⟨j, hj⟩]
      · simp
      · intro i _ hi
        exact if_neg fun h => hi (Fin.ext h)
      · exact fun h => absurd (Finset.mem_univ _) h
    · rw [List.count_eq_zero_of_not_mem (mt (hlt j) hj), Finset.sum_eq_zero fun i _ => ?_]
      exact if_neg fun h : i.val = j => hj (h ▸ i.isLt)
  refine (hindices.filterMap _).trans (List.Perm.of_eq ?_)
  rw [List.filterMap_flatMap]
  conv_rhs => rw [← List.map_get_finRange xs, List.flatMap_map]
  refine congrArg (List.flatMap · (List.finRange xs.length)) (funext fun i => ?_)
  simp

end Melis.Lib
