import Mathlib

/-!
# Removing in order until within a budget

Two loops that remove the entries of a list one after another until a total
fits a budget.

* `removeUntil` tests the total before each removal and lowers it by the cost
  of the entry removed. It takes a prefix (`removeUntil_isPrefix`), ends within
  the budget when removing everything would (`removeUntil_within`), takes no
  entry too many (`removeUntil_minimal`), and takes them all if even the last
  one is too many (`removeUntil_eq_self_iff`). How far below the budget it can
  end is `le_sub_removeUntil_iff`.
* `pruneUntil` removes first and recounts after each removal
  (`pruneUntil_eq_append`), so it always removes an entry
  (`mem_pruneUntil_cons`), and no more than it has to (`pruneUntil_firstEnough`).

For removal in order of priority, `pairwise_insertionSort_stable` describes the
order of a stable sort, and `removeUntil_pairwise` carries it over to what is
removed and what is kept.
-/

namespace Melis.Lib

variable {α : Type*}

/-- The entries taken by: for each `x`, stop if the running `total` is at most
    `budget`, else take `x` and lower `total` by its cost. -/
def removeUntil (cost : α → ℕ) (budget : ℕ) : ℕ → List α → List α
  | _, [] => []
  | total, x :: xs =>
    if total ≤ budget then [] else x :: removeUntil cost budget (total - cost x) xs

section RemoveUntil

variable (cost : α → ℕ) (budget : ℕ)

theorem removeUntil_isPrefix (total : ℕ) (xs : List α) :
    removeUntil cost budget total xs <+: xs := by
  induction xs generalizing total with
  | nil => exact List.prefix_refl []
  | cons x xs ih =>
    rw [removeUntil]
    split_ifs
    · exact List.nil_prefix
    · exact List.prefix_cons_inj x |>.mpr (ih _)

theorem removeUntil_of_le {total : ℕ} (h : total ≤ budget) (xs : List α) :
    removeUntil cost budget total xs = [] := by
  cases xs with
  | nil => rfl
  | cons x xs => rw [removeUntil, if_pos h]

/-- If removing everything would be enough, the loop ends within the budget. -/
theorem removeUntil_within {total : ℕ} {xs : List α}
    (h : total ≤ budget + (xs.map cost).sum) :
    total ≤ budget + ((removeUntil cost budget total xs).map cost).sum := by
  induction xs generalizing total with
  | nil => simpa [removeUntil] using h
  | cons x xs ih =>
    rw [removeUntil]
    split_ifs with hle
    · simpa using hle
    · have := @ih (total - cost x) (by simp only [List.map_cons, List.sum_cons] at h; omega)
      simp only [List.map_cons, List.sum_cons]
      omega

/-- Before its last removal the loop is still over the budget. -/
theorem removeUntil_minimal {total : ℕ} {xs pre : List α} {x : α}
    (h : removeUntil cost budget total xs = pre ++ [x]) :
    budget + (pre.map cost).sum < total := by
  induction xs generalizing total pre with
  | nil => simp [removeUntil] at h
  | cons y ys ih =>
    rw [removeUntil] at h
    split_ifs at h with hle
    · simp at h
    · cases pre with
      | nil => simp only [List.map_nil, List.sum_nil]; omega
      | cons z pre =>
        simp only [List.cons_append, List.cons.injEq] at h
        obtain ⟨rfl, h⟩ := h
        have := ih h
        simp only [List.map_cons, List.sum_cons]
        omega

/-- While the loop is over the budget before the last entry, it removes them all. -/
theorem removeUntil_concat {total : ℕ} {xs : List α} {x : α}
    (h : budget + (xs.map cost).sum < total) :
    removeUntil cost budget total (xs ++ [x]) = xs ++ [x] := by
  induction xs generalizing total with
  | nil =>
    rw [List.map_nil, List.sum_nil, Nat.add_zero] at h
    rw [List.nil_append, removeUntil, if_neg (Nat.not_le_of_lt h), removeUntil]
  | cons y ys ih =>
    rw [List.map_cons, List.sum_cons] at h
    rw [List.cons_append, removeUntil, if_neg (by omega), ih (by omega)]

/-- The loop removes everything exactly if it is over the budget before the last
    entry. -/
theorem removeUntil_eq_self_iff {total : ℕ} {xs : List α} {x : α} :
    removeUntil cost budget total (xs ++ [x]) = xs ++ [x] ↔
      budget + (xs.map cost).sum < total :=
  ⟨removeUntil_minimal cost budget, removeUntil_concat cost budget⟩

/-- What is left is at least `bound` exactly if every removal the loop makes leaves
    as much: from above the budget, no single entry takes the total below it. -/
theorem le_sub_removeUntil_iff {bound total : ℕ} {xs : List α} (h : bound ≤ total) :
    bound ≤ total - ((removeUntil cost budget total xs).map cost).sum ↔
      ∀ pre x post, xs = pre ++ x :: post → budget < total - (pre.map cost).sum →
        bound ≤ total - (pre.map cost).sum - cost x := by
  induction xs generalizing total with
  | nil => simpa [removeUntil] using h
  | cons y ys ih =>
    rw [removeUntil]
    split_ifs with hle
    · -- the loop does not start, and no prefix is over the budget
      refine iff_of_true (by simpa using h) fun pre x post _ hlt => ?_
      omega
    rw [List.map_cons, List.sum_cons, ← Nat.sub_sub]
    constructor
    · intro hbound pre x post he hlt
      have hstep : bound ≤ total - cost y := hbound.trans (Nat.sub_le _ _)
      cases pre with
      | nil =>
        obtain ⟨rfl, -⟩ := List.cons.inj he
        simpa using hstep
      | cons z pre =>
        obtain ⟨rfl, htail⟩ := List.cons.inj he
        rw [List.map_cons, List.sum_cons, ← Nat.sub_sub] at hlt ⊢
        exact (ih hstep).mp hbound pre x post htail hlt
    · intro hall
      have hstep : bound ≤ total - cost y := by
        simpa using hall [] y ys rfl (by simpa using Nat.lt_of_not_le hle)
      refine (ih hstep).mpr fun pre x post he hlt => ?_
      have := hall (y :: pre) x post (by rw [he, List.cons_append])
      rw [List.map_cons, List.sum_cons, ← Nat.sub_sub] at this
      exact this hlt

/-- What is removed precedes what is kept. -/
theorem removeUntil_pairwise {R : α → α → Prop} {total : ℕ} {xs : List α} (h : xs.Pairwise R)
    {x y : α} (hx : x ∈ removeUntil cost budget total xs) (hy : y ∈ xs)
    (hny : y ∉ removeUntil cost budget total xs) : R x y := by
  obtain ⟨rest, he⟩ := removeUntil_isPrefix cost budget total xs
  rw [← he] at h hy
  have hrest : y ∈ rest := (List.mem_append.mp hy).resolve_left hny
  exact (List.pairwise_append.mp h).2.2 x hx y hrest

/-- The last entry in the order among those removed is the one removed last:
    without it the loop is still over the budget. -/
theorem removeUntil_minimal_of_last {R : α → α → Prop} {total : ℕ} {xs : List α}
    (h : xs.Pairwise R) (hR : ∀ x y, R x y → ¬ R y x) {x : α}
    (hx : x ∈ removeUntil cost budget total xs)
    (hlast : ∀ y ∈ removeUntil cost budget total xs, y = x ∨ R y x) :
    budget + ((removeUntil cost budget total xs).map cost).sum < total + cost x := by
  have hpre := removeUntil_isPrefix cost budget total xs
  obtain ⟨pre, z, he⟩ := (List.eq_nil_or_concat' (removeUntil cost budget total xs)).resolve_left
    (List.ne_nil_of_mem hx)
  have hsorted : (pre ++ [z]).Pairwise R := he ▸ h.sublist hpre.sublist
  have hz : z = x := by
    rcases hlast z (by rw [he]; exact List.mem_append_right _ List.mem_cons_self) with hzx | hzx
    · exact hzx
    · rw [he] at hx
      rcases List.mem_append.mp hx with hmem | hmem
      · have := (List.pairwise_append.mp hsorted).2.2 x hmem z List.mem_cons_self
        exact absurd hzx (hR x z this)
      · exact (List.mem_singleton.mp hmem).symm
  have := removeUntil_minimal cost budget he
  rw [he, hz] at *
  simp only [List.map_append, List.sum_append, List.map_cons, List.map_nil, List.sum_cons,
    List.sum_nil]
  omega

end RemoveUntil

/-! ## A stable sort -/

section StableSort

variable (r : α → α → Prop) [DecidableRel r] [IsTrans α r]

/-- In a sorted list, `a` is below everything from the first entry it is below. -/
theorem rel_of_mem_dropWhile {a b : α} {xs : List α}
    (h : (xs.dropWhile fun b => ¬ r a b).Pairwise r) (hb : b ∈ xs.dropWhile fun b => ¬ r a b) :
    r a b := by
  cases hd : xs.dropWhile fun b => ¬ r a b with
  | nil => rw [hd] at hb; cases hb
  | cons c cs =>
    have hc : r a c := by
      have := List.head?_dropWhile_not (fun b => decide (¬ r a b)) xs
      rw [hd] at this
      simpa using this
    rw [hd] at hb h
    rcases List.mem_cons.mp hb with rfl | hb
    · exact hc
    · exact IsTrans.trans a c b hc ((List.pairwise_cons.mp h).1 b hb)

/-- Entries that sort equal keep the order `t` they had. -/
theorem pairwise_insertionSort_stable [Std.Total r] {t : α → α → Prop} {xs : List α}
    (h : xs.Pairwise t) :
    (xs.insertionSort r).Pairwise fun x y => r x y ∧ (r y x → t x y) := by
  induction xs with
  | nil => exact List.Pairwise.nil
  | cons a xs ih =>
    rw [List.pairwise_cons] at h
    have hparts := ih h.2
    rw [← List.takeWhile_append_dropWhile (p := fun b => ¬ r a b) (l := xs.insertionSort r),
      List.pairwise_append] at hparts
    obtain ⟨htake, hdrop, hcross⟩ := hparts
    rw [List.insertionSort_cons_eq_take_drop, List.pairwise_append, List.pairwise_cons]
    refine ⟨htake, ⟨fun b hb => ?_, hdrop⟩, fun b hb c hc => ?_⟩
    · have hbxs : b ∈ xs := (List.mem_insertionSort r).mp ((List.dropWhile_sublist _).subset hb)
      exact ⟨rel_of_mem_dropWhile r (hdrop.imp And.left) hb, fun _ => h.1 b hbxs⟩
    · rcases List.mem_cons.mp hc with rfl | hc
      · have hb : ¬ r c b := by simpa using List.mem_takeWhile_imp hb
        exact ⟨(Std.Total.total c b).resolve_left hb, fun h => absurd h hb⟩
      · exact hcross b hb c hc

end StableSort

/-- The entries taken by: for each `x`, take it, and stop if `rest` of what has
    been taken is at most `budget`. -/
def pruneUntil (rest : List α → ℕ) (budget : ℕ) : List α → List α → List α
  | taken, [] => taken
  | taken, x :: xs =>
    if rest (taken ++ [x]) ≤ budget then taken ++ [x]
    else pruneUntil rest budget (taken ++ [x]) xs

theorem pruneUntil_eq_append (rest : List α → ℕ) (budget : ℕ) (taken xs : List α) :
    ∃ pre, pre <+: xs ∧ pruneUntil rest budget taken xs = taken ++ pre := by
  induction xs generalizing taken with
  | nil => exact ⟨[], List.prefix_refl [], by simp [pruneUntil]⟩
  | cons x xs ih =>
    rw [pruneUntil]
    split_ifs
    · exact ⟨[x], ⟨xs, rfl⟩, rfl⟩
    · obtain ⟨pre, hpre, he⟩ := ih (taken ++ [x])
      exact ⟨x :: pre, List.prefix_cons_inj x |>.mpr hpre, by rw [he]; simp⟩

/-- Whatever the budget, the first entry is taken. -/
theorem mem_pruneUntil_cons (rest : List α → ℕ) (budget : ℕ) (taken : List α) (x : α)
    (xs : List α) : x ∈ pruneUntil rest budget taken (x :: xs) := by
  rw [pruneUntil]
  split_ifs
  · exact List.mem_append_right _ List.mem_cons_self
  · obtain ⟨pre, -, he⟩ := pruneUntil_eq_append rest budget (taken ++ [x]) xs
    rw [he, List.append_assoc]
    exact List.mem_append_right _ List.mem_cons_self

/-! ## The first that is enough -/

/-- `k` is the first of `1, …, n` that is `enough`, or `n` if none is. -/
structure FirstEnough (enough : ℕ → Prop) (n k : ℕ) : Prop where
  le : k ≤ n
  pos : 0 < n → 0 < k
  minimal : ∀ j, 0 < j → j < k → ¬ enough j
  complete : enough k ∨ k = n

/-- There is only one. -/
theorem FirstEnough.unique {enough : ℕ → Prop} {n k k' : ℕ} (h : FirstEnough enough n k)
    (h' : FirstEnough enough n k') : k = k' := by
  have hle := h.le
  have hle' := h'.le
  rcases Nat.lt_trichotomy k k' with hlt | heq | hlt
  · have hpos := h.pos (by omega)
    exact absurd (h.complete.resolve_right (by omega)) (h'.minimal k hpos hlt)
  · exact heq
  · have hpos := h'.pos (by omega)
    exact absurd (h'.complete.resolve_right (by omega)) (h.minimal k' hpos hlt)

/-- What the loop takes: the first entries, until enough are taken. -/
theorem pruneUntil_firstEnough (rest : List α → ℕ) (budget : ℕ) (taken xs : List α) :
    ∃ k, pruneUntil rest budget taken xs = taken ++ xs.take k ∧
      FirstEnough (fun j => rest (taken ++ xs.take j) ≤ budget) xs.length k := by
  induction xs generalizing taken with
  | nil => exact ⟨0, by simp [pruneUntil], ⟨le_rfl, id, fun j _ hj => by omega, .inr rfl⟩⟩
  | cons x xs ih =>
    rw [pruneUntil]
    split_ifs with henough
    · refine ⟨1, by simp, ⟨by simp, fun _ => Nat.one_pos, fun j hj hj' => by omega, .inl ?_⟩⟩
      simpa using henough
    · obtain ⟨k, he, hfirst⟩ := ih (taken ++ [x])
      refine ⟨k + 1, by simpa using he, ?_⟩
      have hstep : ∀ j, taken ++ (x :: xs).take (j + 1) = taken ++ [x] ++ xs.take j := by
        intro j
        simp
      refine ⟨Nat.succ_le_succ hfirst.le, fun _ => Nat.succ_pos k, fun j hj hjk => ?_, ?_⟩
      · obtain ⟨j, rfl⟩ := Nat.exists_eq_succ_of_ne_zero hj.ne'
        rw [Nat.succ_eq_add_one, hstep]
        rcases Nat.eq_zero_or_pos j with rfl | hpos
        · simpa using henough
        · exact hfirst.minimal j hpos (Nat.lt_of_succ_lt_succ hjk)
      · rw [hstep]
        exact hfirst.complete.imp_right (congrArg Nat.succ)

/-- Where a total does not rise with the removals, the `j` first are enough exactly if
    no more than `j` are needed. -/
theorem FirstEnough.le_iff {f : ℕ → ℕ} (hf : Antitone f) {budget n k j : ℕ}
    (h : FirstEnough (fun j => f j ≤ budget) n k) (h0 : budget < f 0) (hj : j < n) :
    k ≤ j ↔ f j ≤ budget := by
  constructor
  · intro hle
    have henough : f k ≤ budget := h.complete.resolve_right (by omega)
    exact (hf hle).trans henough
  · intro henough
    have hpos : 0 < j := Nat.pos_of_ne_zero (by rintro rfl; omega)
    exact Nat.le_of_not_lt fun hlt => h.minimal j hpos hlt henough

/-- Where a total does not rise with the removals, the first that brings it within the
    budget brings it below `bound` too, or is the last, exactly if none but the last
    leaves it between `bound` and the budget. -/
theorem FirstEnough.below_iff {f : ℕ → ℕ} (hf : Antitone f) {budget bound n k : ℕ}
    (h : FirstEnough (fun j => f j ≤ budget) n k) (h0 : budget < f 0) :
    f k < bound ∨ k = n ↔ ∀ j < n, ¬ (bound ≤ f j ∧ f j ≤ budget) := by
  constructor
  · rintro hend j hj ⟨hbound, hbudget⟩
    have hkj : k ≤ j := (h.le_iff hf h0 hj).mpr hbudget
    have := hf hkj
    omega
  · intro hnone
    by_contra! hnot
    obtain ⟨hbound, hne⟩ := hnot
    have hlt : k < n := lt_of_le_of_ne h.le hne
    exact hnone k hlt ⟨hbound, h.complete.resolve_right hne⟩

end Melis.Lib
