import Mathlib

/-!
# The last position satisfying a predicate

`rposition p xs` is the index of the last entry of `xs` that satisfies `p`.

* `rposition_eq_none`, `rposition_eq_some`: what it finds.
* `rposition_concat`: one more entry at the end.
-/

namespace Melis.Lib

variable {α : Type*}

/-- The index of the last entry that satisfies `p`. -/
def rposition (p : α → Bool) : List α → Option ℕ
  | [] => none
  | x :: xs =>
    match rposition p xs with
    | some i => some (i + 1)
    | none => if p x then some 0 else none

theorem rposition_eq_none {p : α → Bool} {xs : List α} :
    rposition p xs = none ↔ ∀ x ∈ xs, p x = false := by
  induction xs with
  | nil => simp [rposition]
  | cons x xs ih =>
    rw [rposition]
    cases h : rposition p xs with
    | some i =>
      have : ¬ ∀ y ∈ xs, p y = false := fun hall => by rw [ih.mpr hall] at h; cases h
      simp only [reduceCtorEq, List.mem_cons, forall_eq_or_imp, false_iff, not_and]
      exact fun _ => this
    | none =>
      have := ih.mp h
      by_cases hx : p x = true <;> simp [hx]
      simpa using this

/-- `rposition` finds an entry satisfying `p` after which none does. -/
theorem rposition_eq_some {p : α → Bool} {xs : List α} {i : ℕ} :
    rposition p xs = some i ↔
      ∃ pre x post, xs = pre ++ x :: post ∧ pre.length = i ∧ p x = true ∧
        ∀ y ∈ post, p y = false := by
  induction xs generalizing i with
  | nil => simp [rposition]
  | cons x xs ih =>
    rw [rposition]
    constructor
    · intro h
      cases hr : rposition p xs with
      | some j =>
        rw [hr] at h
        obtain ⟨pre, y, post, rfl, rfl, hy, hpost⟩ := ih.mp hr
        refine ⟨x :: pre, y, post, rfl, ?_, hy, hpost⟩
        simpa using h
      | none =>
        rw [hr] at h
        simp only [Option.ite_none_right_eq_some, Option.some.injEq] at h
        exact ⟨[], x, xs, rfl, by simpa using h.2, h.1, rposition_eq_none.mp hr⟩
    · rintro ⟨pre, y, post, he, rfl, hy, hpost⟩
      cases pre with
      | nil =>
        simp only [List.nil_append, List.cons.injEq] at he
        obtain ⟨rfl, rfl⟩ := he
        rw [rposition_eq_none.mpr hpost]
        simp [hy]
      | cons z pre =>
        simp only [List.cons_append, List.cons.injEq] at he
        obtain ⟨rfl, rfl⟩ := he
        rw [ih.mpr ⟨pre, y, post, rfl, rfl, hy, hpost⟩]
        rfl

theorem rposition_concat (p : α → Bool) (xs : List α) (x : α) :
    rposition p (xs ++ [x]) = if p x then some xs.length else rposition p xs := by
  split_ifs with hx
  · exact rposition_eq_some.mpr ⟨xs, x, [], rfl, rfl, hx, by simp⟩
  · induction xs with
    | nil => simp [rposition, hx]
    | cons y xs ih => rw [List.cons_append, rposition, ih, rposition]

end Melis.Lib
