import Mathlib

/-!
# Cutting a stream into frames

A `Cutter` takes the first frame off a buffer, or says that the buffer holds no
complete frame. More input after a complete frame does not change it, so that the
frames of a stream do not depend on how the stream arrives.

* `Cutter.frames`: the complete frames of a buffer, and what is left of it.
* `Cutter.frames_flatten`: together they are the buffer.
* `Cutter.frames_append`: the frames of more input, from what was left.
* `Cutter.frames_of_flatten`: the frames of a sequence of frames.
-/

namespace Melis.Lib

/-- A function that cuts the first frame off a buffer. -/
structure Cutter (α : Type*) where
  cut : List α → Option (List α × List α)
  split : ∀ {x f r}, cut x = some (f, r) → x = f ++ r
  progress : ∀ {x f r}, cut x = some (f, r) → f ≠ []
  append : ∀ {x f r} (y), cut x = some (f, r) → cut (x ++ y) = some (f, r ++ y)

namespace Cutter

variable {α : Type*} (C : Cutter α)

theorem length_lt {x f r : List α} (h : C.cut x = some (f, r)) : r.length < x.length := by
  have hne := List.length_pos_of_ne_nil (C.progress h)
  have hlen := congrArg List.length (C.split h)
  rw [List.length_append] at hlen
  omega

/-- The complete frames of a buffer, and the incomplete rest. -/
def frames (x : List α) : List (List α) × List α :=
  match _h : C.cut x with
  | none => ([], x)
  | some (f, r) => (f :: (frames r).1, (frames r).2)
termination_by x.length
decreasing_by exact C.length_lt _h

/-- An empty buffer holds no frame. -/
theorem cut_nil : C.cut [] = none := by
  cases h : C.cut [] with
  | none => rfl
  | some p => exact absurd (C.length_lt h) (Nat.not_lt_zero _)

variable {x f r : List α}

theorem frames_of_none (h : C.cut x = none) : C.frames x = ([], x) := by
  rw [frames]
  split
  · rfl
  · next heq =>
    rw [h] at heq
    cases heq

theorem frames_of_some (h : C.cut x = some (f, r)) :
    C.frames x = (f :: (C.frames r).1, (C.frames r).2) := by
  rw [frames]
  split
  · next heq =>
    rw [h] at heq
    cases heq
  · next f' r' heq =>
    rw [h] at heq
    obtain ⟨rfl, rfl⟩ := Prod.mk.inj (Option.some.inj heq)
    rfl

/-- To prove a property of every buffer, prove it of those without a complete frame
    and from what is left after the first frame. -/
theorem induction {P : List α → Prop} (hnone : ∀ x, C.cut x = none → P x)
    (hsome : ∀ x f r, C.cut x = some (f, r) → P r → P x) (x : List α) : P x := by
  induction hn : x.length using Nat.strongRecOn generalizing x with
  | ind n ih =>
    cases h : C.cut x with
    | none => exact hnone x h
    | some p => exact hsome x p.1 p.2 h (ih p.2.length (hn ▸ C.length_lt h) p.2 rfl)

/-- Frames and rest together are the buffer. -/
theorem frames_flatten (x : List α) : (C.frames x).1.flatten ++ (C.frames x).2 = x := by
  induction x using C.induction with
  | hnone x h =>
    rw [C.frames_of_none h]
    rfl
  | hsome x f r h ih =>
    rw [C.frames_of_some h, List.flatten_cons, List.append_assoc, ih, ← C.split h]

/-- Nothing complete is left. -/
theorem cut_frames_rest (x : List α) : C.cut (C.frames x).2 = none := by
  induction x using C.induction with
  | hnone x h =>
    rw [C.frames_of_none h]
    exact h
  | hsome x f r h ih =>
    rw [C.frames_of_some h]
    exact ih

/-- Every frame is one that the cutter cuts. -/
theorem exists_cut_of_mem_frames (x : List α) :
    ∀ f ∈ (C.frames x).1, ∃ y r, C.cut y = some (f, r) := by
  induction x using C.induction with
  | hnone x h =>
    rw [C.frames_of_none h]
    simp
  | hsome x f r h ih =>
    rw [C.frames_of_some h]
    intro f' hf'
    rcases List.mem_cons.mp hf' with rfl | hf'
    · exact ⟨x, r, h⟩
    · exact ih f' hf'

/-- More input is cut from what was left. -/
theorem frames_append (x y : List α) :
    C.frames (x ++ y) =
      ((C.frames x).1 ++ (C.frames ((C.frames x).2 ++ y)).1,
        (C.frames ((C.frames x).2 ++ y)).2) := by
  induction x using C.induction with
  | hnone x h =>
    rw [C.frames_of_none h]
    rfl
  | hsome x f r h ih =>
    rw [C.frames_of_some h, C.frames_of_some (C.append y h), ih]
    rfl

/-- A sequence of frames, each of which is cut as soon as it is complete, is cut into
    these frames. -/
theorem frames_of_flatten {fs : List (List α)} (h : ∀ f ∈ fs, C.cut f = some (f, [])) :
    (C.frames fs.flatten).1 = fs ∧ (C.frames fs.flatten).2 = [] := by
  induction fs with
  | nil =>
    rw [List.flatten_nil, C.frames_of_none C.cut_nil]
    exact ⟨rfl, rfl⟩
  | cons f fs ih =>
    have hcut : C.cut (f ++ fs.flatten) = some (f, fs.flatten) := by
      have := C.append fs.flatten (h f List.mem_cons_self)
      rwa [List.nil_append] at this
    obtain ⟨h1, h2⟩ := ih fun g hg => h g (List.mem_cons_of_mem f hg)
    rw [List.flatten_cons, C.frames_of_some hcut, h1, h2]
    exact ⟨rfl, rfl⟩

end Cutter

end Melis.Lib
