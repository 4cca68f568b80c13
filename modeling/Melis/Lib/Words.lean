import Mathlib

/-!
# Splitting a list into words and joining them again

`words p l` are the non-empty pieces of `l` between the elements satisfying
`p`; `joinWith sep ws` puts one `sep` between consecutive pieces.

* `words_joinWith`: splitting gives the pieces back, if `sep` satisfies `p` and
  nothing within them does.
* `joinWith_weight_le`: for an additive weight in which `sep` weighs no more
  than any separator, joining any sublist of the pieces of `l` weighs no more
  than `l`.
-/

namespace Melis.Lib

variable {α : Type*}

/-- The non-empty pieces of `l` between the elements that satisfy `p`. -/
def words (p : α → Bool) (l : List α) : List (List α) :=
  (l.splitOnP p).filter fun w => !w.isEmpty

/-- `ws` with one `sep` between consecutive pieces. -/
def joinWith (sep : α) (ws : List (List α)) : List α := [sep].intercalate ws

@[simp] theorem joinWith_nil (sep : α) : joinWith sep [] = [] := rfl

@[simp] theorem joinWith_singleton (sep : α) (w : List α) : joinWith sep [w] = w := by
  simp [joinWith, List.intercalate]

theorem joinWith_cons_cons (sep : α) (w v : List α) (ws : List (List α)) :
    joinWith sep (w :: v :: ws) = w ++ sep :: joinWith sep (v :: ws) := by
  simp [joinWith, List.intercalate]

theorem words_sublist_splitOnP (p : α → Bool) (l : List α) : (words p l).Sublist (l.splitOnP p) :=
  List.filter_sublist

/-! ## The pieces -/

/-- A piece is not empty. -/
theorem ne_nil_of_mem_words {p : α → Bool} {l w : List α} (h : w ∈ words p l) : w ≠ [] := by
  have hw := (List.mem_filter.mp h).2
  rintro rfl
  exact absurd hw (by simp)

/-- No piece contains a separator. -/
theorem not_of_mem_splitOnP {p : α → Bool} {l w : List α} (h : w ∈ l.splitOnP p) :
    ∀ a ∈ w, p a = false := by
  induction l generalizing w with
  | nil =>
    rw [List.splitOnP_nil, List.mem_singleton] at h
    rw [h]
    exact fun a ha => absurd ha List.not_mem_nil
  | cons c l ih =>
    rw [List.splitOnP_cons_eq_if_modifyHead] at h
    split_ifs at h with hc
    · rcases List.mem_cons.mp h with rfl | h
      · exact fun a ha => absurd ha List.not_mem_nil
      · exact ih h
    · obtain ⟨v, vs, hvs⟩ := List.exists_cons_of_ne_nil (List.splitOnP_ne_nil p l)
      rw [hvs] at ih h
      rw [List.modifyHead_cons] at h
      rcases List.mem_cons.mp h with rfl | h
      · exact List.forall_mem_cons.mpr ⟨by simpa using hc, ih List.mem_cons_self⟩
      · exact ih (List.mem_cons_of_mem v h)

theorem not_of_mem_words {p : α → Bool} {l w : List α} (h : w ∈ words p l) :
    ∀ a ∈ w, p a = false :=
  not_of_mem_splitOnP ((words_sublist_splitOnP p l).subset h)

/-- Joining and splitting again. -/
theorem words_joinWith {p : α → Bool} {sep : α} (hsep : p sep = true) {ws : List (List α)}
    (hne : ∀ w ∈ ws, w ≠ []) (hws : ∀ w ∈ ws, ∀ a ∈ w, p a = false) :
    words p (joinWith sep ws) = ws := by
  have hkept : ∀ w ∈ ws, (!w.isEmpty) = true := fun w hw => by simpa using hne w hw
  cases ws with
  | nil => simp [words]
  | cons w ws =>
    have hsplit : (joinWith sep (w :: ws)).splitOnP p = w :: ws := by
      clear hne hkept
      induction ws generalizing w with
      | nil =>
        rw [joinWith_singleton, List.splitOnP_eq_singleton (hws w List.mem_cons_self)]
      | cons v ws ih =>
        rw [joinWith_cons_cons,
          List.splitOnP_append_cons_of_forall_mem (hws w List.mem_cons_self) sep hsep,
          ih v fun x hx => hws x (List.mem_cons_of_mem w hx)]
    rw [words, hsplit, List.filter_eq_self.mpr hkept]

/-- Non-empty pieces joined are not empty. -/
theorem joinWith_eq_nil_iff {sep : α} {ws : List (List α)} (hne : ∀ w ∈ ws, w ≠ []) :
    joinWith sep ws = [] ↔ ws = [] := by
  cases ws with
  | nil => simp
  | cons w ws =>
    refine iff_of_false (fun h => ?_) (List.cons_ne_nil w ws)
    cases ws with
    | nil => exact hne w List.mem_cons_self (by rwa [joinWith_singleton] at h)
    | cons v ws =>
      rw [joinWith_cons_cons] at h
      exact absurd h (by simp)

/-! ## Weights -/

section Weight

variable (weight : α → ℕ)

/-- The weight of a list is the sum of the weights of its elements. -/
def listWeight (l : List α) : ℕ := (l.map weight).sum

@[simp] theorem listWeight_nil : listWeight weight [] = 0 := rfl

@[simp] theorem listWeight_cons (a : α) (l : List α) :
    listWeight weight (a :: l) = weight a + listWeight weight l := by
  simp [listWeight]

@[simp] theorem listWeight_append (l m : List α) :
    listWeight weight (l ++ m) = listWeight weight l + listWeight weight m := by
  simp [listWeight]

/-- Charging every piece one separator: the pieces of `l` cost at most `l` and
    one separator. -/
theorem splitOnP_cost_le {p : α → Bool} {sep : α} (hsep : ∀ c, p c = true → weight sep ≤ weight c)
    (l : List α) :
    ((l.splitOnP p).map fun w => listWeight weight w + weight sep).sum ≤
      listWeight weight l + weight sep := by
  induction l with
  | nil => simp
  | cons c l ih =>
    rw [List.splitOnP_cons_eq_if_modifyHead]
    split_ifs with hc
    · have := hsep c hc
      simp only [List.map_cons, List.sum_cons, listWeight_nil, listWeight_cons]
      omega
    · obtain ⟨w, ws, hws⟩ := List.exists_cons_of_ne_nil (List.splitOnP_ne_nil p l)
      rw [hws] at ih ⊢
      simp only [List.modifyHead_cons, List.map_cons, List.sum_cons, listWeight_cons] at ih ⊢
      omega

theorem joinWith_weight (sep : α) (ws : List (List α)) (hne : ws ≠ []) :
    listWeight weight (joinWith sep ws) + weight sep =
      (ws.map fun w => listWeight weight w + weight sep).sum := by
  induction ws with
  | nil => exact absurd rfl hne
  | cons w ws ih =>
    cases ws with
    | nil => simp
    | cons v ws =>
      rw [joinWith_cons_cons]
      have := ih (by simp)
      simp only [listWeight_append, listWeight_cons, List.map_cons, List.sum_cons] at this ⊢
      omega

/-- Joining any sublist of the pieces of `l` with a separator that is no
    heavier than the ones it replaces does not make `l` heavier. -/
theorem joinWith_weight_le {p : α → Bool} {sep : α}
    (hsep : ∀ c, p c = true → weight sep ≤ weight c) {l : List α} {ws : List (List α)}
    (hws : ws.Sublist (l.splitOnP p)) :
    listWeight weight (joinWith sep ws) ≤ listWeight weight l := by
  by_cases hne : ws = []
  · subst hne; simp
  · have h1 := joinWith_weight weight sep ws hne
    have h2 := splitOnP_cost_le weight hsep l
    have h3 : (ws.map fun w => listWeight weight w + weight sep).sum ≤
        ((l.splitOnP p).map fun w => listWeight weight w + weight sep).sum :=
      (hws.map _).sum_le_sum (fun _ _ => Nat.zero_le _)
    omega

end Weight

end Melis.Lib
