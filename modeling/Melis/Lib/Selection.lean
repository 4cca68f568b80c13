import Mathlib

/-!
# Order-preserving selection

`Selects R xs is ys`: the list `ys` is read off `xs` at the strictly increasing
positions `is`, each entry of `ys` being `R`-related to the entry of `xs` at its
position. Nothing is duplicated, reordered or invented.

* `Selects.cons`, `Selects.cons_selected`: one more entry in front.
* `Selects.comp`: a selection from a selection is a selection; positions
  compose.
* `selects_zipIdx_filter`, `selects_zipIdx_map`: filtering by entry and index, and
  rewriting entries in place, are selections.
* `Selects.sum_le`: a selection that does not increase a cost entrywise does
  not increase its total.
* `Selects.eq_range`: a selection of full length selects every position.
* `Selects.length_le_of_subset`, `Selects.unique`, `Selects.filter`: two
  selections from one list, compared by their positions.
-/

namespace Melis.Lib

variable {α β γ : Type*}

/-- Increasing positions that are all among other such positions are these, if
    they are no fewer. -/
theorem eq_of_subset_of_length {is js : List ℕ} (hi : is.Pairwise (· < ·))
    (hj : js.Pairwise (· < ·)) (hsub : ∀ i ∈ is, i ∈ js) (hlen : js.length ≤ is.length) :
    is = js := by
  have hnodup : is.Nodup := hi.imp Nat.ne_of_lt
  exact List.Perm.eq_of_pairwise (fun a b _ _ hab hba => absurd hab (Nat.lt_asymm hba)) hi hj
    ((hnodup.subperm hsub).perm_of_length_le hlen)

/-- `ys` is read off `xs` at the strictly increasing positions `is`, with `R`
    between the entry at the position and the entry of `ys`. -/
structure Selects (R : α → β → Prop) (xs : List α) (is : List ℕ) (ys : List β) : Prop where
  increasing : is.Pairwise (· < ·)
  entries : List.Forall₂ (fun i y => ∃ x, xs[i]? = some x ∧ R x y) is ys

namespace Selects

variable {R : α → β → Prop} {xs : List α} {is : List ℕ} {ys : List β}

theorem length_eq (h : Selects R xs is ys) : is.length = ys.length := h.entries.length_eq

/-- Entry `k` of the selection, with the position it comes from. -/
theorem getElem? (h : Selects R xs is ys) {k i : ℕ} {y : β} (hi : is[k]? = some i)
    (hy : ys[k]? = some y) : ∃ x, xs[i]? = some x ∧ R x y := by
  obtain ⟨hk, hik⟩ := List.getElem?_eq_some_iff.mp hi
  obtain ⟨hk', hyk⟩ := List.getElem?_eq_some_iff.mp hy
  have := h.entries.get hk hk'
  simpa [hik, hyk] using this

theorem exists_of_mem (h : Selects R xs is ys) {y : β} (hy : y ∈ ys) :
    ∃ i ∈ is, ∃ x, xs[i]? = some x ∧ R x y := by
  obtain ⟨k, hk, rfl⟩ := List.mem_iff_getElem.mp hy
  have hk' : k < is.length := by rw [h.length_eq]; exact hk
  exact ⟨is[k], List.getElem_mem hk', by simpa using h.entries.get hk' hk⟩

/-- A selected position carries its entry over. -/
theorem exists_of_pos (h : Selects R xs is ys) {i : ℕ} (hi : i ∈ is) :
    ∃ (k : ℕ) (x : α) (y : β), is[k]? = some i ∧ ys[k]? = some y ∧ xs[i]? = some x ∧ R x y := by
  obtain ⟨k, hk, rfl⟩ := List.mem_iff_getElem.mp hi
  have hk' : k < ys.length := by rw [← h.length_eq]; exact hk
  obtain ⟨x, hx, hR⟩ := h.entries.get hk hk'
  exact ⟨k, x, ys[k], List.getElem?_eq_getElem hk, List.getElem?_eq_getElem hk', hx, hR⟩

theorem pos_lt (h : Selects R xs is ys) {i : ℕ} (hi : i ∈ is) : i < xs.length := by
  obtain ⟨_, _, _, _, _, hx, _⟩ := h.exists_of_pos hi
  exact (List.getElem?_eq_some_iff.mp hx).1

theorem mono {R' : α → β → Prop} (h : Selects R xs is ys) (hR : ∀ x y, R x y → R' x y) :
    Selects R' xs is ys :=
  ⟨h.increasing, h.entries.imp fun _ _ ⟨x, hx, hr⟩ => ⟨x, hx, hR _ _ hr⟩⟩

/-- The selected entries may be rewritten. -/
theorem map {R' : α → γ → Prop} (h : Selects R xs is ys) (f : β → γ)
    (hR : ∀ x y, R x y → R' x (f y)) : Selects R' xs is (ys.map f) :=
  ⟨h.increasing, List.forall₂_map_right_iff.mpr
    (h.entries.imp fun _ _ ⟨x, hx, hr⟩ => ⟨x, hx, hR _ _ hr⟩)⟩

/-- The relation may use that its left argument is an entry of `xs`. -/
theorem mono_mem {R' : α → β → Prop} (h : Selects R xs is ys)
    (hR : ∀ x ∈ xs, ∀ y, R x y → R' x y) : Selects R' xs is ys :=
  ⟨h.increasing, h.entries.imp fun _ _ ⟨x, hx, hr⟩ =>
    ⟨x, hx, hR _ (List.mem_of_getElem? hx) _ hr⟩⟩

/-- An entry in front that is not selected. -/
theorem cons (h : Selects R xs is ys) (x : α) : Selects R (x :: xs) (is.map (· + 1)) ys :=
  ⟨List.pairwise_map.mpr (h.increasing.imp Nat.succ_lt_succ),
    List.forall₂_map_left_iff.mpr h.entries⟩

/-- An entry in front that is selected. -/
theorem cons_selected (h : Selects R xs is ys) {x : α} {y : β} (hR : R x y) :
    Selects R (x :: xs) (0 :: is.map (· + 1)) (y :: ys) := by
  obtain ⟨hincreasing, hentries⟩ := h.cons x
  refine ⟨List.pairwise_cons.mpr ⟨fun i hi => ?_, hincreasing⟩, .cons ⟨x, rfl, hR⟩ hentries⟩
  obtain ⟨i, -, rfl⟩ := List.mem_map.mp hi
  exact Nat.succ_pos i

/-- A selection from a selection. -/
theorem comp {S : β → γ → Prop} {js : List ℕ} {zs : List γ} (h : Selects R xs is ys)
    (k : Selects S ys js zs) :
    Selects (fun x z => ∃ y, R x y ∧ S y z) xs (js.map fun j => is.getD j 0) zs := by
  have hlt : ∀ j ∈ js, j < is.length := fun j hj => by rw [h.length_eq]; exact k.pos_lt hj
  constructor
  · rw [List.pairwise_map]
    refine k.increasing.imp_of_mem fun {a b} ha hb hab => ?_
    rw [List.getD_eq_getElem _ _ (hlt a ha), List.getD_eq_getElem _ _ (hlt b hb)]
    exact List.pairwise_iff_getElem.mp h.increasing _ _ _ _ hab
  · rw [List.forall₂_map_left_iff]
    have hk := k.entries
    clear k
    induction hk with
    | nil => exact .nil
    | @cons j z js zs hj _ ih =>
      refine .cons ?_ (ih fun j hj => hlt j (List.mem_cons_of_mem _ hj))
      obtain ⟨y, hy, hS⟩ := hj
      have hj' := hlt j List.mem_cons_self
      obtain ⟨x, hx, hR⟩ := h.getElem? (List.getElem?_eq_getElem hj') hy
      exact ⟨x, by rw [List.getD_eq_getElem _ _ hj']; exact hx, y, hR, hS⟩

/-- If the first selection takes every entry satisfying `P`, turning it into one
    satisfying `Q`, and the second takes every entry satisfying `Q`, the
    composite takes every entry satisfying `P`. -/
theorem comp_mem {P : α → Prop} {Q : β → Prop} {js : List ℕ} (h : Selects R xs is ys)
    (hP : ∀ i x, xs[i]? = some x → P x → i ∈ is) (hPQ : ∀ x y, R x y → P x → Q y)
    (hQ : ∀ j y, ys[j]? = some y → Q y → j ∈ js) {i : ℕ} {x : α} (hx : xs[i]? = some x)
    (hPx : P x) : i ∈ js.map fun j => is.getD j 0 := by
  obtain ⟨k, x', y, hk, hy, hx', hR⟩ := h.exists_of_pos (hP i x hx hPx)
  obtain rfl : x' = x := by simpa [hx] using hx'.symm
  refine List.mem_map.mpr ⟨k, hQ k y hy (hPQ x' y hR hPx), ?_⟩
  rw [List.getD_eq_getElem?_getD, hk, Option.getD_some]

/-- The selected entries of `xs`, before `R` changes them, form a sublist. -/
theorem exists_sublist (h : Selects R xs is ys) :
    ∃ us : List α, us.Sublist xs ∧ List.Forall₂ R us ys := by
  have hlt : ∀ i ∈ is, i < xs.length := fun i hi => h.pos_lt hi
  refine ⟨(is.pmap (fun i hi => (⟨i, hi⟩ : Fin xs.length)) hlt).map (xs[·]), ?_, ?_⟩
  · apply List.map_getElem_sublist
    rw [List.pairwise_pmap]
    exact h.increasing.imp fun hab _ _ => hab
  · rw [List.forall₂_map_left_iff]
    have he := h.entries
    clear h
    induction he with
    | nil => exact .nil
    | @cons i y is ys hi _ ih =>
      obtain ⟨x, hx, hR⟩ := hi
      refine .cons ?_ (ih fun j hj => hlt j (List.mem_cons_of_mem _ hj))
      obtain ⟨_, hx⟩ := List.getElem?_eq_some_iff.mp hx
      simpa [hx] using hR

/-- Selecting without change gives a sublist. -/
theorem sublist {zs : List α} (h : Selects (fun x z => z = x) xs is zs) : zs.Sublist xs := by
  obtain ⟨us, hsub, hf⟩ := h.exists_sublist
  have : us = zs := List.forall₂_eq_eq_eq ▸ hf.imp fun _ _ h => h.symm
  exact this ▸ hsub

/-- A cost that no selected entry raises does not rise in total. -/
theorem sum_le (h : Selects R xs is ys) {f : α → ℕ} {g : β → ℕ} (hfg : ∀ x y, R x y → g y ≤ f x) :
    (ys.map g).sum ≤ (xs.map f).sum := by
  obtain ⟨us, hsub, hf⟩ := h.exists_sublist
  have h1 : (us.map f).sum ≤ (xs.map f).sum :=
    (hsub.map f).sum_le_sum fun _ _ => Nat.zero_le _
  have h2 : (ys.map g).sum ≤ (us.map f).sum :=
    List.Forall₂.sum_le_sum (by simpa [List.forall₂_map_left_iff, List.forall₂_map_right_iff]
      using (hf.imp fun x y => hfg x y).flip)
  exact h2.trans h1

/-- A selection of full length selects every position. -/
theorem eq_range (h : Selects R xs is ys) (hlen : ys.length = xs.length) :
    is = List.range xs.length := by
  refine eq_of_subset_of_length h.increasing List.pairwise_lt_range
    (fun i hi => List.mem_range.mpr (h.pos_lt hi)) ?_
  rw [h.length_eq, hlen, List.length_range]

/-- More positions select more entries. -/
theorem length_le_of_subset {S : α → γ → Prop} {js : List ℕ} {zs : List γ}
    (h : Selects R xs is ys) (k : Selects S xs js zs) (hsub : ∀ i ∈ is, i ∈ js) :
    ys.length ≤ zs.length := by
  rw [← h.length_eq, ← k.length_eq]
  have hnodup : is.Nodup := h.increasing.imp Nat.ne_of_lt
  exact (hnodup.subperm hsub).length_le

/-- The positions determine what is selected without change. -/
theorem unique {zs us : List α} (h : Selects (fun x z => z = x) xs is zs)
    (k : Selects (fun x z => z = x) xs is us) : zs = us := by
  refine List.ext_getElem? fun n => ?_
  rcases Nat.lt_or_ge n is.length with hn | hn
  · obtain ⟨z, hz⟩ : ∃ z, zs[n]? = some z := ⟨_, List.getElem?_eq_getElem (h.length_eq ▸ hn)⟩
    obtain ⟨u, hu⟩ : ∃ u, us[n]? = some u := ⟨_, List.getElem?_eq_getElem (k.length_eq ▸ hn)⟩
    obtain ⟨x, hx, rfl⟩ := h.getElem? (List.getElem?_eq_getElem hn) hz
    obtain ⟨x', hx', rfl⟩ := k.getElem? (List.getElem?_eq_getElem hn) hu
    rw [hz, hu, ← hx, hx']
  · rw [List.getElem?_eq_none (h.length_eq ▸ hn), List.getElem?_eq_none (k.length_eq ▸ hn)]

/-- A selection without change selects the entries that satisfy `p` among those
    that do. -/
theorem filter {zs : List α} (h : Selects (fun x z => z = x) xs is zs) (p : α → Bool) :
    Selects (fun x z => z = x) xs (is.filter fun i => xs[i]?.any p) (zs.filter p) := by
  refine ⟨h.increasing.filter _, ?_⟩
  have he := h.entries
  clear h
  induction he with
  | nil => exact .nil
  | @cons i z is zs hi _ ih =>
    obtain ⟨x, hx, rfl⟩ := hi
    rw [List.filter_cons, List.filter_cons, hx, Option.any_some]
    split_ifs
    · exact .cons ⟨z, hx, rfl⟩ ih
    · exact ih

end Selects

/-! ## Filtering and rewriting as selections -/

theorem selects_zipIdx_filter (p : α × ℕ → Bool) (xs : List α) :
    Selects (fun x y => y = x) xs ((xs.zipIdx.filter p).map Prod.snd)
      ((xs.zipIdx.filter p).map Prod.fst) := by
  constructor
  · have hsub : ((xs.zipIdx.filter p).map Prod.snd).Sublist (List.range xs.length) := by
      rw [List.range_eq_range', ← List.zipIdx_map_snd]
      exact List.filter_sublist.map _
    exact List.pairwise_lt_range.sublist hsub
  · rw [List.forall₂_map_left_iff, List.forall₂_map_right_iff, List.forall₂_same]
    rintro ⟨x, i⟩ hx
    have := List.mem_zipIdx_iff_getElem?.mp (List.mem_of_mem_filter hx)
    exact ⟨x, this, rfl⟩

theorem mem_zipIdx_filter_pos {p : α × ℕ → Bool} {xs : List α} {i : ℕ} :
    i ∈ (xs.zipIdx.filter p).map Prod.snd ↔ ∃ x, xs[i]? = some x ∧ p (x, i) = true := by
  simp [List.mem_zipIdx_iff_getElem?]

theorem selects_zipIdx_map {R : α → β → Prop} (f : α × ℕ → β) (xs : List α)
    (hf : ∀ x i, xs[i]? = some x → R x (f (x, i))) :
    Selects R xs (List.range xs.length) (xs.zipIdx.map f) := by
  refine ⟨List.pairwise_lt_range, ?_⟩
  rw [List.range_eq_range', ← List.zipIdx_map_snd, List.forall₂_map_left_iff,
    List.forall₂_map_right_iff, List.forall₂_same]
  rintro ⟨x, i⟩ hx
  have hxi : xs[i]? = some x := List.mem_zipIdx_iff_getElem?.mp hx
  exact ⟨x, hxi, hf x i hxi⟩

/-- Entrywise related lists are a selection of every position. -/
theorem selects_of_forall₂ {R : α → β → Prop} {xs : List α} {ys : List β}
    (h : List.Forall₂ R xs ys) : Selects R xs (List.range xs.length) ys := by
  refine ⟨List.pairwise_lt_range, List.forall₂_iff_get.mpr ⟨by simp [h.length_eq], ?_⟩⟩
  intro i hi hi'
  rw [List.length_range] at hi
  exact ⟨xs.get ⟨i, hi⟩, by simp, h.get hi hi'⟩

theorem selects_self {R : α → α → Prop} (hR : ∀ x, R x x) (xs : List α) :
    Selects R xs (List.range xs.length) xs := by
  have := selects_zipIdx_map (R := R) Prod.fst xs fun x _ _ => hR x
  rwa [List.zipIdx_map_fst] at this

theorem selects_singleton {R : α → β → Prop} {xs : List α} {i : ℕ} {x : α} {y : β}
    (hx : xs[i]? = some x) (hR : R x y) : Selects R xs [i] [y] :=
  ⟨List.pairwise_singleton _ _, .cons ⟨x, hx, hR⟩ .nil⟩

end Melis.Lib
