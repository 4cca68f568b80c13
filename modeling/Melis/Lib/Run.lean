import Mathlib

/-!
# Runs of a transition system

A `System` says which events may happen in a state and what they do. `Run s₀ tr
s`: starting from `s₀` the system can take the steps `tr` and end in `s`.

* `Run.split`: every step of a run is taken from a state the run reaches.
* `Run.invariant`, `Run.between`: what steps preserve, from the start and from a
  step on.
* `run_trace`: a list of events each enabled in its turn gives a run.
* `Run.exists_entry`: a run that ends inside a region it did not start in has a
  latest step that entered the region.
* `Run.project`: what a run does in a part of the state.
* `Run.purge`: what the events of one kind lead to, if the others do not interfere.
* `Run.simulate`: a run whose every step is matched by a run of another system is
  matched by one.
-/

namespace Melis.Lib

/-- A transition system with states `σ` and events `ε`. -/
structure System (σ ε : Type*) where
  enabled : σ → ε → Prop
  step : σ → ε → σ

/-- One step of a run. -/
structure Step (σ ε : Type*) where
  pre : σ
  event : ε
  post : σ

variable {σ ε : Type*}

/-- The steps `tr` lead from `s₀` to the last argument. -/
inductive Run (S : System σ ε) (s₀ : σ) : List (Step σ ε) → σ → Prop
  | nil : Run S s₀ [] s₀
  | snoc {tr : List (Step σ ε)} {s : σ} {e : ε} : Run S s₀ tr s → S.enabled s e →
      Run S s₀ (tr ++ [⟨s, e, S.step s e⟩]) (S.step s e)

/-- The steps the events `es` take from `s`. -/
def System.trace (S : System σ ε) : σ → List ε → List (Step σ ε)
  | _, [] => []
  | s, e :: es => ⟨s, e, S.step s e⟩ :: S.trace (S.step s e) es

theorem System.trace_append (S : System σ ε) (s : σ) (es : List ε) (e : ε) :
    S.trace s (es ++ [e]) =
      S.trace s es ++ [⟨es.foldl S.step s, e, S.step (es.foldl S.step s) e⟩] := by
  induction es generalizing s with
  | nil => rfl
  | cons e' es ih => simp only [List.cons_append, System.trace, ih, List.foldl_cons]

/-- Events each enabled when they come give a run. -/
theorem run_trace (S : System σ ε) (s : σ) (es : List ε)
    (h : ∀ x ∈ S.trace s es, S.enabled x.pre x.event) :
    Run S s (S.trace s es) (es.foldl S.step s) := by
  induction es using List.reverseRecOn with
  | nil => exact .nil
  | append_singleton es e ih =>
    rw [System.trace_append] at h ⊢
    rw [List.foldl_append]
    exact .snoc (ih fun x hx => h x (List.mem_append_left _ hx))
      (h _ (List.mem_append_right _ List.mem_cons_self))

namespace Run

variable {S : System σ ε} {s₀ s : σ} {tr : List (Step σ ε)}

/-- The last step of a run. -/
theorem of_snoc {x : Step σ ε} (h : Run S s₀ (tr ++ [x]) s) :
    Run S s₀ tr x.pre ∧ S.enabled x.pre x.event ∧ x.post = S.step x.pre x.event ∧ s = x.post := by
  generalize hl : tr ++ [x] = l at h
  cases h with
  | nil => simp at hl
  | snoc hr he =>
    obtain ⟨rfl, hx⟩ := List.append_inj' hl rfl
    simp only [List.cons.injEq, and_true] at hx
    subst hx
    exact ⟨hr, he, rfl, rfl⟩

/-- A step in the middle of a run. -/
theorem split {tr₁ tr₂ : List (Step σ ε)} {x : Step σ ε} (h : Run S s₀ (tr₁ ++ x :: tr₂) s) :
    Run S s₀ tr₁ x.pre ∧ S.enabled x.pre x.event ∧ x.post = S.step x.pre x.event := by
  induction tr₂ using List.reverseRecOn generalizing s with
  | nil =>
    obtain ⟨hr, he, hpost, -⟩ := h.of_snoc
    exact ⟨hr, he, hpost⟩
  | append_singleton tr₂ y ih =>
    rw [← List.cons_append, ← List.append_assoc] at h
    exact ih h.of_snoc.1

/-- What holds initially and is preserved by every step holds at the end. -/
theorem invariant {P : σ → Prop} (h : Run S s₀ tr s) (h0 : P s₀)
    (hstep : ∀ t e, S.enabled t e → P t → P (S.step t e)) : P s := by
  induction h with
  | nil => exact h0
  | @snoc tr t e _ henabled ih => exact hstep t e henabled ih

/-- What holds after a step and is preserved by the later ones holds at the end. -/
theorem between {P : σ → Prop} {tr₁ tr₂ : List (Step σ ε)} {x : Step σ ε}
    (h : Run S s₀ (tr₁ ++ x :: tr₂) s) (hx : P x.post)
    (hstep : ∀ z ∈ tr₂, S.enabled z.pre z.event → z.post = S.step z.pre z.event →
      P z.pre → P z.post) : P s := by
  induction tr₂ using List.reverseRecOn generalizing s with
  | nil =>
    obtain ⟨-, -, -, rfl⟩ := h.of_snoc
    exact hx
  | append_singleton tr₂ z ih =>
    rw [← List.cons_append, ← List.append_assoc] at h
    obtain ⟨hr, henabled, hpost, rfl⟩ := h.of_snoc
    refine hstep z (List.mem_append_right _ List.mem_cons_self) henabled hpost (ih hr ?_)
    intro z' hz'
    exact hstep z' (List.mem_append_left _ hz')

/-- The latest entry into a region: a run that starts outside `P` and ends
    inside has a step that enters `P`, after which it stays in `P`. -/
theorem exists_entry {P : σ → Prop} (h : Run S s₀ tr s) (h0 : ¬ P s₀) (hs : P s) :
    ∃ before enter during, tr = before ++ enter :: during ∧ ¬ P enter.pre ∧ P enter.post ∧
      ∀ x ∈ during, P x.pre ∧ P x.post := by
  induction h with
  | nil => exact absurd hs h0
  | @snoc tr s e _ _ ih =>
    by_cases hp : P s
    · obtain ⟨before, enter, during, rfl, h1, h2, h3⟩ := ih hp
      refine ⟨before, enter, during ++ [⟨s, e, S.step s e⟩], by simp, h1, h2, ?_⟩
      intro x hx
      rcases List.mem_append.mp hx with hx | hx
      · exact h3 x hx
      · obtain rfl := List.mem_singleton.mp hx
        exact ⟨hp, hs⟩
    · exact ⟨tr, ⟨s, e, S.step s e⟩, [], rfl, hp, hs, by simp⟩

/-! ## Simulation -/

variable {τ δ : Type*} {T : System τ δ}

theorem append {tr' : List (Step σ ε)} {s' : σ} (h : Run S s₀ tr s) (h' : Run S s tr' s') :
    Run S s₀ (tr ++ tr') s' := by
  induction h' with
  | nil => rwa [List.append_nil]
  | snoc _ he ih =>
    rw [← List.append_assoc]
    exact ih.snoc he

/-- Each step is matched by the events `ops` of `T`, so the run is matched by
    all of them in order. -/
theorem simulate (h : Run S s₀ tr s) (R : σ → τ → Prop) (ops : Step σ ε → List δ) (t₀ : τ)
    (h0 : R s₀ t₀)
    (hstep : ∀ tr s e t, Run S s₀ tr s → S.enabled s e → R s t → ∃ tr' t', Run T t tr' t' ∧
      tr'.map (·.event) = ops ⟨s, e, S.step s e⟩ ∧ R (S.step s e) t') :
    ∃ tr' t, Run T t₀ tr' t ∧ tr'.map (·.event) = tr.flatMap ops ∧ R s t := by
  induction h with
  | nil => exact ⟨[], t₀, .nil, rfl, h0⟩
  | @snoc tr s e hrun henabled ih =>
    obtain ⟨tr₁, t₁, hrun₁, hops₁, hR₁⟩ := ih
    obtain ⟨tr₂, t₂, hrun₂, hops₂, hR₂⟩ := hstep tr s e t₁ hrun henabled hR₁
    refine ⟨tr₁ ++ tr₂, t₂, hrun₁.append hrun₂, ?_, hR₂⟩
    rw [List.map_append, hops₁, hops₂, List.flatMap_append, List.flatMap_singleton]

/-- Each step is a step of `T` on the part `f` of the state, or leaves this part. -/
theorem project (h : Run S s₀ tr s) (f : σ → τ) (part : Step σ ε → Option (Step τ δ))
    (hstep : ∀ s e, S.enabled s e →
      (part ⟨s, e, S.step s e⟩ = none ∧ f (S.step s e) = f s) ∨
        ∃ d, T.enabled (f s) d ∧ part ⟨s, e, S.step s e⟩ = some ⟨f s, d, T.step (f s) d⟩ ∧
          f (S.step s e) = T.step (f s) d) :
    Run T (f s₀) (tr.filterMap part) (f s) := by
  induction h with
  | nil => exact .nil
  | @snoc tr s e _ henabled ih =>
    rw [List.filterMap_append]
    rcases hstep s e henabled with ⟨hpart, hsame⟩ | ⟨d, hd, hpart, hsame⟩
    · rw [List.filterMap_cons_none hpart, List.filterMap_nil, List.append_nil, hsame]
      exact ih
    · rw [List.filterMap_cons_some hpart, List.filterMap_nil, hsame]
      exact ih.snoc hd

/-- **Noninterference.** `R` relates states that look the same to the events that
    are `own`. If the other events do not change that look, then the own steps of a
    run give the same outputs as a run of the own events alone. -/
theorem purge {ω : Type*} (h : Run S s₀ tr s) (own : ε → Bool) (out : σ → ε → ω)
    (R : σ → σ → Prop) (h0 : R s₀ s₀)
    (hother : ∀ s t e, S.enabled s e → own e = false → R s t → R (S.step s e) t)
    (hown : ∀ s t e, S.enabled s e → own e = true → R s t →
      S.enabled t e ∧ out s e = out t e ∧ R (S.step s e) (S.step t e)) :
    ∃ tr' t, Run S s₀ tr' t ∧
      tr'.map (·.event) = (tr.filter fun x => own x.event).map (·.event) ∧
      tr'.map (fun x => out x.pre x.event) =
        (tr.filter fun x => own x.event).map (fun x => out x.pre x.event) ∧
      R s t := by
  induction h with
  | nil => exact ⟨[], s₀, .nil, rfl, rfl, h0⟩
  | @snoc tr s e _ henabled ih =>
    obtain ⟨tr', t, hrun', hevents, houts, hR⟩ := ih
    let x : Step σ ε := ⟨s, e, S.step s e⟩
    show ∃ tr'' t', Run S s₀ tr'' t' ∧ _ = ((tr ++ [x]).filter _).map _ ∧
      _ = ((tr ++ [x]).filter _).map _ ∧ _
    cases hkind : own e with
    | false =>
      have hfilter : ((tr ++ [x]).filter fun x => own x.event) =
          tr.filter fun x => own x.event := by
        simp [x, List.filter_append, hkind]
      rw [hfilter]
      exact ⟨tr', t, hrun', hevents, houts, hother s t e henabled hkind hR⟩
    | true =>
      obtain ⟨henabled', hout, hR'⟩ := hown s t e henabled hkind hR
      have hfilter : ((tr ++ [x]).filter fun x => own x.event) =
          (tr.filter fun x => own x.event) ++ [x] := by
        simp [x, List.filter_append, hkind]
      refine ⟨tr' ++ [⟨t, e, S.step t e⟩], S.step t e, hrun'.snoc henabled', ?_, ?_, hR'⟩
      · rw [hfilter, List.map_append, List.map_append, hevents]
        rfl
      · rw [hfilter, List.map_append, List.map_append, houts, List.map_singleton, ← hout]
        rfl

end Run

end Melis.Lib
