import Melis.Lib.Run

/-!
# Threads over a shared state

A `Program` says how a thread starts, which actions it can take in a shared state
and what they do; the surroundings have steps of their own. `pool` is the system
of any number of threads, interleaved in any order.

* `Run.solo`: what a thread of a run does, it does alone, if before each of its
  actions the shared state is what the run shows it.
* `Run.forall_threads`: what every thread's own steps keep holds of all threads.
* `Run.conserved`: a shared amount is what it was plus what the threads account
  for, so that no update of it is lost.
* `Run.callLog_thread`: the calls a thread has made in a run are those of its
  own record, in order and each once.
* `Run.countP_callLog`: the calls of a kind, counted in the run and in the records.
* `Run.callLog_length_le`: no more calls than the threads have budgets for.
* `Run.view_length`, `exists_finish`: a cost that every action lowers bounds what
  a thread does, whatever the others do; if only an action at cost zero can be
  missing, it finishes without them.
-/

namespace Melis.Lib

/-- A thread's local states `τ`, requests `ρ` that start one and actions `α`,
    over shared states `σ` with their own events `ε`. -/
structure Program (σ τ ρ α ε : Type*) where
  init : ρ → σ → τ
  ready : τ → σ → α → Prop
  exec : τ → σ → α → τ × σ
  world : System σ ε

/-- The threads so far, and the shared state. -/
structure Pool (σ τ : Type*) where
  threads : List τ
  shared : σ

/-- A thread starts, thread `i` takes an action, or the surroundings take a step. -/
inductive PoolEvent (ρ α ε : Type*) where
  | arrive (r : ρ)
  | act (i : ℕ) (a : α)
  | world (e : ε)

variable {σ τ ρ α ε : Type*}

/-- Any number of threads of `P`, interleaved. -/
def pool (P : Program σ τ ρ α ε) : System (Pool σ τ) (PoolEvent ρ α ε) where
  enabled p
    | .arrive _ => True
    | .act i a => ∃ t, p.threads[i]? = some t ∧ P.ready t p.shared a
    | .world e => P.world.enabled p.shared e
  step p
    | .arrive r => ⟨p.threads ++ [P.init r p.shared], p.shared⟩
    | .act i a =>
      match p.threads[i]? with
      | some t =>
        let (t', shared) := P.exec t p.shared a
        ⟨p.threads.set i t', shared⟩
      | none => p
    | .world e => ⟨p.threads, P.world.step p.shared e⟩

/-- One thread of `P`, with the shared state given before each action. -/
def solo (P : Program σ τ ρ α ε) : System τ (σ × α) where
  enabled t x := P.ready t x.1 x.2
  step t x := (P.exec t x.1 x.2).1

section Pool

variable {P : Program σ τ ρ α ε} {p : Pool σ τ} {i : ℕ} {t : τ} {a : α}

instance [∀ t s a, Decidable (P.ready t s a)] [∀ s e, Decidable (P.world.enabled s e)] :
    ∀ (p : Pool σ τ) e, Decidable ((pool P).enabled p e)
  | _, .arrive _ => isTrue trivial
  | p, .act i a =>
    decidable_of_iff (∃ t ∈ p.threads[i]?, P.ready t p.shared a) <| by
      simp only [pool, Option.mem_def]
  | p, .world e => inferInstanceAs (Decidable (P.world.enabled p.shared e))

theorem step_act (h : p.threads[i]? = some t) : (pool P).step p (.act i a) =
    ⟨p.threads.set i (P.exec t p.shared a).1, (P.exec t p.shared a).2⟩ := by
  simp only [pool, h]

/-- A thread after a step is a thread before it, possibly one action further, or
    the one that the step starts. -/
inductive ThreadStep (P : Program σ τ ρ α ε) (p : Pool σ τ) (i : ℕ) (t : τ) :
    PoolEvent ρ α ε → Prop
  | started (r : ρ) (hnew : i = p.threads.length) (ht : t = P.init r p.shared) :
      ThreadStep P p i t (.arrive r)
  | acted (a : α) (t₀ : τ) (hold : p.threads[i]? = some t₀) (hready : P.ready t₀ p.shared a)
      (ht : t = (P.exec t₀ p.shared a).1) : ThreadStep P p i t (.act i a)
  | kept (e : PoolEvent ρ α ε) (hold : p.threads[i]? = some t) (hother : ∀ a, e ≠ .act i a) :
      ThreadStep P p i t e

theorem threadStep {e : PoolEvent ρ α ε} (henabled : (pool P).enabled p e)
    (h : ((pool P).step p e).threads[i]? = some t) : ThreadStep P p i t e := by
  cases e with
  | arrive r =>
    have happend : (p.threads ++ [P.init r p.shared])[i]? = some t := h
    rcases lt_trichotomy i p.threads.length with hlt | rfl | hgt
    · rw [List.getElem?_append_left hlt] at happend
      exact .kept _ happend fun a ha => by cases ha
    · rw [List.getElem?_concat_length] at happend
      exact .started r rfl (Option.some.inj happend).symm
    · rw [List.getElem?_eq_none (by simpa using hgt)] at happend
      cases happend
  | act j a =>
    obtain ⟨t₀, hold, hready⟩ := henabled
    rw [step_act hold] at h
    have hset : (p.threads.set j (P.exec t₀ p.shared a).1)[i]? = some t := h
    by_cases hij : j = i
    · subst hij
      rw [List.getElem?_set_self (List.getElem?_eq_some_iff.mp hold).1] at hset
      exact .acted a t₀ hold hready (Option.some.inj hset).symm
    · rw [List.getElem?_set_ne hij] at hset
      exact .kept _ hset fun a' ha => hij (PoolEvent.act.inj ha).1
  | world e => exact .kept _ h fun a ha => by cases ha

end Pool

/-! ## Calls -/

section Calls

variable {δ : Type*} {P : Program σ τ ρ α ε} {p : Pool σ τ} {i : ℕ} {t : τ}
  {tr : List (Step (Pool σ τ) (PoolEvent ρ α ε))}

/-- The calls that a step makes, each with the thread that makes it. -/
def stepCalls (calls : τ → σ → α → List δ) (x : Step (Pool σ τ) (PoolEvent ρ α ε)) :
    List (ℕ × δ) :=
  match x.event with
  | .act i a => ((x.pre.threads[i]?).map fun t => (calls t x.pre.shared a).map (i, ·)).getD []
  | _ => []

/-- The calls of a run. -/
def callLog (calls : τ → σ → α → List δ) (tr : List (Step (Pool σ τ) (PoolEvent ρ α ε))) :
    List (ℕ × δ) :=
  tr.flatMap (stepCalls calls)

/-- The calls of thread `i` among those of a run. -/
def callsOf (i : ℕ) (log : List (ℕ × δ)) : List δ := (log.filter fun c => c.1 = i).map (·.2)

/-- The actions of thread `i` in a run, with the shared states before them. -/
def view (i : ℕ) (tr : List (Step (Pool σ τ) (PoolEvent ρ α ε))) : List (σ × α) :=
  callsOf i (callLog (fun _ s a => [(s, a)]) tr)

variable {calls : τ → σ → α → List δ}

/-- What a step adds to the calls of a thread. -/
theorem callsOf_concat (i : ℕ) (tr : List (Step (Pool σ τ) (PoolEvent ρ α ε)))
    (x : Step (Pool σ τ) (PoolEvent ρ α ε)) : callsOf i (callLog calls (tr ++ [x])) =
      callsOf i (callLog calls tr) ++ callsOf i (stepCalls calls x) := by
  rw [callLog, List.flatMap_append, List.flatMap_singleton, callsOf, List.filter_append,
    List.map_append]
  rfl

theorem stepCalls_act (hi : p.threads[i]? = some t) (a : α) (q : Pool σ τ) :
    stepCalls calls (⟨p, .act i a, q⟩ : Step (Pool σ τ) (PoolEvent ρ α ε)) =
      (calls t p.shared a).map (i, ·) := by
  simp only [stepCalls, hi, Option.map_some, Option.getD_some]

theorem callsOf_act (hi : p.threads[i]? = some t) (a : α) (q : Pool σ τ) :
    callsOf i (stepCalls calls (⟨p, .act i a, q⟩ : Step (Pool σ τ) (PoolEvent ρ α ε))) =
      calls t p.shared a := by
  rw [stepCalls_act hi, callsOf, List.filter_eq_self.mpr (by simp), List.map_map]
  exact List.map_id _

theorem callsOf_other {e : PoolEvent ρ α ε} (hother : ∀ a, e ≠ .act i a) (p q : Pool σ τ) :
    callsOf i (stepCalls calls ⟨p, e, q⟩) = [] := by
  cases e with
  | act j a =>
    have hji : j ≠ i := by
      rintro rfl
      exact hother a rfl
    simp only [stepCalls, callsOf]
    cases p.threads[j]? with
    | none => rfl
    | some t => simp [hji]
  | arrive r => rfl
  | world e => rfl

theorem length_le_step {e : PoolEvent ρ α ε} (henabled : (pool P).enabled p e) :
    p.threads.length ≤ ((pool P).step p e).threads.length := by
  cases e with
  | arrive r =>
    show _ ≤ (p.threads ++ [_]).length
    simp
  | act j a =>
    obtain ⟨t, hold, -⟩ := henabled
    rw [step_act hold, List.length_set]
  | world e => exact le_rfl

/-- A thread not yet started has made no call. -/
theorem Run.callsOf_eq_nil {s₀ : σ} (h : Run (pool P) ⟨[], s₀⟩ tr p) (hi : p.threads.length ≤ i) :
    callsOf i (callLog calls tr) = [] := by
  induction h with
  | nil => rfl
  | @snoc tr p e _ henabled ih =>
    have hlength := (length_le_step henabled).trans hi
    rw [callsOf_concat, ih hlength, List.nil_append]
    refine callsOf_other (fun a ha => ?_) _ _
    subst ha
    obtain ⟨t, hold, -⟩ := henabled
    have := (List.getElem?_eq_some_iff.mp hold).1
    omega

end Calls

/-! ## One thread of a run -/

section Runs

variable {P : Program σ τ ρ α ε} {s₀ : σ} {p : Pool σ τ} {i : ℕ} {t : τ}
  {tr : List (Step (Pool σ τ) (PoolEvent ρ α ε))}

/-- **Projection.** A thread of a run started from one of its requests, and does
    alone what it did in the run, if before each of its actions the shared state
    is what the run shows it. -/
theorem Run.solo (h : Run (pool P) ⟨[], s₀⟩ tr p) (hi : p.threads[i]? = some t) :
    ∃ before q r q' after, tr = before ++ ⟨q, .arrive r, q'⟩ :: after ∧
      q.threads.length = i ∧ ∃ own, Run (Lib.solo P) (P.init r q.shared) own t ∧
        own.map (·.event) = view i tr := by
  induction h generalizing t with
  | nil => simp at hi
  | @snoc tr p e hrun henabled ih =>
    cases threadStep henabled hi with
    | started r hnew ht =>
      refine ⟨tr, p, r, _, [], rfl, hnew.symm, [], ht ▸ .nil, ?_⟩
      rw [view, callsOf_concat, hrun.callsOf_eq_nil hnew.ge,
        callsOf_other fun a ha => by cases ha]
      rfl
    | acted a t₀ hold hready ht =>
      obtain ⟨before, q, r, q', after, rfl, hq, own, hown, hview⟩ := ih hold
      refine ⟨before, q, r, q', after ++ [_], by simp; rfl, hq, own ++ [_],
        by rw [ht]; exact hown.snoc (e := (p.shared, a)) hready, ?_⟩
      rw [List.map_append, hview, view, view, callsOf_concat i (before ++ _ :: after),
        callsOf_act hold]
      rfl
    | kept _ hold hother =>
      obtain ⟨before, q, r, q', after, rfl, hq, own, hown, hview⟩ := ih hold
      refine ⟨before, q, r, q', after ++ [_], by simp; rfl, hq, own, hown, ?_⟩
      rw [hview, view, view, callsOf_concat i (before ++ _ :: after), callsOf_other hother,
        List.append_nil]

/-- What holds of every thread when it starts and is kept by its own actions
    holds of every thread of a run. -/
theorem Run.forall_threads {J : τ → Prop} (h : Run (pool P) ⟨[], s₀⟩ tr p)
    (hinit : ∀ r s, J (P.init r s))
    (hexec : ∀ t s a, P.ready t s a → J t → J (P.exec t s a).1) :
    ∀ (i : ℕ) (t : τ), p.threads[i]? = some t → J t := by
  intro i t hi
  obtain ⟨-, q, r, -, -, -, -, own, hown, -⟩ := h.solo hi
  exact hown.invariant (hinit r q.shared) fun t x hready => hexec t x.1 x.2 hready

/-- **Nothing lost or duplicated.** If every action adds its calls to the thread's
    record, then the calls of a thread in a run are those of its record. -/
theorem Run.callLog_thread {δ γ : Type*} (h : Run (pool P) ⟨[], s₀⟩ tr p)
    (calls : τ → σ → α → List δ) (key : δ → γ) (record : τ → List γ)
    (hinit : ∀ r s, record (P.init r s) = [])
    (hexec : ∀ t s a, P.ready t s a →
      record (P.exec t s a).1 = record t ++ (calls t s a).map key)
    (hi : p.threads[i]? = some t) :
    (callsOf i (callLog calls tr)).map key = record t := by
  induction h generalizing t with
  | nil => simp at hi
  | @snoc tr p e hrun henabled ih =>
    rw [callsOf_concat, List.map_append]
    cases threadStep henabled hi with
    | started r hnew ht =>
      rw [hrun.callsOf_eq_nil hnew.ge, callsOf_other (fun a ha => by cases ha), ht, hinit]
      rfl
    | acted a t₀ hold hready ht => rw [ih hold, callsOf_act hold, ht, hexec t₀ p.shared a hready]
    | kept _ hold hother => rw [ih hold, callsOf_other hother, List.map_nil, List.append_nil]

/-! ## What the threads account for -/

section Conservation

variable {M : Type*} [AddCancelCommMonoid M]

/-- The sum of an amount over the threads. -/
def Pool.total (m : τ → M) (p : Pool σ τ) : M := (p.threads.map m).sum

theorem map_total {N : Type*} [AddCancelCommMonoid N] (g : M →+ N) (m : τ → M) (p : Pool σ τ) :
    g (p.total m) = p.total fun t => g (m t) := by
  rw [Pool.total, map_list_sum, List.map_map]
  rfl

theorem total_add (m n : τ → M) (p : Pool σ τ) :
    (p.total fun t => m t + n t) = p.total m + p.total n :=
  List.sum_map_add

theorem total_congr {m n : τ → M} {p : Pool σ τ} (h : ∀ t ∈ p.threads, m t = n t) :
    p.total m = p.total n :=
  congrArg _ (List.map_congr_left h)

theorem total_le {m n : τ → ℕ} {p : Pool σ τ} (h : ∀ t ∈ p.threads, m t ≤ n t) :
    p.total m ≤ p.total n :=
  List.sum_le_sum h

theorem total_ite (q : τ → Bool) (p : Pool σ τ) :
    (p.total fun t => if q t then 1 else 0) = p.threads.countP q := by
  rw [Pool.total]
  induction p.threads with
  | nil => rfl
  | cons t ts ih => rw [List.map_cons, List.sum_cons, ih, List.countP_cons, Nat.add_comm]

theorem sum_map_set (m : τ → M) {l : List τ} {i : ℕ} {t : τ} (h : l[i]? = some t) (t' : τ) :
    ((l.set i t').map m).sum + m t = (l.map m).sum + m t' := by
  induction l generalizing i with
  | nil => simp at h
  | cons u l ih =>
    cases i with
    | zero =>
      obtain rfl : u = t := by simpa using h
      simp only [List.set_cons_zero, List.map_cons, List.sum_cons]
      rw [add_comm (m t'), add_assoc, add_comm (m t'), ← add_assoc, add_comm (l.map m).sum]
    | succ i =>
      have := ih (i := i) (by simpa using h)
      simp only [List.set_cons_succ, List.map_cons, List.sum_cons, add_assoc, this]

theorem total_arrive (m : τ → M) (p : Pool σ τ) (r : ρ) :
    ((pool P).step p (.arrive r)).total m = p.total m + m (P.init r p.shared) := by
  show ((p.threads ++ [P.init r p.shared]).map m).sum = _
  rw [List.map_append, List.map_singleton, List.sum_append, List.sum_singleton]
  rfl

theorem total_act (m : τ → M) (h : p.threads[i]? = some t) (a : α) :
    ((pool P).step p (.act i a)).total m + m t = p.total m + m (P.exec t p.shared a).1 := by
  rw [step_act h]
  exact sum_map_set m h _

/-- **Conservation.** If every action adds to the shared amount `v` what it adds
    to the thread's own account `m`, then in every run `v` is what it was plus the
    accounts of all threads. -/
theorem Run.conserved {v : σ → M} {m : τ → M} (h : Run (pool P) ⟨[], s₀⟩ tr p)
    (hinit : ∀ r s, m (P.init r s) = 0)
    (hexec : ∀ t s a, P.ready t s a → v (P.exec t s a).2 + m t = v s + m (P.exec t s a).1)
    (hworld : ∀ s e, P.world.enabled s e → v (P.world.step s e) = v s) :
    v p.shared = v s₀ + p.total m := by
  induction h with
  | nil => simp [Pool.total]
  | @snoc tr p e _ henabled ih =>
    cases e with
    | arrive r =>
      rw [total_arrive, hinit, add_zero]
      exact ih
    | act i a =>
      obtain ⟨t, hold, hready⟩ := henabled
      refine add_right_cancel (b := m t) ?_
      rw [add_assoc, total_act m hold, ← add_assoc, ← ih, step_act hold]
      exact hexec t p.shared a hready
    | world e =>
      show v (P.world.step p.shared e) = _
      rw [hworld p.shared e henabled, ih]
      rfl

end Conservation

/-- **Calls counted.** If every action adds its calls to the thread's record, then
    the calls of a kind in a run are as many as the records have together. -/
theorem Run.countP_callLog {δ γ : Type*} (h : Run (pool P) ⟨[], s₀⟩ tr p)
    (calls : τ → σ → α → List δ) (key : δ → γ) (record : τ → List γ)
    (hinit : ∀ r s, record (P.init r s) = [])
    (hexec : ∀ t s a, P.ready t s a →
      record (P.exec t s a).1 = record t ++ (calls t s a).map key) (q : γ → Bool) :
    (callLog calls tr).countP (fun c => q (key c.2)) = p.total fun t => (record t).countP q := by
  induction h with
  | nil => rfl
  | @snoc tr p e _ henabled ih =>
    rw [callLog, List.flatMap_append, List.flatMap_singleton, List.countP_append]
    change (callLog calls tr).countP _ + _ = _
    rw [ih]
    cases e with
    | arrive r =>
      rw [total_arrive, hinit]
      rfl
    | act i a =>
      obtain ⟨t, hold, hready⟩ := henabled
      have htotal := total_act (P := P) (fun t => (record t).countP q) hold a
      rw [hexec t p.shared a hready, List.countP_append, List.countP_map] at htotal
      rw [stepCalls_act hold, List.countP_map]
      have hsame : ((calls t p.shared a).countP ((fun c : ℕ × δ => q (key c.2)) ∘ (i, ·))) =
        (calls t p.shared a).countP (q ∘ key) := rfl
      omega
    | world e => rfl

/-- **Calls bounded.** If every thread starts with a budget of at most `k`, and an
    action takes from the budget what it calls, then there are no more calls than
    `k` for each thread. -/
theorem Run.callLog_length_le {δ : Type*} (h : Run (pool P) ⟨[], s₀⟩ tr p)
    {calls : τ → σ → α → List δ} {budget : τ → ℕ} {k : ℕ}
    (hinit : ∀ r s, budget (P.init r s) ≤ k)
    (hexec : ∀ t s a, P.ready t s a →
      (calls t s a).length + budget (P.exec t s a).1 ≤ budget t) :
    (callLog calls tr).length + p.total budget ≤ k * p.threads.length := by
  induction h with
  | nil => exact Nat.le_refl 0
  | @snoc tr p e _ henabled ih =>
    rw [callLog, List.flatMap_append, List.flatMap_singleton, List.length_append]
    change (callLog calls tr).length + _ + _ ≤ _
    cases e with
    | arrive r =>
      have hle := hinit r p.shared
      have hlength : ((pool P).step p (.arrive r)).threads.length = p.threads.length + 1 :=
        List.length_append
      rw [total_arrive, hlength, Nat.mul_succ]
      show (callLog calls tr).length + 0 + _ ≤ _
      omega
    | act i a =>
      obtain ⟨t, hold, hready⟩ := henabled
      have htotal := total_act (P := P) budget hold a
      have hle := hexec t p.shared a hready
      have hlength : ((pool P).step p (.act i a)).threads.length = p.threads.length := by
        rw [step_act hold]
        exact List.length_set
      rw [stepCalls_act hold, List.length_map, hlength]
      omega
    | world e => exact ih

/-! ## Finishing -/

section Cost

variable {cost : τ → ℕ}

/-- Every action lowers the cost, so a thread takes no more than a bound on what
    it costs at the start, which its actions do not change. -/
theorem Run.view_length (h : Run (pool P) ⟨[], s₀⟩ tr p) (bound : τ → ℕ)
    (hinit : ∀ r s, cost (P.init r s) ≤ bound (P.init r s))
    (hexec : ∀ t s a, P.ready t s a → cost (P.exec t s a).1 < cost t)
    (hbound : ∀ t s a, P.ready t s a → bound (P.exec t s a).1 = bound t)
    (hi : p.threads[i]? = some t) : (view i tr).length + cost t ≤ bound t := by
  obtain ⟨-, q, r, -, -, -, -, own, hown, hview⟩ := h.solo hi
  rw [← hview, List.length_map]
  clear hview hi
  induction hown with
  | nil => simpa using hinit r q.shared
  | @snoc own t x _ hready ih =>
    have hlt : cost ((Lib.solo P).step t x) < cost t := hexec t x.1 x.2 hready
    have hsame : bound ((Lib.solo P).step t x) = bound t := hbound t x.1 x.2 hready
    rw [List.length_append, List.length_singleton]
    omega

/-- A thread that can act as long as it costs something finishes by its own actions, from
    wherever it stands. If it can always choose an action that has `Q` and keeps `G`, it
    finishes by actions that have `Q`. -/
theorem exists_finish {G : τ → σ → Prop} {Q : τ → σ → α → Prop}
    (hexec : ∀ t s a, P.ready t s a → cost (P.exec t s a).1 < cost t)
    (hready : ∀ t s, G t s → cost t ≠ 0 → ∃ a, P.ready t s a ∧ Q t s a ∧
      G (P.exec t s a).1 (P.exec t s a).2)
    (hi : p.threads[i]? = some t) (hG : G t p.shared) :
    ∃ own p' t', Run (pool P) p own p' ∧
      (∀ x ∈ own, ∃ a t, x.event = .act i a ∧ x.pre.threads[i]? = some t ∧
        Q t x.pre.shared a) ∧
      p'.threads[i]? = some t' ∧ cost t' = 0 := by
  induction hc : cost t using Nat.strong_induction_on generalizing p t with
  | _ n ih =>
    rcases Nat.eq_zero_or_pos n with rfl | hpos
    · exact ⟨[], p, t, .nil, by simp, hi, hc⟩
    obtain ⟨a, ha, hQ, hG'⟩ := hready t p.shared hG (by omega)
    have hstep : ((pool P).step p (.act i a)).threads[i]? = some (P.exec t p.shared a).1 := by
      rw [step_act hi]
      exact List.getElem?_set_self (List.getElem?_eq_some_iff.mp hi).1
    have hshared : ((pool P).step p (.act i a)).shared = (P.exec t p.shared a).2 := by
      rw [step_act hi]
    obtain ⟨own, p', t', hrun, hown, hi', hcost⟩ :=
      ih _ (hc ▸ hexec t p.shared a ha) hstep (hshared ▸ hG') rfl
    have henabled : (pool P).enabled p (.act i a) := ⟨t, hi, ha⟩
    refine ⟨_, p', t', (Run.nil.snoc henabled).append hrun, ?_, hi', hcost⟩
    rintro x hx
    rcases List.mem_append.mp hx with hx | hx
    · obtain rfl := List.mem_singleton.mp hx
      exact ⟨a, t, rfl, hi, hQ⟩
    · exact hown x hx

end Cost

end Runs

end Melis.Lib
