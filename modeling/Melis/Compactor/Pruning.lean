import Melis.Compactor.SlidingWindow

/-!
# What `SimpleCompactor` removes

`compact` keeps lists of indices into the windowed messages. Without them, in terms of
the messages: the window, the stop words of its trimmable messages, and the removal of
the oldest trimmable ones.

* `windowedMessages_eq`, `workingMessages_eq`, `withoutIndices_eq`: the stages of the
  code compute these.
* `compact_pruning`: what is removed.
* `empty_window_kept`: the history that comes back where nothing is left of it.
-/

namespace Melis.Compactor.SimpleCompactor

open Lib

/-! ## In terms of messages -/

/-- The system messages and the last `n` others, in order. -/
def lastMessages (n : ℕ) : List CompactMessage → List CompactMessage
  | [] => []
  | m :: ms =>
    if m.role = "system" ∨ nonSystemCount ms < n then m :: lastMessages n ms
    else lastMessages n ms

/-- `m`, which `ms` follow, is neither a system message nor the last user message. -/
def Trimmable (m : CompactMessage) (ms : List CompactMessage) : Prop :=
  m.role ≠ "system" ∧ ¬ (m.role = "user" ∧ ∀ m' ∈ ms, m'.role ≠ "user")

instance (m : CompactMessage) (ms : List CompactMessage) : Decidable (Trimmable m ms) :=
  inferInstanceAs (Decidable (_ ∧ ¬ _))

/-- How many messages are trimmable. -/
def trimmableCount : List CompactMessage → ℕ
  | [] => 0
  | m :: ms => (if Trimmable m ms then 1 else 0) + trimmableCount ms

/-- The messages, the trimmable ones without their stop words. -/
def withoutStopWords (U : Unicode) (stopWords : List String) :
    List CompactMessage → List CompactMessage
  | [] => []
  | m :: ms =>
    (if Trimmable m ms then stripped U stopWords m else m) :: withoutStopWords U stopWords ms

/-- What the pruning loop starts from: the window, without stop words. -/
def prepared (U : Unicode) (messages : List CompactMessage) (config : CompactorConfig) :
    List CompactMessage :=
  withoutStopWords U config.stopWords (lastMessages config.maxHistoryMessages messages)

/-- The messages without the `k` oldest trimmable ones. -/
def removeOldest : ℕ → List CompactMessage → List CompactMessage
  | 0, ms => ms
  | _ + 1, [] => []
  | k + 1, m :: ms =>
    if Trimmable m ms then removeOldest k ms else m :: removeOldest (k + 1) ms

/-! ## The window -/

section Window

variable {n : ℕ} {messages : List CompactMessage}

theorem lastMessages_positions (n : ℕ) (messages : List CompactMessage) :
    ∃ is, Selects (fun m m' => m' = m) messages is (lastMessages n messages) ∧
      ∀ i m, messages[i]? = some m → (i ∈ is ↔ m.role = "system" ∨ InWindow n messages i) := by
  induction messages with
  | nil => exact ⟨[], ⟨List.Pairwise.nil, .nil⟩, by simp⟩
  | cons m ms ih =>
    obtain ⟨is, hsel, hmem⟩ := ih
    have hshift : ∀ i, InWindow n (m :: ms) (i + 1) ↔ InWindow n ms i := fun i => Iff.rfl
    have hhead : m.role = "system" ∨ InWindow n (m :: ms) 0 ↔
        m.role = "system" ∨ nonSystemCount ms < n := by
      by_cases hs : m.role = "system"
      · simp [hs]
      · rw [or_iff_right hs, or_iff_right hs]
        exact ⟨fun ⟨_, _, _, hlt⟩ => hlt, fun hlt => ⟨m, rfl, hs, hlt⟩⟩
    rw [lastMessages]
    split_ifs with hkept
    · refine ⟨0 :: is.map (· + 1), hsel.cons_selected rfl, fun i m' hm' => ?_⟩
      cases i with
      | zero =>
        obtain rfl : m = m' := Option.some.inj hm'
        exact iff_of_true List.mem_cons_self (hhead.mpr hkept)
      | succ i =>
        rw [hshift, ← hmem i m' hm']
        simp
    · refine ⟨is.map (· + 1), hsel.cons m, fun i m' hm' => ?_⟩
      cases i with
      | zero =>
        obtain rfl : m = m' := Option.some.inj hm'
        exact iff_of_false (by simp) (mt hhead.mp hkept)
      | succ i =>
        rw [hshift, ← hmem i m' hm']
        simp

/-- The window of the code. -/
theorem windowedMessages_eq (messages : List CompactMessage) (config : CompactorConfig) :
    windowedMessages messages config = lastMessages config.maxHistoryMessages messages := by
  obtain ⟨is, hsel, hmem⟩ := windowedMessages_positions messages config
  obtain ⟨js, hsel', hmem'⟩ := lastMessages_positions config.maxHistoryMessages messages
  have hsame : ∀ i, i ∈ is ↔ i ∈ js := by
    intro i
    rcases Nat.lt_or_ge i messages.length with hi | hi
    · have hm := List.getElem?_eq_getElem hi
      rw [hmem i _ hm, hmem' i _ hm]
    · exact iff_of_false (fun h => Nat.not_lt_of_le hi (hsel.pos_lt h))
        fun h => Nat.not_lt_of_le hi (hsel'.pos_lt h)
  obtain rfl := hsel.increasing.eq_of_mem_iff hsel'.increasing hsame
  exact hsel.unique hsel'

end Window

/-! ## Stop words -/

section StopWords

variable {m : CompactMessage} {ms : List CompactMessage}

theorem lastUserIdx_cons_succ {i : ℕ} :
    lastUserIdx (m :: ms) = some (i + 1) ↔ lastUserIdx ms = some i := by
  unfold lastUserIdx
  rw [rposition]
  cases h : rposition (fun m : CompactMessage => m.role == "user") ms with
  | some j => simp
  | none => split_ifs <;> simp

theorem lastUserIdx_cons_zero :
    lastUserIdx (m :: ms) = some 0 ↔ m.role = "user" ∧ ∀ m' ∈ ms, m'.role ≠ "user" := by
  unfold lastUserIdx
  rw [rposition]
  cases h : rposition (fun m : CompactMessage => m.role == "user") ms with
  | some j =>
    refine iff_of_false (by simp) fun hnone => ?_
    obtain ⟨pre, x, post, rfl, -, hx, -⟩ := rposition_eq_some.mp h
    exact hnone.2 x (by simp) (by simpa using hx)
  | none =>
    have hnone : ∀ m' ∈ ms, m'.role ≠ "user" := by simpa using rposition_eq_none.mp h
    rw [and_iff_left hnone]
    simp

theorem trimmable_iff :
    Trimmable m ms ↔ ¬ (m.role = "system" ∨ lastUserIdx (m :: ms) = some 0) := by
  rw [not_or, lastUserIdx_cons_zero, Trimmable]

theorem withoutStopWords_get {U : Unicode} {stopWords : List String} {i : ℕ}
    (hm : ms[i]? = some m) :
    (withoutStopWords U stopWords ms)[i]? =
      some (if m.role = "system" ∨ lastUserIdx ms = some i then m
        else stripped U stopWords m) := by
  induction ms generalizing i with
  | nil => simp at hm
  | cons m' ms ih =>
    cases i with
    | zero =>
      obtain rfl : m' = m := Option.some.inj hm
      rw [withoutStopWords, List.getElem?_cons_zero]
      simp only [trimmable_iff, ite_not]
    | succ i =>
      rw [withoutStopWords, List.getElem?_cons_succ, ih hm]
      simp only [lastUserIdx_cons_succ]

theorem length_withoutStopWords (U : Unicode) (stopWords : List String)
    (ms : List CompactMessage) : (withoutStopWords U stopWords ms).length = ms.length := by
  induction ms with
  | nil => rfl
  | cons m ms ih => rw [withoutStopWords, List.length_cons, ih, List.length_cons]

/-- `working_messages` of the code. -/
theorem workingMessages_eq (U : Unicode) (windowed : List CompactMessage)
    (config : CompactorConfig) :
    workingMessages U windowed config = withoutStopWords U config.stopWords windowed := by
  refine List.ext_getElem? fun i => ?_
  rcases Nat.lt_or_ge i windowed.length with hi | hi
  · have hm := List.getElem?_eq_getElem hi
    rw [workingMessages_get U config hm, withoutStopWords_get hm]
  · rw [List.getElem?_eq_none (by rwa [length_workingMessages]),
      List.getElem?_eq_none (by rwa [length_withoutStopWords])]

end StopWords

/-! ## Removal -/

section Removal

variable {m : CompactMessage} {ms windowed : List CompactMessage}

/-- Only the roles matter. -/
theorem trimmable_congr {m' : CompactMessage} {ms' : List CompactMessage}
    (hrole : m'.role = m.role) (hroles : ms'.map (·.role) = ms.map (·.role)) :
    Trimmable m' ms' ↔ Trimmable m ms := by
  have huser : ∀ xs : List CompactMessage,
      (∀ x ∈ xs, x.role ≠ "user") ↔ "user" ∉ xs.map (·.role) := by
    intro xs
    rw [List.mem_map, not_exists]
    exact forall_congr' fun x => by rw [not_and]
  rw [Trimmable, Trimmable, hrole, huser, huser, hroles]

/-- The positions of the trimmable messages, counted from `n`. -/
def trimmableIndices : ℕ → List CompactMessage → List ℕ
  | _, [] => []
  | n, m :: ms =>
    if Trimmable m ms then n :: trimmableIndices (n + 1) ms else trimmableIndices (n + 1) ms

theorem length_trimmableIndices (n : ℕ) (ms : List CompactMessage) :
    (trimmableIndices n ms).length = trimmableCount ms := by
  induction ms generalizing n with
  | nil => rfl
  | cons m ms ih =>
    rw [trimmableIndices, trimmableCount]
    split_ifs
    · rw [List.length_cons, ih, Nat.add_comm]
    · rw [ih, Nat.zero_add]

theorem le_of_mem_trimmableIndices {n i : ℕ} (h : i ∈ trimmableIndices n ms) : n ≤ i := by
  induction ms generalizing n with
  | nil => cases h
  | cons m ms ih =>
    rw [trimmableIndices] at h
    split_ifs at h
    · rcases List.mem_cons.mp h with rfl | h
      · exact le_rfl
      · exact Nat.le_of_succ_le (ih h)
    · exact Nat.le_of_succ_le (ih h)

theorem some_add_eq_map_iff (o : Option ℕ) (i n : ℕ) :
    some (i + n) = o.map (· + n) ↔ o = some i := by
  cases o with
  | none => simp
  | some j =>
    rw [Option.map_some, Option.some.injEq, Option.some.injEq]
    omega

/-- The filter of `eligible_indices`, from position `n` on. -/
theorem eligible_from (n : ℕ) (ms : List CompactMessage) :
    ((ms.zipIdx n).filter fun e =>
      e.1.role != "system" && some e.2 != (lastUserIdx ms).map (· + n)).map Prod.snd =
      trimmableIndices n ms := by
  induction ms generalizing n with
  | nil => rfl
  | cons m ms ih =>
    have hhead : (m.role != "system" && some n != (lastUserIdx (m :: ms)).map (· + n)) = true ↔
        Trimmable m ms := by
      have hzero := some_add_eq_map_iff (lastUserIdx (m :: ms)) 0 n
      rw [Nat.zero_add] at hzero
      rw [trimmable_iff, Bool.and_eq_true, bne_iff_ne, bne_iff_ne, not_or, Ne, Ne, hzero]
    have htail : (ms.zipIdx (n + 1)).filter (fun e =>
          e.1.role != "system" && some e.2 != (lastUserIdx (m :: ms)).map (· + n)) =
        (ms.zipIdx (n + 1)).filter fun e =>
          e.1.role != "system" && some e.2 != (lastUserIdx ms).map (· + (n + 1)) := by
      refine List.filter_congr fun e he => ?_
      obtain ⟨i, hi⟩ := Nat.exists_eq_add_of_le' (List.le_snd_of_mem_zipIdx he)
      have hsame : some e.2 = (lastUserIdx (m :: ms)).map (· + n) ↔
          some e.2 = (lastUserIdx ms).map (· + (n + 1)) := by
        rw [hi, some_add_eq_map_iff, ← lastUserIdx_cons_succ,
          ← some_add_eq_map_iff _ (i + 1) n, Nat.add_right_comm, Nat.add_assoc]
      rw [Bool.eq_iff_iff, Bool.and_eq_true, Bool.and_eq_true, bne_iff_ne, bne_iff_ne, bne_iff_ne,
        Ne, Ne, Ne, hsame]
    rw [List.zipIdx_cons, List.filter_cons, trimmableIndices, ← ih (n + 1), ← htail]
    simp only [hhead]
    split_ifs <;> rfl

/-- `eligible_indices` of the code. -/
theorem eligibleIndices_eq (windowed : List CompactMessage) :
    eligibleIndices windowed = trimmableIndices 0 windowed := by
  rw [← eligible_from 0 windowed, eligibleIndices]
  simp

theorem trimmableIndices_congr {ms' : List CompactMessage} (h : ms'.map (·.role) = ms.map (·.role))
    (n : ℕ) : trimmableIndices n ms' = trimmableIndices n ms := by
  induction ms generalizing n ms' with
  | nil => rw [List.map_eq_nil_iff.mp h]
  | cons m ms ih =>
    obtain ⟨m', ms', rfl, hrole, hroles⟩ := List.map_eq_cons_iff.mp h
    rw [trimmableIndices, trimmableIndices]
    simp only [trimmable_congr hrole hroles, ih hroles]

/-- Removing indices, from position `n` on. -/
theorem without_from (n k : ℕ) (ms : List CompactMessage) :
    ((ms.zipIdx n).filter fun e => !((trimmableIndices n ms).take k).contains e.2).map Prod.fst =
      removeOldest k ms := by
  induction ms generalizing n k with
  | nil => cases k <;> rfl
  | cons m ms ih =>
    cases k with
    | zero => simp [removeOldest, List.zipIdx_map_fst]
    | succ k =>
      rw [trimmableIndices, removeOldest, List.zipIdx_cons]
      split_ifs with htrim
      · rw [List.filter_cons_of_neg (by simp), ← ih (n + 1) k]
        refine congrArg _ (List.filter_congr fun e he => ?_)
        have hle : n + 1 ≤ e.2 := List.le_snd_of_mem_zipIdx he
        have hne : e.2 ≠ n := by omega
        simp [hne]
      · have hnot : n ∉ (trimmableIndices (n + 1) ms).take (k + 1) := fun h =>
          Nat.not_succ_le_self n (le_of_mem_trimmableIndices (List.mem_of_mem_take h))
        rw [List.filter_cons_of_pos (by simpa using hnot), List.map_cons, ih (n + 1) (k + 1)]

/-- The messages without the first `k` eligible ones. -/
theorem withoutIndices_eq (k : ℕ) (ms : List CompactMessage) :
    withoutIndices ms ((trimmableIndices 0 ms).take k) = removeOldest k ms :=
  without_from 0 k ms

end Removal

/-! ## What `compact` removes -/

section Compact

variable {U : Unicode} {messages : List CompactMessage} {config : CompactorConfig}

/-- `compact` gets to its step 4 (line 199): neither of its first two tests (lines 107
    and 171) succeeds. -/
def ReachesPruning (messages : List CompactMessage) (config : CompactorConfig) : Prop :=
  ¬ (totalTokens messages < config.tokenThreshold ∧
      messages.length ≤ config.maxHistoryMessages) ∧
    ¬ totalTokens (windowedMessages messages config) < config.tokenThreshold

instance (messages : List CompactMessage) (config : CompactorConfig) :
    Decidable (ReachesPruning messages config) :=
  inferInstanceAs (Decidable (_ ∧ _))

theorem working_eq (U : Unicode) (messages : List CompactMessage) (config : CompactorConfig) :
    working U messages config = prepared U messages config := by
  rw [working, workingMessages_eq, windowedMessages_eq, prepared]

/-- Three quarters, rounded down. -/
theorem targetTokens_eq_div (n : ℕ) : targetTokens n = 3 * n / 4 := by
  have hcast : (n : ℚ) * (3 / 4) = ((3 * n : ℕ) : ℚ) / (4 : ℕ) := by
    push_cast
    ring
  rw [targetTokens, F64.toNat_mul_finite, hcast, Rat.floor_natCast_div_natCast,
    ← Int.natCast_div, Int.toNat_natCast]

/-- Three quarters are not rounded below `2 ^ 51` tokens. -/
theorem targetTokens_eq_nearest {n : ℕ} (h : n < 2 ^ 51) :
    targetTokens n =
      (F64.Rounding.nearest.mul (F64.Rounding.nearest.cast n) (.finite (3 / 4))).toNat := by
  have hmul : (n : ℚ) * (3 / 4) = (3 * n : ℕ) * 2 ^ (-2 : ℤ) := by
    push_cast
    ring
  have hrep : F64.binary64.Representable ((n : ℚ) * (3 / 4)) := by
    rw [hmul]
    exact Lib.Format.representable_mul_zpow (show 3 * n < 2 ^ 53 by omega) (by decide)
  have hsmall : |(n : ℚ) * (3 / 4)| < 2 ^ 1024 := by
    have hcast : (n : ℚ) < 2 ^ 51 := by exact_mod_cast h
    rw [abs_of_nonneg (by positivity)]
    refine lt_trans ?_ F64.two_pow_64_lt_overflow
    linarith
  have hn : F64.Rounding.nearest.cast n = .finite n := by
    refine (F64.ofNat_nearest (by rw [u64Max]; omega)).trans ?_
    rw [F64.round_natCast (by omega)]
  rw [hn]
  exact congrArg F64.toNat (F64.nearest_finite hrep hsmall).symm

/-- The loop takes the positions of the oldest trimmable messages, until the target is
    met. -/
theorem exists_removed_eq (U : Unicode) (messages : List CompactMessage)
    (config : CompactorConfig) :
    ∃ k, FirstEnough (fun j => totalTokens (removeOldest j (prepared U messages config)) ≤
        3 * totalTokens messages / 4) (trimmableCount (prepared U messages config)) k ∧
      removed U messages config =
        (trimmableIndices 0 (prepared U messages config)).take k := by
  have heligible : eligibleIndices (windowedMessages messages config) =
      trimmableIndices 0 (prepared U messages config) := by
    rw [eligibleIndices_eq, ← working_eq]
    exact (trimmableIndices_congr map_role_workingMessages 0).symm
  obtain ⟨k, he, hfirst⟩ := pruneUntil_firstEnough
    (fun removed => totalTokens (withoutIndices (prepared U messages config) removed))
    (targetTokens (totalTokens messages)) [] (trimmableIndices 0 (prepared U messages config))
  simp only [List.nil_append, withoutIndices_eq, length_trimmableIndices,
    targetTokens_eq_div] at hfirst
  refine ⟨k, hfirst, ?_⟩
  rw [removed, heligible, working_eq, indicesToRemove, he, List.nil_append]

/-- It removes the oldest trimmable messages. -/
theorem exists_remaining_eq (U : Unicode) (messages : List CompactMessage)
    (config : CompactorConfig) :
    ∃ k, FirstEnough (fun j => totalTokens (removeOldest j (prepared U messages config)) ≤
        3 * totalTokens messages / 4) (trimmableCount (prepared U messages config)) k ∧
      remaining U messages config = removeOldest k (prepared U messages config) := by
  obtain ⟨k, hfirst, hremoved⟩ := exists_removed_eq U messages config
  exact ⟨k, hfirst, by rw [remaining, hremoved, working_eq, withoutIndices_eq]⟩

/-- **Pruning.** Where `compact` gets to its step 4: if the window without stop words is
    within three quarters of the tokens, it is returned, or the input where it is empty.
    Otherwise the oldest trimmable messages are removed from it, as few as bring it within
    three quarters but at least one, or all of them if that is not enough; what remains is
    returned, or the last message of the input where nothing does. -/
theorem compact_pruning (U : Unicode) (messages : List CompactMessage)
    (config : CompactorConfig) (h : ReachesPruning messages config) :
    let S := prepared U messages config
    let T := 3 * totalTokens messages / 4
    let result := (compact U messages config).messages
    (totalTokens S ≤ T → result = if S = [] then messages else S) ∧
    (T < totalTokens S → ∃ k,
      FirstEnough (fun j => totalTokens (removeOldest j S) ≤ T) (trimmableCount S) k ∧
      (removeOldest k S ≠ [] → result = removeOldest k S) ∧
      (removeOldest k S = [] → ∃ last, messages.getLast? = some last ∧ result = [last])) := by
  intro S T result
  obtain ⟨hskip, hover⟩ := h
  obtain ⟨k, hfirst, hremaining⟩ := exists_remaining_eq U messages config
  have hnil : S = [] ↔ windowedMessages messages config = [] := by
    rw [← @workingMessages_eq_nil U (windowedMessages messages config) config]
    exact Eq.congr_left (working_eq U messages config).symm
  have hresult : result = (compact U messages config).messages := rfl
  clear_value result
  have hpath := compact_path U messages config
  generalize compact U messages config = r at hresult hpath ⊢
  cases hpath with
  | identity hid =>
    have hS : S = [] := hnil.mpr (hid.resolve_left hskip)
    refine ⟨fun _ => hresult.trans (if_pos hS).symm, fun hlt => ?_⟩
    rw [hS] at hlt
    exact absurd hlt (Nat.not_lt_zero _)
  | window _ hlt => exact absurd hlt hover
  | stopWords hw _ hle =>
    rw [working_eq, targetTokens_eq_div] at hle
    refine ⟨fun _ => ?_, fun hlt => absurd hle (Nat.not_le_of_lt hlt)⟩
    rw [if_neg (mt hnil.mp hw), hresult]
    exact working_eq U messages config
  | pruned hne _ hlt =>
    rw [working_eq, targetTokens_eq_div] at hlt
    refine ⟨fun hle => absurd hle (Nat.not_le_of_lt hlt), fun _ => ⟨k, hfirst, ?_, ?_⟩⟩
    · exact fun _ => hresult.trans hremaining
    · exact fun hempty => absurd (hremaining.trans hempty) hne
  | lastOnly last hlast _ hempty _ hlt =>
    rw [working_eq, targetTokens_eq_div] at hlt
    refine ⟨fun hle => absurd hle (Nat.not_le_of_lt hlt), fun _ => ⟨k, hfirst, ?_, ?_⟩⟩
    · exact fun hne => absurd (hremaining.symm.trans hempty) hne
    · exact fun _ => ⟨last, hlast, hresult⟩

end Compact

/-! ## Two histories -/

/-- `CompactorConfig::default` that always compacts, with a window of `n`. -/
def alwaysCompact (n : ℕ) : CompactorConfig :=
  { CompactorConfig.default with tokenThreshold := 0, maxHistoryMessages := n }

/-- Of an answer and a question the answer is removed. -/
theorem compact_pruning_question :
    let question : CompactMessage := { role := "user", content := "How?" }
    (compact Unicode.ascii [{ role := "assistant", content := "Hello!" }, question]
      (alwaysCompact 20)).messages = [question] := by
  intro question
  let history : List CompactMessage := [{ role := "assistant", content := "Hello!" }, question]
  obtain ⟨k, hfirst, hkept, -⟩ := (compact_pruning Unicode.ascii history (alwaysCompact 20)
    (by decide)).2 (by decide)
  have hone : FirstEnough (fun j => totalTokens (removeOldest j (prepared Unicode.ascii history
      (alwaysCompact 20))) ≤ 3 * totalTokens history / 4)
      (trimmableCount (prepared Unicode.ascii history (alwaysCompact 20))) 1 :=
    ⟨by decide, fun _ => Nat.one_pos, fun j hj hj' => by omega, .inl (by decide)⟩
  obtain rfl := hfirst.unique hone
  exact hkept (by decide)

/-- With a window of none, a question without system messages leaves nothing, and comes
    back. -/
theorem empty_window_kept :
    let history : List CompactMessage := [{ role := "user", content := "How?" }]
    let S := prepared Unicode.ascii history (alwaysCompact 0)
    ReachesPruning history (alwaysCompact 0) ∧
      totalTokens S ≤ 3 * totalTokens history / 4 ∧
      (compact Unicode.ascii history (alwaysCompact 0)).messages ≠ S := by
  decide

end Melis.Compactor.SimpleCompactor
