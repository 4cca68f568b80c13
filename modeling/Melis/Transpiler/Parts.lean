import Melis.Transpiler.Factory

/-!
# Answers of several parts

A Gemini candidate is a list of parts, and an answer can span several text parts.
`VertexTranspiler::from_native` and `translate_chunk` both take the text of the first
part that has one; `AnthropicTranspiler::from_native` joins the texts of all blocks
(`Anthropic.contentText`).

* `candidateText_eq_head?`: what both functions read.
* `join_heads_eq`: pieces of a text whose later parts are empty.
* `carriesText_iff`: all of the text comes through, complete or in chunks, exactly when
  the text parts of each candidate after its first one are empty.
* `not_forall_carriesText`: it does not always.
-/

namespace Melis.Transpiler.Vertex

/-! ## Parts of a candidate -/

/-- `parts` of a candidate (lines 241–243 and 346–348). -/
def candidateParts (candidate : Value) : Option (List Value) :=
  ((candidate.get "content").bind fun c => c.get "parts").bind Value.asArray

/-- The texts of the parts that have one, in order. -/
def partTexts (parts : List Value) : List String :=
  parts.filterMap fun p => (p.get "text").bind Value.asStr

/-- The texts of a candidate. -/
def candidateTexts (candidate : Value) : List String :=
  partTexts ((candidateParts candidate).getD [])

/-- Of the texts of a candidate the first is taken. -/
theorem candidateText_eq_head? (candidate : Value) :
    candidateText candidate = (candidateTexts candidate).head? := by
  have hdef : candidateText candidate =
      (candidateParts candidate).bind fun parts => (partTexts parts).head? := rfl
  rw [hdef, candidateTexts]
  cases candidateParts candidate <;> rfl

theorem partTexts_flatten (pieces : List (List Value)) :
    partTexts pieces.flatten = (pieces.map partTexts).flatten := by
  rw [partTexts, List.filterMap_flatten]
  rfl

/-! ## First texts and all texts -/

theorem join_eq_empty_iff (texts : List String) :
    String.join texts = "" ↔ ∀ t ∈ texts, t = "" := by
  induction texts with
  | nil => simp
  | cons t texts ih => rw [String.join_cons, String.append_eq_empty_iff, ih, List.forall_mem_cons]

/-- The first text is all of the text exactly if the others are empty. -/
theorem head_eq_join_iff (texts : List String) :
    texts.head?.getD "" = String.join texts ↔ ∀ t ∈ texts.tail, t = "" := by
  cases texts with
  | nil => simp
  | cons t texts =>
    rw [List.head?_cons, Option.getD_some, String.join_cons, List.tail_cons, eq_comm,
      String.append_eq_left_iff, join_eq_empty_iff]

/-- Where all texts after the first are empty, the first texts of any pieces make up
    the whole text. -/
theorem join_heads_eq {pieces : List (List String)} (h : ∀ t ∈ pieces.flatten.tail, t = "") :
    String.join (pieces.map fun texts => texts.head?.getD "") = String.join pieces.flatten := by
  induction pieces with
  | nil => rfl
  | cons texts pieces ih =>
    rw [List.map_cons, String.join_cons, List.flatten_cons, String.join_append]
    cases texts with
    | nil => rw [ih h, List.head?_nil, Option.getD_none, String.join_nil]
    | cons t texts =>
      rw [List.flatten_cons, List.cons_append, List.tail_cons] at h
      have htexts : ∀ u ∈ texts, u = "" := fun u hu => h u (List.mem_append_left _ hu)
      have hpieces : ∀ u ∈ pieces.flatten.tail, u = "" := fun u hu =>
        h u (List.mem_append_right _ (List.mem_of_mem_tail hu))
      rw [ih hpieces, (head_eq_join_iff (t :: texts)).mpr htexts]

/-! ## Answers and chunks -/

/-- `choices` of an answer. -/
def choices (answer : Value) : List Value := ((answer.get "choices").bind Value.asArray).getD []

/-- `choice["message"]["content"]`. -/
def messageContent (choice : Value) : Option Value :=
  (choice.get "message").bind fun m => m.get "content"

/-- `choice["delta"]["content"]`. -/
def deltaContent (choice : Value) : Option Value :=
  (choice.get "delta").bind fun d => d.get "content"

/-- The text that `read` finds in choice `i` of an answer; none is the empty text. -/
def textAt (read : Value → Option Value) (i : ℕ) (answer : Except TranspilerError Value) :
    String :=
  ((((answer.toOption.map choices).bind fun cs => cs[i]?).bind read).bind Value.asStr).getD ""

theorem messageContent_choice (candidate : Value) (i : ℕ) :
    messageContent (choice candidate i) =
      some (.string ((candidateTexts candidate).head?.getD "")) := by
  rw [← candidateText_eq_head?]
  simp [messageContent, choice, Value.get_json, Entries.get_cons]

theorem deltaContent_chunkChoice (candidate : Value) (i : ℕ) :
    deltaContent (chunkChoice candidate i) = (candidateTexts candidate).head?.map .string := by
  rw [← candidateText_eq_head?, deltaContent, chunkChoice]
  simp only [Value.get_json, List.reverse_cons, List.reverse_nil, List.nil_append,
    List.cons_append, Entries.get_cons]
  cases candidateText candidate with
  | none =>
    cases candidateRole candidate <;> simp [Anthropic.insertSome, Entries.get_insert]
  | some t => simp [Anthropic.insertSome]

theorem fromNative_eq {response : Value} {cs : List Value}
    (h : response.get "candidates" = some (.array cs)) :
    ∃ answer, fromNative response = .ok answer ∧
      choices answer = cs.zipIdx.map fun c => choice c.1 c.2 := by
  have hcandidates : candidates response = .ok cs := by
    rw [candidates, h]
    rfl
  rw [fromNative, hcandidates]
  refine ⟨_, rfl, ?_⟩
  rw [choices, Value.get_object, Anthropic.get_insertSome_of_ne (by decide), Entries.get_ofList]
  rfl

theorem translateChunk_eq {chunk : Value} {cs : List Value}
    (h : chunk.get "candidates" = some (.array cs)) :
    ∃ out, translateChunk chunk = .ok out ∧
      choices out = cs.zipIdx.map fun c => chunkChoice c.1 c.2 := by
  have hcandidates : candidates chunk = .ok cs := by
    rw [candidates, h]
    rfl
  rw [translateChunk, hcandidates]
  refine ⟨_, rfl, ?_⟩
  rw [choices, Value.json, Value.get_object, Entries.get_ofList]
  rfl

/-! ## All of the text -/

/-- `chunk` has a candidate at `i` whose parts are `piece`. -/
def IsChunk (i : ℕ) (piece : List Value) (chunk : Value) : Prop :=
  ∃ cs c, chunk.get "candidates" = some (.array cs) ∧ cs[i]? = some c ∧
    candidateParts c = some piece

/-- All text of a response with the candidates `cs` comes through: each candidate has
    its choice, with the texts of all its parts; so it is for the response taken as a
    chunk; and however the parts of a candidate are split into chunks, the deltas make
    up the content of the complete response. -/
structure CarriesText (response : Value) (cs : List Value) : Prop where
  message : ∃ answer, fromNative response = .ok answer ∧
    (choices answer).map messageContent =
      cs.map fun c => some (.string (String.join (candidateTexts c)))
  delta : ∃ chunk, translateChunk response = .ok chunk ∧
    (choices chunk).map deltaContent = cs.map fun c =>
      if candidateTexts c = [] then none else some (.string (String.join (candidateTexts c)))
  split : ∀ i c parts, cs[i]? = some c → candidateParts c = some parts →
    ∀ (pieces : List (List Value)) (j : ℕ) (chunks : List Value), pieces.flatten = parts →
      List.Forall₂ (IsChunk j) pieces chunks →
      String.join (chunks.map fun chunk => textAt deltaContent j (translateChunk chunk)) =
        textAt messageContent i (fromNative response)

/-- The text of a chunk is the first one of its piece. -/
theorem textAt_translateChunk {i : ℕ} {piece : List Value} {chunk : Value}
    (h : IsChunk i piece chunk) :
    textAt deltaContent i (translateChunk chunk) = (partTexts piece).head?.getD "" := by
  obtain ⟨cs, c, hcs, hc, hparts⟩ := h
  obtain ⟨out, hout, hchoices⟩ := translateChunk_eq hcs
  have hget : (choices out)[i]? = some (chunkChoice c i) := by
    simp [hchoices, List.getElem?_zipIdx, hc]
  have htexts : candidateTexts c = partTexts piece := by rw [candidateTexts, hparts]; rfl
  rw [textAt, hout]
  change ((((choices out)[i]?).bind deltaContent).bind Value.asStr).getD "" = _
  rw [hget, Option.bind_some, deltaContent_chunkChoice, htexts]
  cases (partTexts piece).head? <;> rfl

theorem textAt_fromNative {response : Value} {cs : List Value} {i : ℕ} {c : Value}
    (h : response.get "candidates" = some (.array cs)) (hc : cs[i]? = some c) :
    textAt messageContent i (fromNative response) = (candidateTexts c).head?.getD "" := by
  obtain ⟨answer, hanswer, hchoices⟩ := fromNative_eq h
  have hget : (choices answer)[i]? = some (choice c i) := by
    simp [hchoices, List.getElem?_zipIdx, hc]
  rw [textAt, hanswer]
  change ((((choices answer)[i]?).bind messageContent).bind Value.asStr).getD "" = _
  rw [hget, Option.bind_some, messageContent_choice]
  rfl

theorem map_messageContent {response : Value} {cs : List Value}
    (h : response.get "candidates" = some (.array cs)) :
    ∃ answer, fromNative response = .ok answer ∧
      (choices answer).map messageContent =
        cs.map fun c => some (.string ((candidateTexts c).head?.getD "")) := by
  obtain ⟨answer, hanswer, hchoices⟩ := fromNative_eq h
  refine ⟨answer, hanswer, ?_⟩
  rw [hchoices, List.map_map]
  conv_rhs => rw [← List.zipIdx_map_fst 0 cs, List.map_map]
  exact List.map_congr_left fun e _ => messageContent_choice e.1 e.2

theorem map_deltaContent {chunk : Value} {cs : List Value}
    (h : chunk.get "candidates" = some (.array cs)) :
    ∃ out, translateChunk chunk = .ok out ∧
      (choices out).map deltaContent = cs.map fun c => (candidateTexts c).head?.map .string := by
  obtain ⟨out, hout, hchoices⟩ := translateChunk_eq h
  refine ⟨out, hout, ?_⟩
  rw [hchoices, List.map_map]
  conv_rhs => rw [← List.zipIdx_map_fst 0 cs, List.map_map]
  exact List.map_congr_left fun e _ => deltaContent_chunkChoice e.1 e.2

/-- **All of the text of a response comes through exactly when**, in each of its
    candidates, the text parts after the first one are empty. -/
theorem carriesText_iff {response : Value} {cs : List Value}
    (h : response.get "candidates" = some (.array cs)) :
    CarriesText response cs ↔ ∀ c ∈ cs, ∀ t ∈ (candidateTexts c).tail, t = "" := by
  obtain ⟨answer, hanswer, hmessages⟩ := map_messageContent h
  obtain ⟨chunk, hchunk, hdeltas⟩ := map_deltaContent h
  constructor
  · rintro ⟨⟨answer', hanswer', hall⟩, -, -⟩ c hc
    obtain rfl : answer = answer' := Except.ok.inj (hanswer.symm.trans hanswer')
    have := List.map_inj_left.mp (hmessages.symm.trans hall) c hc
    exact (head_eq_join_iff _).mp (Value.string.inj (Option.some.inj this))
  · intro hempty
    have hhead : ∀ c ∈ cs, (candidateTexts c).head?.getD "" = String.join (candidateTexts c) :=
      fun c hc => (head_eq_join_iff _).mpr (hempty c hc)
    refine ⟨⟨answer, hanswer, ?_⟩, ⟨chunk, hchunk, ?_⟩, ?_⟩
    · rw [hmessages]
      exact List.map_congr_left fun c hc => by rw [hhead c hc]
    · rw [hdeltas]
      refine List.map_congr_left fun c hc => ?_
      rw [← hhead c hc]
      cases candidateTexts c <;> rfl
    · intro i c parts hc hparts pieces j chunks hpieces hchunks
      have htexts : candidateTexts c = (pieces.map partTexts).flatten := by
        rw [candidateTexts, hparts, Option.getD_some, ← hpieces, partTexts_flatten]
      have hmap : chunks.map (fun chunk => textAt deltaContent j (translateChunk chunk)) =
          (pieces.map partTexts).map fun texts => texts.head?.getD "" := by
        clear hpieces htexts
        induction hchunks with
        | nil => rfl
        | cons hchunk _ ih =>
          rw [List.map_cons, List.map_cons, List.map_cons, ih, textAt_translateChunk hchunk]
      have hmem := List.mem_of_getElem? hc
      rw [hmap, textAt_fromNative h hc, hhead c hmem, htexts]
      exact join_heads_eq (htexts ▸ hempty c hmem)

/-! ## An answer in two parts -/

/-- A candidate with one text part for each text. -/
def answerOf (texts : List String) : Value :=
  .json [("content", .json [("role", .string "model"),
    ("parts", .array (texts.map fun t => .json [("text", .string t)]))])]

/-- An answer whose second part is empty. -/
theorem carriesText_onePart :
    CarriesText (.json [("candidates", .array [answerOf ["Hello!", ""]])])
      [answerOf ["Hello!", ""]] := by
  refine (carriesText_iff (by rfl)).mpr fun c hc t ht => ?_
  obtain rfl := List.mem_singleton.mp hc
  exact List.mem_singleton.mp ht

/-- Of `"Hel"` and `"lo!"` only the first part is passed on. -/
theorem not_forall_carriesText :
    ¬ ∀ (response : Value) (cs : List Value), response.get "candidates" = some (.array cs) →
      CarriesText response cs := by
  intro h
  have hcarries := h (.json [("candidates", .array [answerOf ["Hel", "lo!"]])])
    [answerOf ["Hel", "lo!"]] rfl
  obtain ⟨answer, hanswer, hall⟩ := hcarries.message
  obtain ⟨answer', hanswer', hfirst⟩ := map_messageContent
    (show (Value.json [("candidates", .array [answerOf ["Hel", "lo!"]])]).get "candidates" =
      some (.array [answerOf ["Hel", "lo!"]]) from rfl)
  obtain rfl : answer = answer' := Except.ok.inj (hanswer.symm.trans hanswer')
  have htext : (some (Value.string "Hel") : Option Value) = some (.string "Hello!") :=
    List.cons.inj (hfirst.symm.trans hall) |>.1
  exact absurd (Value.string.inj (Option.some.inj htext)) (by decide)

end Melis.Transpiler.Vertex
