import Melis.Client.Sse

/-!
# When an event is delivered (`client.rs`)

`SseChunkSplitter` cuts its buffer at `\n\n`. Lines may also end in `\r\n`, as the
parser downstream accepts (`streaming.rs` line 66), and then the blank line at the end
of an event is not seen: the event stays in the buffer while more data is polled.

* `Asks`: the buffers with which the splitter polls its inner stream.
* `asks_new_iff`: they are the incomplete events after each of the polls before.
* `prefixes_iff_pieces`: from the prefixes of some bytes to their events.
* `delivers_iff`: when no buffer holds a complete event, for one chunking and for every
  chunking of a stream.
* `not_forall_delivers`: a buffer can hold a complete event.
-/

namespace Melis.Client

/-! ## Polls of the inner stream -/

/-- The buffers with which the loop of one `poll_next` polls the inner stream (lines
    258–289). -/
def askedBuffers (inner : List BodyPoll) (buffer : List UInt8) : List (List UInt8) :=
  match findDoubleNewline buffer with
  | some _ => []
  | none =>
    match inner with
    | .chunk chunk :: inner => buffer :: askedBuffers inner (buffer ++ chunk)
    | _ => [buffer]

/-- Polled again and again, the splitter polls its inner stream with this buffer. -/
inductive Asks : SseChunkSplitter → List UInt8 → Prop
  | now {s : SseChunkSplitter} {b : List UInt8} : b ∈ askedBuffers s.inner s.buffer → Asks s b
  | later {s s' : SseChunkSplitter} {r : Poll (Option Item)} {b : List UInt8} :
      s.pollNext = (r, s') → Asks s' b → Asks s b

section Asks

variable {inner : List BodyPoll} {buffer b : List UInt8}

theorem askedBuffers_of_some {f r : List UInt8} (h : cutEvent buffer = some (f, r)) :
    askedBuffers inner buffer = [] := by
  obtain ⟨pos, hpos, -⟩ := Option.map_eq_some_iff.mp h
  rw [askedBuffers.eq_def, hpos]

theorem mem_askedBuffers (h : cutEvent buffer = none) : buffer ∈ askedBuffers inner buffer := by
  rw [askedBuffers.eq_def, findDoubleNewline_of_cutEvent h]
  dsimp only
  split <;> exact List.mem_cons_self

theorem askedBuffers_chunk (h : cutEvent buffer = none) (chunk : List UInt8) :
    askedBuffers (.chunk chunk :: inner) buffer =
      buffer :: askedBuffers inner (buffer ++ chunk) := by
  rw [askedBuffers.eq_def, findDoubleNewline_of_cutEvent h]

theorem remainder_of_none (h : cutEvent buffer = none) : remainder buffer = buffer := by
  rw [remainder, sseCutter.frames_of_none h]

/-- A complete event in front does not matter for what is incomplete. -/
theorem remainder_of_some {f r : List UInt8} (h : cutEvent buffer = some (f, r))
    (y : List UInt8) : remainder (buffer ++ y) = remainder (r ++ y) := by
  rw [remainder, sseCutter.frames_of_some (sseCutter.append y h)]
  rfl

theorem bytesOf_append (pre post : List BodyPoll) :
    bytesOf (pre ++ post) = bytesOf pre ++ bytesOf post := List.flatMap_append

/-- One poll asks with incomplete events. -/
theorem exists_prefix_of_mem_askedBuffers (h : b ∈ askedBuffers inner buffer) :
    ∃ pre, pre <+: inner ∧ b = remainder (buffer ++ bytesOf pre) := by
  have hself : ∀ {inner : List BodyPoll} {buffer : List UInt8}, cutEvent buffer = none →
      ∃ pre, pre <+: inner ∧ buffer = remainder (buffer ++ bytesOf pre) := by
    intro inner buffer hcut
    exact ⟨[], List.nil_prefix, by rw [bytesOf, List.flatMap_nil, List.append_nil,
      remainder_of_none hcut]⟩
  induction inner generalizing buffer with
  | nil =>
    cases hcut : cutEvent buffer with
    | some p => rw [askedBuffers_of_some hcut] at h; cases h
    | none =>
      rw [askedBuffers.eq_def, findDoubleNewline_of_cutEvent hcut] at h
      obtain rfl := List.mem_singleton.mp h
      exact hself hcut
  | cons x inner ih =>
    cases hcut : cutEvent buffer with
    | some p => rw [askedBuffers_of_some hcut] at h; cases h
    | none =>
      cases x with
      | chunk chunk =>
        rw [askedBuffers_chunk hcut] at h
        rcases List.mem_cons.mp h with rfl | h
        · exact hself hcut
        · obtain ⟨pre, hpre, hb⟩ := ih h
          refine ⟨.chunk chunk :: pre, List.prefix_cons_inj _ |>.mpr hpre, ?_⟩
          rw [bytesOf_chunk, ← List.append_assoc]
          exact hb
      | pending | error _ =>
        rw [askedBuffers.eq_def, findDoubleNewline_of_cutEvent hcut] at h
        obtain rfl := List.mem_singleton.mp h
        exact hself hcut

/-- One poll takes polls from the inner stream and leaves what is incomplete as it is,
    unless it is the last one. -/
theorem pollLoop_rest {r : Poll (Option Item)} {s : SseChunkSplitter}
    (h : pollLoop inner buffer = (r, s)) :
    s = ⟨[], []⟩ ∨ ∃ pre, inner = pre ++ s.inner ∧
      ∀ y, remainder (s.buffer ++ y) = remainder (buffer ++ bytesOf pre ++ y) := by
  have hevent : ∀ {inner : List BodyPoll} {buffer f rest : List UInt8},
      cutEvent buffer = some (f, rest) → pollLoop inner buffer = (r, s) →
      ∃ pre, inner = pre ++ s.inner ∧
        ∀ y, remainder (s.buffer ++ y) = remainder (buffer ++ bytesOf pre ++ y) := by
    intro inner buffer f rest hcut h
    rw [pollLoop_event hcut] at h
    obtain ⟨-, rfl⟩ := Prod.mk.inj h
    refine ⟨[], rfl, fun y => ?_⟩
    rw [bytesOf, List.flatMap_nil, List.append_nil, remainder_of_some hcut]
  induction inner generalizing buffer with
  | nil =>
    cases hcut : cutEvent buffer with
    | some p => exact .inr (hevent hcut h)
    | none =>
      rw [pollLoop.eq_def, findDoubleNewline_of_cutEvent hcut] at h
      dsimp only at h
      split_ifs at h <;> exact .inl (Prod.mk.inj h).2.symm
  | cons x inner ih =>
    cases hcut : cutEvent buffer with
    | some p => exact .inr (hevent hcut h)
    | none =>
      rw [pollLoop.eq_def, findDoubleNewline_of_cutEvent hcut] at h
      cases x with
      | chunk chunk =>
        refine (ih h).imp_right ?_
        rintro ⟨pre, hinner, hrest⟩
        refine ⟨.chunk chunk :: pre, by rw [hinner, List.cons_append], fun y => ?_⟩
        rw [hrest, bytesOf_chunk, List.append_assoc buffer]
      | pending | error _ =>
        obtain ⟨-, rfl⟩ := Prod.mk.inj h
        exact .inr ⟨[_], rfl, fun y => by simp [bytesOf]⟩

/-- Whatever is asked with is an incomplete event, or nothing. -/
theorem Asks.exists_prefix {s : SseChunkSplitter} (h : Asks s b) :
    b = [] ∨ ∃ pre, pre <+: s.inner ∧ b = remainder (s.buffer ++ bytesOf pre) := by
  induction h with
  | now h => exact .inr (exists_prefix_of_mem_askedBuffers h)
  | later hpoll _ ih =>
    rcases ih with hnil | ⟨pre, hpre, hb⟩
    · exact .inl hnil
    rcases pollLoop_rest hpoll with rfl | ⟨taken, hinner, hrest⟩
    · -- the stream is over
      obtain rfl := List.prefix_nil.mp hpre
      exact .inl (hb.trans (remainder_of_none rfl))
    · refine .inr ⟨taken ++ pre, ?_, ?_⟩
      · rw [hinner]
        exact List.prefix_append_right_inj taken |>.mpr hpre
      · rw [hb, hrest, bytesOf_append, List.append_assoc]

/-- A chunk goes into the buffer. -/
theorem asks_chunk {chunk : List UInt8} (hcut : cutEvent buffer = none)
    (h : Asks ⟨inner, buffer ++ chunk⟩ b) : Asks ⟨.chunk chunk :: inner, buffer⟩ b := by
  have hpoll : pollLoop (.chunk chunk :: inner) buffer = pollLoop inner (buffer ++ chunk) := by
    rw [pollLoop.eq_def, findDoubleNewline_of_cutEvent hcut]
  cases h with
  | now h => exact .now (by rw [askedBuffers_chunk hcut]; exact List.mem_cons_of_mem _ h)
  | later hnext h => exact .later (hpoll.trans hnext) h

/-- Every incomplete event after some polls is asked with. -/
theorem asks_remainder {pre : List BodyPoll} (h : pre <+: inner) (buffer : List UInt8) :
    Asks ⟨inner, buffer⟩ (remainder (buffer ++ bytesOf pre)) := by
  induction inner generalizing pre buffer with
  | nil =>
    obtain rfl := List.prefix_nil.mp h
    induction buffer using sseCutter.induction with
    | hnone x hx =>
      rw [bytesOf, List.flatMap_nil, List.append_nil, remainder_of_none hx]
      exact .now (mem_askedBuffers hx)
    | hsome x f r hx ih =>
      rw [remainder_of_some hx]
      exact .later (pollLoop_event hx) ih
  | cons x inner ihinner =>
    induction buffer using sseCutter.induction with
    | hsome y f r hy ih =>
      rw [remainder_of_some hy]
      exact .later (pollLoop_event hy) ih
    | hnone y hy =>
      rcases List.prefix_cons_iff.mp h with rfl | ⟨pre, rfl, hpre⟩
      · rw [bytesOf, List.flatMap_nil, List.append_nil, remainder_of_none hy]
        exact .now (mem_askedBuffers hy)
      cases x with
      | chunk chunk =>
        rw [bytesOf_chunk, ← List.append_assoc]
        exact asks_chunk hy (ihinner hpre (y ++ chunk))
      | pending =>
        have hpoll : pollLoop (.pending :: inner) y = (.pending, ⟨inner, y⟩) := by
          rw [pollLoop.eq_def, findDoubleNewline_of_cutEvent hy]
        exact .later hpoll (ihinner hpre y)
      | error e =>
        have hpoll : pollLoop (.error e :: inner) y =
            (.ready (some (.error (.streamError e))), ⟨inner, y⟩) := by
          rw [pollLoop.eq_def, findDoubleNewline_of_cutEvent hy]
        exact .later hpoll (ihinner hpre y)

/-- **The buffers.** A new splitter polls its inner stream with the incomplete event
    that the polls before have left. -/
theorem asks_new_iff :
    Asks (.new inner) b ↔ ∃ pre, pre <+: inner ∧ b = remainder (bytesOf pre) := by
  constructor
  · intro h
    rcases h.exists_prefix with rfl | hpre
    · exact ⟨[], List.nil_prefix, (remainder_of_none rfl).symm⟩
    · exact hpre
  · rintro ⟨pre, hpre, rfl⟩
    exact asks_remainder hpre []

end Asks

/-! ## Blank lines -/

/-- A blank line that ends in `\r\n`, with the newline before it. -/
def crlfBlankLine : List UInt8 := [10, 13, 10]

/-- A line ends and a blank line follows: an event is complete. -/
def HasBlankLine (buffer : List UInt8) : Prop :=
  delimiter <:+: buffer ∨ crlfBlankLine <:+: buffer

/-- Every line ends in `\n` or `\r\n`: a carriage return comes before a newline. -/
def LinesEnd (b : List UInt8) : Prop :=
  ∀ i < b.length, b[i]? = some 13 → b[i + 1]? = some 10

instance (b : List UInt8) : Decidable (LinesEnd b) :=
  inferInstanceAs (Decidable (∀ i < b.length, b[i]? = some 13 → b[i + 1]? = some 10))

/-- More data is polled only with a buffer that holds no complete event. -/
def Delivers (inner : List BodyPoll) : Prop :=
  ∀ buffer, Asks (.new inner) buffer → ¬ HasBlankLine buffer

/-- Of the two blank lines, only the one that ends in `\r\n` is missed. -/
theorem hasBlankLine_remainder_iff (b : List UInt8) :
    HasBlankLine (remainder b) ↔ crlfBlankLine <:+: remainder b :=
  or_iff_right (not_delimiter_remainder b)

theorem delivers_iff_prefixes (inner : List BodyPoll) :
    Delivers inner ↔ ∀ pre, pre <+: inner → ¬ crlfBlankLine <:+: remainder (bytesOf pre) := by
  constructor
  · intro h pre hpre hblank
    exact h _ (asks_new_iff.mpr ⟨pre, hpre, rfl⟩) ((hasBlankLine_remainder_iff _).mpr hblank)
  · intro h buffer hasks hblank
    obtain ⟨pre, hpre, rfl⟩ := asks_new_iff.mp hasks
    exact h pre hpre ((hasBlankLine_remainder_iff _).mp hblank)

/-! ## Every chunking of a stream -/

section Pieces

variable {x p f r : List UInt8}

/-- A prefix of bytes without a complete event has none. -/
theorem cutEvent_of_isPrefix (h : p <+: x) (hx : cutEvent x = none) : cutEvent p = none := by
  obtain ⟨y, rfl⟩ := h
  cases hp : cutEvent p with
  | none => rfl
  | some q =>
    have := sseCutter.append y hp
    rw [show sseCutter.cut (p ++ y) = none from hx] at this
    cases this

/-- An event is cut as soon as it is complete, and not before. -/
theorem cutEvent_of_prefix_event (hx : cutEvent x = some (f, r)) (hp : p <+: f) (hne : p ≠ f) :
    cutEvent p = none := by
  obtain ⟨pre, rfl, -, hpre⟩ := exists_of_cutEvent hx
  obtain ⟨y, hy⟩ := hp
  obtain ⟨y, last, rfl⟩ := (List.eq_nil_or_concat' y).resolve_left fun hnil => by
    rw [hnil, List.append_nil] at hy
    exact hne hy
  have hsplit : (p ++ y) ++ [last] = (pre ++ [10]) ++ [10] := by
    simpa [delimiter] using hy
  obtain ⟨hinit, -⟩ := List.append_inj' hsplit rfl
  refine Option.map_eq_none_iff.mpr (findDoubleNewline_eq_none_iff.mpr fun hinfix => hpre ?_)
  exact hinfix.trans ⟨[], y, by rw [List.nil_append, hinit]⟩

theorem cutEvent_event (hx : cutEvent x = some (f, r)) (y : List UInt8) :
    cutEvent (f ++ y) = some (f, y) := by
  obtain ⟨pre, rfl, -, hpre⟩ := exists_of_cutEvent hx
  exact cutEvent_append hpre y

theorem splitEvents_of_some (hx : cutEvent x = some (f, r)) :
    splitEvents x = f :: splitEvents r := by
  rw [splitEvents, sseCutter.frames_of_some hx]
  rfl

theorem splitEvents_of_none (hx : cutEvent x = none) :
    splitEvents x = if x.isEmpty then [] else [x] := by
  rw [splitEvents, sseCutter.frames_of_none hx]
  rfl

/-- A blank line inside an event is there before the event is complete. -/
theorem exists_prefix_of_event (hx : cutEvent x = some (f, r)) (h : crlfBlankLine <:+: f) :
    ∃ p, p <+: f ∧ p ≠ f ∧ crlfBlankLine <:+: p := by
  obtain ⟨pre, rfl, -, -⟩ := exists_of_cutEvent hx
  obtain ⟨u, v, huv⟩ := h
  refine ⟨u ++ crlfBlankLine, ⟨v, huv⟩, fun heq => ?_, ⟨u, [], List.append_nil _⟩⟩
  have hends : (u ++ [10]) ++ [13, 10] = pre ++ [10, 10] := by
    simpa [crlfBlankLine, delimiter] using heq
  exact absurd (List.append_inj' hends rfl).2 (by decide)

/-- Some prefix of the bytes leaves a `\r\n` blank line exactly if it is in one of their
    events. -/
theorem prefixes_iff_pieces (b : List UInt8) :
    (∀ p, p <+: b → ¬ crlfBlankLine <:+: remainder p) ↔
      ∀ piece ∈ splitEvents b, ¬ crlfBlankLine <:+: piece := by
  induction b using sseCutter.induction with
  | hnone x hx =>
    rw [splitEvents_of_none hx]
    constructor
    · intro h piece hpiece
      split_ifs at hpiece with hempty
      · cases hpiece
      · obtain rfl := List.mem_singleton.mp hpiece
        have := h piece (List.prefix_refl piece)
        rwa [remainder_of_none hx] at this
    · intro h p hp hblank
      rw [remainder_of_none (cutEvent_of_isPrefix hp hx)] at hblank
      have hxblank := hblank.trans hp.isInfix
      have hne : x.isEmpty = false := by
        rw [← Bool.not_eq_true, List.isEmpty_iff]
        rintro rfl
        exact absurd hxblank.length_le (by decide)
      rw [hne] at h
      exact h x (List.mem_singleton_self x) hxblank
  | hsome x f r hx ih =>
    have hsplit : x = f ++ r := sseCutter.split hx
    have hrest : ∀ q, remainder (f ++ q) = remainder q := fun q => by
      have := remainder_of_some (cutEvent_event hx []) q
      rwa [List.append_nil, List.nil_append] at this
    rw [splitEvents_of_some hx, List.forall_mem_cons, ← ih]
    constructor
    · refine fun h => ⟨fun hblank => ?_, fun q hq => ?_⟩
      · obtain ⟨p, hp, hne, hpblank⟩ := exists_prefix_of_event hx hblank
        refine h p (hp.trans (hsplit ▸ List.prefix_append f r)) ?_
        rwa [remainder_of_none (cutEvent_of_prefix_event hx hp hne)]
      · rw [← hrest]
        refine h (f ++ q) ?_
        rw [hsplit]
        exact List.prefix_append_right_inj f |>.mpr hq
    · rintro ⟨hf, hr⟩ p hp
      rw [hsplit] at hp
      rcases List.prefix_or_prefix_of_prefix hp (List.prefix_append f r) with hp | ⟨q, rfl⟩
      · by_cases hpf : p = f
        · subst hpf
          have := hr [] List.nil_prefix
          rwa [← hrest, List.append_nil] at this
        · rw [remainder_of_none (cutEvent_of_prefix_event hx hp hpf)]
          exact fun hblank => hf (hblank.trans hp.isInfix)
      · rw [hrest]
        exact hr q (List.prefix_append_right_inj f |>.mp hp)

end Pieces

theorem bytesOf_isPrefix {pre inner : List BodyPoll} (h : pre <+: inner) :
    bytesOf pre <+: bytesOf inner := by
  obtain ⟨post, rfl⟩ := h
  rw [bytesOf_append]
  exact List.prefix_append _ _

/-- Every prefix of the bytes can be what has arrived. -/
theorem forall_chunkings_iff (b : List UInt8) :
    (∀ inner, bytesOf inner = b → Delivers inner) ↔
      ∀ p, p <+: b → ¬ crlfBlankLine <:+: remainder p := by
  constructor
  · rintro h p ⟨rest, rfl⟩
    have hdelivers : Delivers [.chunk p, .chunk rest] := h _ (by simp [bytesOf])
    have := (delivers_iff_prefixes _).mp hdelivers [.chunk p] ⟨[.chunk rest], rfl⟩
    rwa [bytesOf_chunk, bytesOf, List.flatMap_nil, List.append_nil] at this
  · rintro h inner rfl
    exact (delivers_iff_prefixes inner).mpr fun pre hpre => h _ (bytesOf_isPrefix hpre)

/-- **Incremental delivery.** For one chunking of a stream, no buffer holds a complete
    event when more data is polled exactly if after none of the chunks the bytes since
    the last `\n\n` have a blank line that ends in `\r\n`; for every chunking, exactly
    if the stream has no such blank line between two `\n\n`. -/
theorem delivers_iff (b : List UInt8) :
    (∀ inner, bytesOf inner = b →
      (Delivers inner ↔
        ∀ pre, pre <+: inner → ¬ crlfBlankLine <:+: remainder (bytesOf pre))) ∧
    ((∀ inner, bytesOf inner = b → Delivers inner) ↔
      ∀ piece ∈ splitEvents b, ¬ crlfBlankLine <:+: piece) :=
  ⟨fun inner _ => delivers_iff_prefixes inner,
    (forall_chunkings_iff b).trans (prefixes_iff_pieces b)⟩

/-! ## A stream with `\r\n` -/

/-- The event `data: a`, with lines that end in `\r\n`. -/
def crlfEvent : List UInt8 := [100, 97, 116, 97, 58, 32, 97, 13, 10, 13, 10]

/-- The event is complete, and the splitter waits for more. -/
theorem not_forall_delivers : ¬ ∀ inner, LinesEnd (bytesOf inner) → Delivers inner := by
  intro h
  have hdelivers := h [.chunk crlfEvent, .pending] (by decide)
  have hasks : Asks (.new [.chunk crlfEvent, .pending]) crlfEvent := .now (by decide)
  exact hdelivers crlfEvent hasks (.inr ⟨[100, 97, 116, 97, 58, 32, 97, 13], [], rfl⟩)

end Melis.Client
