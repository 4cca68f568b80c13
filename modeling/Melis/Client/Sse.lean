import Melis.Client.Model
import Melis.Lib.Framing

/-!
# Splitting a byte stream into SSE events (`client.rs`)

`SseChunkSplitter` buffers the chunks of a response body and yields the bytes up
to and including each `\n\n`, then what is left. The inner stream is the list of
what its polls report; at its end it reports `None` for good.

* `exists_of_findDoubleNewline`: the position of the first `\n\n`.
* `sseCutter`: the splitter cuts frames off its buffer.
* `yields_iff`: what the splitter yields, for any chunks.
* `splitter_items`: the items depend on the bytes only.
-/

namespace Melis.Client

/-! ## The splitter -/

/-- `std::task::Poll`. -/
inductive Poll (α : Type*) where
  | ready (value : α)
  | pending
deriving DecidableEq

/-- What one poll of the response body reports, before its end. -/
inductive BodyPoll where
  | chunk (bytes : List UInt8)
  | error (message : String)
  | pending
deriving DecidableEq

/-- `SseChunkSplitter` (lines 232–235). -/
structure SseChunkSplitter where
  inner : List BodyPoll
  buffer : List UInt8
deriving DecidableEq

/-- `SseChunkSplitter::new` (lines 238–243). -/
def SseChunkSplitter.new (inner : List BodyPoll) : SseChunkSplitter where
  inner := inner
  buffer := []

/-- `find_double_newline` (lines 296–298): `windows(2)` are the pairs of
    neighbours. -/
def findDoubleNewline (buf : List UInt8) : Option ℕ :=
  (buf.zip buf.tail).findIdx? fun w => w == (10, 10)

/-- An item of the stream. -/
abbrev Item := Except ClientError (List UInt8)

/-- The loop of `poll_next` (lines 258–289). -/
def pollLoop (inner : List BodyPoll) (buffer : List UInt8) :
    Poll (Option Item) × SseChunkSplitter :=
  match findDoubleNewline buffer with
  | some pos => (.ready (some (.ok (buffer.take (pos + 2)))), ⟨inner, buffer.drop (pos + 2)⟩)
  | none =>
    match inner with
    | .chunk chunk :: inner => pollLoop inner (buffer ++ chunk)
    | .error e :: inner => (.ready (some (.error (.streamError e))), ⟨inner, buffer⟩)
    | [] =>
      if buffer.isEmpty then (.ready none, ⟨[], []⟩)
      else (.ready (some (.ok buffer)), ⟨[], []⟩)
    | .pending :: inner => (.pending, ⟨inner, buffer⟩)

/-- `poll_next` (lines 252–290). -/
def SseChunkSplitter.pollNext (s : SseChunkSplitter) : Poll (Option Item) × SseChunkSplitter :=
  pollLoop s.inner s.buffer

/-- Polled until the end of the stream, and again whenever it was pending, the
    splitter yields `items`. -/
inductive Yields : SseChunkSplitter → List Item → Prop
  | done {s s' : SseChunkSplitter} : s.pollNext = (.ready none, s') → Yields s []
  | item {s s' : SseChunkSplitter} {x : Item} {items : List Item} :
      s.pollNext = (.ready (some x), s') → Yields s' items → Yields s (x :: items)
  | pending {s s' : SseChunkSplitter} {items : List Item} :
      s.pollNext = (.pending, s') → Yields s' items → Yields s items

/-! ## The first double newline -/

theorem findDoubleNewline_cons (a : UInt8) (buf : List UInt8) :
    findDoubleNewline (a :: buf) =
      if a = 10 ∧ buf.head? = some 10 then some 0 else (findDoubleNewline buf).map (· + 1) := by
  match buf with
  | [] => simp [findDoubleNewline]
  | b :: buf =>
    simp only [findDoubleNewline, List.tail_cons, List.zip_cons_cons, List.findIdx?_cons,
      List.head?_cons, Option.some.injEq]
    by_cases h : a = 10 ∧ b = 10
    · simp [h]
    · simp [h]

/-- The two bytes between events. -/
def delimiter : List UInt8 := [10, 10]

theorem delimiter_infix_cons_iff {a : UInt8} {buf : List UInt8} :
    delimiter <:+: a :: buf ↔ (a = 10 ∧ buf.head? = some 10) ∨ delimiter <:+: buf := by
  rw [ List.infix_cons_iff, delimiter]
  refine or_congr_left ?_
  match buf with
  | [] => simp
  | b :: buf => simp [eq_comm]

/-- Bytes without a newline do not touch a delimiter after them. -/
theorem delimiter_infix_append_iff {line : List UInt8} (h : 10 ∉ line) (rest : List UInt8) :
    delimiter <:+: line ++ rest ↔ delimiter <:+: rest := by
  induction line with
  | nil => rfl
  | cons a line ih =>
    rw [List.mem_cons, not_or] at h
    rw [List.cons_append, delimiter_infix_cons_iff, ih h.2]
    exact or_iff_right fun hfirst => h.1 hfirst.1.symm

theorem findDoubleNewline_eq_none_iff {buf : List UInt8} :
    findDoubleNewline buf = none ↔ ¬ delimiter <:+: buf := by
  induction buf with
  | nil => simp [findDoubleNewline, delimiter]
  | cons a buf ih =>
    rw [findDoubleNewline_cons, delimiter_infix_cons_iff, not_or, ← ih]
    split_ifs with h
    · simp [h]
    · simp [h]

/-- The first `\n\n` comes after `pre`. -/
theorem findDoubleNewline_append {pre : List UInt8} (h : ¬ delimiter <:+: pre ++ [10])
    (post : List UInt8) : findDoubleNewline (pre ++ delimiter ++ post) = some pre.length := by
  induction pre with
  | nil =>
    rw [List.nil_append, delimiter, List.cons_append, findDoubleNewline_cons, if_pos (by simp)]
    rfl
  | cons a pre ih =>
    rw [List.cons_append, delimiter_infix_cons_iff, not_or] at h
    have hhead : (pre ++ delimiter ++ post).head? = (pre ++ [10]).head? := by
      cases pre <;> rfl
    rw [List.cons_append, List.cons_append, findDoubleNewline_cons, hhead, if_neg h.1, ih h.2]
    rfl

theorem exists_of_findDoubleNewline {buf : List UInt8} {pos : ℕ}
    (h : findDoubleNewline buf = some pos) :
    ∃ pre post, buf = pre ++ delimiter ++ post ∧ pre.length = pos ∧
      ¬ delimiter <:+: pre ++ [10] := by
  induction buf generalizing pos with
  | nil => simp [findDoubleNewline] at h
  | cons a buf ih =>
    rw [findDoubleNewline_cons] at h
    split_ifs at h with hfirst
    · obtain rfl := Option.some.inj h
      obtain ⟨rfl, hhead⟩ := hfirst
      obtain ⟨post, rfl⟩ := List.head?_eq_some_iff.mp hhead
      refine ⟨[], post, rfl, rfl, fun hinfix => ?_⟩
      have := hinfix.length_le
      simp [delimiter] at this
    · obtain ⟨pos', hpos', rfl⟩ := Option.map_eq_some_iff.mp h
      obtain ⟨pre, post, rfl, rfl, hpre⟩ := ih hpos'
      refine ⟨a :: pre, post, rfl, rfl, ?_⟩
      rw [List.cons_append, delimiter_infix_cons_iff, not_or]
      refine ⟨fun hcons => hfirst ⟨hcons.1, ?_⟩, hpre⟩
      rw [← hcons.2]
      cases pre <;> rfl

/-! ## Frames -/

/-- The event at the start of a buffer, up to and including its delimiter, and the
    rest. -/
def cutEvent (buffer : List UInt8) : Option (List UInt8 × List UInt8) :=
  (findDoubleNewline buffer).map fun pos => (buffer.take (pos + 2), buffer.drop (pos + 2))

theorem cutEvent_append {pre : List UInt8} (h : ¬ delimiter <:+: pre ++ [10])
    (post : List UInt8) : cutEvent (pre ++ delimiter ++ post) = some (pre ++ delimiter, post) := by
  have hlen : pre.length + 2 = (pre ++ delimiter).length := by simp [delimiter]
  rw [cutEvent, findDoubleNewline_append h, Option.map_some, hlen, List.take_left, List.drop_left]

theorem exists_of_cutEvent {x f r : List UInt8} (h : cutEvent x = some (f, r)) :
    ∃ pre, f = pre ++ delimiter ∧ x = f ++ r ∧ ¬ delimiter <:+: pre ++ [10] := by
  obtain ⟨pos, hpos, heq⟩ := Option.map_eq_some_iff.mp h
  obtain ⟨pre, post, rfl, rfl, hpre⟩ := exists_of_findDoubleNewline hpos
  have hcut := cutEvent_append hpre post
  rw [h] at hcut
  obtain ⟨rfl, rfl⟩ := Prod.mk.inj (Option.some.inj hcut)
  exact ⟨pre, rfl, rfl, hpre⟩

/-- The splitter as a cutter of events. -/
def sseCutter : Lib.Cutter UInt8 where
  cut := cutEvent
  split h := (exists_of_cutEvent h).choose_spec.2.1
  progress h := by
    obtain ⟨pre, rfl, -, -⟩ := exists_of_cutEvent h
    simp [delimiter]
  append y h := by
    obtain ⟨pre, rfl, rfl, hpre⟩ := exists_of_cutEvent h
    rw [List.append_assoc]
    exact cutEvent_append hpre _

/-- The complete events of some bytes. -/
def completeEvents (b : List UInt8) : List (List UInt8) := (sseCutter.frames b).1

/-- The complete events of some bytes, and the remainder if there is one. -/
def splitEvents (b : List UInt8) : List (List UInt8) :=
  let (events, rest) := sseCutter.frames b
  events ++ if rest.isEmpty then [] else [rest]

/-- The incomplete event at the end of some bytes. -/
def remainder (b : List UInt8) : List UInt8 := (sseCutter.frames b).2

theorem splitEvents_eq (b : List UInt8) :
    splitEvents b = completeEvents b ++ if (remainder b).isEmpty then [] else [remainder b] := rfl

theorem completeEvents_append (x y : List UInt8) :
    completeEvents (x ++ y) = completeEvents x ++ completeEvents (remainder x ++ y) := by
  rw [completeEvents, sseCutter.frames_append]
  rfl

theorem remainder_append (x y : List UInt8) :
    remainder (x ++ y) = remainder (remainder x ++ y) := by
  rw [remainder, sseCutter.frames_append]
  rfl

theorem splitEvents_append (x y : List UInt8) :
    splitEvents (x ++ y) = completeEvents x ++ splitEvents (remainder x ++ y) := by
  rw [splitEvents_eq, splitEvents_eq, completeEvents_append, remainder_append, List.append_assoc]

/-! ## What the splitter yields -/

/-- The bytes that the inner stream delivers. -/
def bytesOf (inner : List BodyPoll) : List UInt8 :=
  inner.flatMap fun
    | .chunk bytes => bytes
    | .error _ => []
    | .pending => []

/-- The inner stream does not fail. -/
def Intact (inner : List BodyPoll) : Prop := ∀ x ∈ inner, ∀ e, x ≠ .error e

section Polls

variable {inner : List BodyPoll} {buffer f r chunk : List UInt8} {items : List Item}
  {e : String}

theorem pollLoop_event (h : cutEvent buffer = some (f, r)) :
    pollLoop inner buffer = (.ready (some (.ok f)), ⟨inner, r⟩) := by
  obtain ⟨pos, hpos, heq⟩ := Option.map_eq_some_iff.mp h
  obtain ⟨rfl, rfl⟩ := Prod.mk.inj heq
  rw [pollLoop.eq_def, hpos]

theorem findDoubleNewline_of_cutEvent (h : cutEvent buffer = none) :
    findDoubleNewline buffer = none :=
  Option.map_eq_none_iff.mp h

theorem Yields.congr {s s' : SseChunkSplitter} (hsame : s.pollNext = s'.pollNext)
    (h : Yields s items) : Yields s' items := by
  cases h with
  | done hpoll => exact .done (hsame ▸ hpoll)
  | item hpoll hrest => exact .item (hsame ▸ hpoll) hrest
  | pending hpoll hrest => exact .pending (hsame ▸ hpoll) hrest

/-- What one poll leaves to be yielded. -/
theorem Yields.poll {s : SseChunkSplitter} (h : Yields s items) :
    match s.pollNext with
    | (.ready none, _) => items = []
    | (.ready (some x), s') => ∃ rest, items = x :: rest ∧ Yields s' rest
    | (.pending, s') => Yields s' items := by
  cases h with
  | done hpoll => rw [hpoll]
  | item hpoll hrest =>
    rw [hpoll]
    exact ⟨_, rfl, hrest⟩
  | pending hpoll hrest =>
    rw [hpoll]
    exact hrest

/-- What is yielded is determined by the inner stream. -/
theorem Yields.unique {s : SseChunkSplitter} {items' : List Item} (h : Yields s items)
    (h' : Yields s items') : items = items' := by
  induction h generalizing items' with
  | done hpoll =>
    have hnext := h'.poll
    rw [hpoll] at hnext
    exact hnext.symm
  | item hpoll _ ih =>
    have hnext := h'.poll
    rw [hpoll] at hnext
    obtain ⟨rest, rfl, hrest⟩ := hnext
    rw [ih hrest]
  | pending hpoll _ ih =>
    have hnext := h'.poll
    rw [hpoll] at hnext
    exact ih hnext

/-- The complete events in the buffer are yielded first. -/
theorem yields_events (buffer : List UInt8) (h : Yields ⟨inner, remainder buffer⟩ items) :
    Yields ⟨inner, buffer⟩ ((completeEvents buffer).map .ok ++ items) := by
  unfold completeEvents remainder at *
  induction buffer using sseCutter.induction with
  | hnone x hx =>
    rw [sseCutter.frames_of_none hx] at h ⊢
    exact h
  | hsome x f r hx ih =>
    rw [sseCutter.frames_of_some hx] at h ⊢
    exact .item (pollLoop_event hx) (ih h)

/-- A chunk goes into the buffer. -/
theorem yields_chunk (hbuffer : cutEvent buffer = none)
    (h : Yields ⟨inner, buffer ++ chunk⟩ items) : Yields ⟨.chunk chunk :: inner, buffer⟩ items := by
  refine h.congr ?_
  show pollLoop inner (buffer ++ chunk) = pollLoop (.chunk chunk :: inner) buffer
  rw [pollLoop.eq_def (.chunk chunk :: inner), findDoubleNewline_of_cutEvent hbuffer]

theorem yields_pending (hbuffer : cutEvent buffer = none) (h : Yields ⟨inner, buffer⟩ items) :
    Yields ⟨.pending :: inner, buffer⟩ items := by
  refine .pending ?_ h
  show pollLoop (.pending :: inner) buffer = _
  rw [pollLoop.eq_def, findDoubleNewline_of_cutEvent hbuffer]

theorem yields_failure (hbuffer : cutEvent buffer = none) (h : Yields ⟨inner, buffer⟩ items) :
    Yields ⟨.error e :: inner, buffer⟩ (.error (.streamError e) :: items) := by
  refine .item ?_ h
  show pollLoop (.error e :: inner) buffer = _
  rw [pollLoop.eq_def, findDoubleNewline_of_cutEvent hbuffer]

/-- At the end what is left is flushed. -/
theorem yields_end (hbuffer : cutEvent buffer = none) :
    Yields ⟨[], buffer⟩ ((splitEvents buffer).map .ok) := by
  have hframes : sseCutter.frames buffer = ([], buffer) := sseCutter.frames_of_none hbuffer
  have hloop : pollLoop [] buffer = if buffer.isEmpty then (.ready none, ⟨[], []⟩)
      else (.ready (some (.ok buffer)), ⟨[], []⟩) := by
    rw [pollLoop.eq_def, findDoubleNewline_of_cutEvent hbuffer]
  rw [splitEvents, hframes]
  dsimp only
  split_ifs with hempty
  · exact .done (hloop.trans (if_pos hempty))
  · exact .item (hloop.trans (if_neg hempty)) (.done rfl)

theorem bytesOf_chunk (chunk : List UInt8) (inner : List BodyPoll) :
    bytesOf (.chunk chunk :: inner) = chunk ++ bytesOf inner := rfl

theorem bytesOf_pending (inner : List BodyPoll) : bytesOf (.pending :: inner) = bytesOf inner := rfl

theorem Intact.tail {x : BodyPoll} (h : Intact (x :: inner)) : Intact inner :=
  fun y hy => h y (List.mem_cons_of_mem x hy)

theorem cutEvent_remainder (b : List UInt8) : cutEvent (remainder b) = none :=
  sseCutter.cut_frames_rest b

/-- From a buffer without a complete event, an intact stream yields the events of
    the bytes to come, and the remainder. -/
theorem yields_intact (hintact : Intact inner) (hbuffer : cutEvent buffer = none) :
    Yields ⟨inner, buffer⟩ ((splitEvents (buffer ++ bytesOf inner)).map .ok) := by
  induction inner generalizing buffer with
  | nil =>
    rw [bytesOf, List.flatMap_nil, List.append_nil]
    exact yields_end hbuffer
  | cons x inner ih =>
    match x with
    | .chunk chunk =>
      rw [bytesOf_chunk, ← List.append_assoc, splitEvents_append, List.map_append]
      exact yields_chunk hbuffer
        (yields_events _ (ih hintact.tail (cutEvent_remainder (buffer ++ chunk))))
    | .pending =>
      rw [bytesOf_pending]
      exact yields_pending hbuffer (ih hintact.tail hbuffer)
    | .error e => exact absurd rfl (hintact (.error e) List.mem_cons_self e)

/-- A stream that breaks off yields the complete events that came before, then the
    error. -/
theorem yields_broken {pre post : List BodyPoll} (hintact : Intact pre)
    (hbuffer : cutEvent buffer = none)
    (hrest : Yields ⟨post, remainder (buffer ++ bytesOf pre)⟩ items) :
    Yields ⟨pre ++ .error e :: post, buffer⟩
      ((completeEvents (buffer ++ bytesOf pre)).map .ok ++ .error (.streamError e) :: items) := by
  induction pre generalizing buffer with
  | nil =>
    have hframes : sseCutter.frames buffer = ([], buffer) := sseCutter.frames_of_none hbuffer
    rw [bytesOf, List.flatMap_nil, List.append_nil] at hrest ⊢
    rw [remainder, hframes] at hrest
    rw [completeEvents, hframes]
    exact yields_failure hbuffer hrest
  | cons x pre ih =>
    match x with
    | .chunk chunk =>
      rw [bytesOf_chunk, ← List.append_assoc] at hrest ⊢
      rw [remainder_append] at hrest
      rw [completeEvents_append, List.map_append, List.append_assoc, List.cons_append]
      exact yields_chunk hbuffer
        (yields_events _ (ih hintact.tail (cutEvent_remainder (buffer ++ chunk)) hrest))
    | .pending =>
      rw [bytesOf_pending] at hrest ⊢
      exact yields_pending hbuffer (ih hintact.tail hbuffer hrest)
    | .error e' => exact absurd rfl (hintact (.error e') List.mem_cons_self e')

/-- Every stream is polled to its end. -/
theorem exists_yields (inner : List BodyPoll) (buffer : List UInt8) :
    ∃ items, Yields ⟨inner, buffer⟩ items := by
  -- it is enough to start from a buffer without a complete event
  have hdrain : ∀ inner, (∀ buffer, cutEvent buffer = none →
      ∃ items, Yields ⟨inner, buffer⟩ items) → ∀ buffer, ∃ items, Yields ⟨inner, buffer⟩ items := by
    intro inner h buffer
    obtain ⟨items, hitems⟩ := h (remainder buffer) (cutEvent_remainder buffer)
    exact ⟨_, yields_events buffer hitems⟩
  induction inner generalizing buffer with
  | nil => exact hdrain [] (fun buffer h => ⟨_, yields_end h⟩) buffer
  | cons x inner ih =>
    refine hdrain (x :: inner) (fun buffer hbuffer => ?_) buffer
    match x with
    | .chunk chunk =>
      obtain ⟨items, hitems⟩ := ih (buffer ++ chunk)
      exact ⟨items, yields_chunk hbuffer hitems⟩
    | .pending =>
      obtain ⟨items, hitems⟩ := ih buffer
      exact ⟨items, yields_pending hbuffer hitems⟩
    | .error e =>
      obtain ⟨items, hitems⟩ := ih buffer
      exact ⟨_, yields_failure hbuffer hitems⟩

end Polls

/-- A new splitter yields exactly the events and the remainder of the bytes. -/
theorem yields_iff {inner : List BodyPoll} (hintact : Intact inner) (items : List Item) :
    Yields (.new inner) items ↔ items = (splitEvents (bytesOf inner)).map .ok := by
  have hyields : Yields (.new inner) ((splitEvents (bytesOf inner)).map .ok) :=
    yields_intact hintact rfl
  constructor
  · intro h
    exact h.unique hyields
  · rintro rfl
    exact hyields

/-- The item ends with its only delimiter. -/
def EndsOnce (item : List UInt8) : Prop :=
  delimiter <:+ item ∧ ∀ before after, item = before ++ delimiter ++ after → after = []

theorem endsOnce_of_mem {b f : List UInt8} (hf : f ∈ completeEvents b) : EndsOnce f := by
  obtain ⟨y, r, hcut⟩ := sseCutter.exists_cut_of_mem_frames b f hf
  obtain ⟨pre, rfl, -, hpre⟩ := exists_of_cutEvent hcut
  refine ⟨List.suffix_append _ _, fun before after h => ?_⟩
  -- a delimiter that ends earlier lies before the last newline
  by_contra hne
  obtain ⟨after', z, rfl⟩ := (List.eq_nil_or_concat' after).resolve_left hne
  have hsnoc : (pre ++ [10]) ++ [10] = (before ++ delimiter ++ after') ++ [z] := by
    simpa [delimiter] using h
  obtain ⟨hinit, -⟩ := List.append_inj' hsnoc rfl
  exact hpre ⟨before, after', hinit.symm⟩

theorem not_delimiter_remainder (b : List UInt8) : ¬ delimiter <:+: remainder b :=
  findDoubleNewline_eq_none_iff.mp (findDoubleNewline_of_cutEvent (cutEvent_remainder b))

theorem events_flatten (b : List UInt8) : (completeEvents b).flatten ++ remainder b = b :=
  sseCutter.frames_flatten b

theorem splitEvents_flatten (b : List UInt8) : (splitEvents b).flatten = b := by
  rw [splitEvents_eq, List.flatten_append]
  conv_rhs => rw [← events_flatten b]
  congr 1
  split_ifs with h
  · exact (List.isEmpty_iff.mp h).symm
  · simp

/-- **Splitting.** However the bytes `b` arrive in chunks, the splitter yields
    exactly the complete events of `b` and the remainder, if there is one:
    together they are `b`, each event ends with its only delimiter and there is
    none in the remainder. If the stream fails after some bytes, their complete
    events come before the error. -/
theorem splitter_items :
    (∀ inner, Intact inner → ∀ items,
      Yields (.new inner) items ↔ items = (splitEvents (bytesOf inner)).map .ok) ∧
    (∀ b, (splitEvents b).flatten = b ∧
      (splitEvents b = completeEvents b ++ if (remainder b).isEmpty then [] else [remainder b]) ∧
      (∀ f ∈ completeEvents b, EndsOnce f) ∧ ¬ delimiter <:+: remainder b) ∧
    (∀ before e after, Intact before →
      (∃ items, Yields (.new (before ++ .error e :: after)) items) ∧
      ∀ items, Yields (.new (before ++ .error e :: after)) items →
        ∃ rest, items =
          (completeEvents (bytesOf before)).map .ok ++ .error (.streamError e) :: rest) := by
  refine ⟨fun inner hintact items => yields_iff hintact items, fun b => ?_,
    fun before e after hintact => ⟨exists_yields _ _, fun items h => ?_⟩⟩
  · exact ⟨splitEvents_flatten b, splitEvents_eq b, fun f hf => endsOnce_of_mem hf,
      not_delimiter_remainder b⟩
  · obtain ⟨rest, hrest⟩ := exists_yields after (remainder (bytesOf before))
    have hyields : Yields (.new (before ++ .error e :: after))
        ((completeEvents (bytesOf before)).map .ok ++ .error (.streamError e) :: rest) :=
      yields_broken hintact rfl hrest
    exact ⟨rest, h.unique hyields⟩

/-- An event whose delimiter arrives in two chunks, an empty chunk and a remainder. -/
theorem splitter_items_straddling :
    Yields (.new [.chunk [97, 10], .pending, .chunk [], .chunk [10, 98]])
      [.ok [97, 10, 10], .ok [98]] := by
  have hintact : Intact [.chunk [97, 10], .pending, .chunk [], .chunk [10, 98]] := by
    intro x hx e
    fin_cases hx <;> simp
  refine (splitter_items.1 _ hintact _).mpr ?_
  have hcut : sseCutter.cut [97, 10, 10, 98] = some ([97, 10, 10], [98]) := by decide
  have hrest : sseCutter.cut [98] = none := by decide
  show _ = (splitEvents [97, 10, 10, 98]).map Except.ok
  rw [splitEvents, sseCutter.frames_of_some hcut, sseCutter.frames_of_none hrest]
  rfl

end Melis.Client
