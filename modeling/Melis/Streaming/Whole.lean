import Melis.Streaming.Model
import Melis.Transpiler.Factory

/-!
# A stream is translated as a whole

The upstream's body arrives in chunks, is cut into events and translated event by
event. What the client gets is nevertheless one pass over the lines of the body:
no event ends inside a character or a line.

* `processLines_append`: lines after lines.
* `stream_whole`: the events that the client gets, for any chunks.
-/

namespace Melis.Streaming

open Transpiler Client

section Whole

variable {J : SerdeJson} {translateChunk : Value → Except TranspilerError Value}

/-- What the client gets for these lines and nothing more. -/
def finish (r : List String × Bool) : List String := if r.2 then r.1 else r.1 ++ ["[DONE]"]

/-- The body decoded and translated in one pass. -/
def translateWhole (J : SerdeJson) (translateChunk : Value → Except TranspilerError Value)
    (bytes : List UInt8) : List String :=
  finish (processLines J translateChunk (Text.lines (fromUtf8Lossy bytes)))

theorem processLines_append (xs ys : List String) :
    processLines J translateChunk (xs ++ ys) =
      if (processLines J translateChunk xs).2 then processLines J translateChunk xs
      else ((processLines J translateChunk xs).1 ++ (processLines J translateChunk ys).1,
        (processLines J translateChunk ys).2) := by
  induction xs with
  | nil => rfl
  | cons line xs ih =>
    rw [List.cons_append, processLines, processLines]
    cases processLine J translateChunk line with
    | skip => exact ih
    | event data =>
      dsimp only
      rw [ih]
      split_ifs <;> rfl
    | done => rfl

/-- The lines of an item. -/
def itemLines (bytes : List UInt8) : List String := Text.lines (fromUtf8Lossy bytes)

/-- Items with bytes are translated as their lines, up to the end or an error. -/
theorem transformSseStream_items (items : List (List UInt8))
    {rest : List (Except StreamError (List UInt8))}
    (hrest : transformSseStream J translateChunk rest = ["[DONE]"]) :
    transformSseStream J translateChunk (items.map .ok ++ rest) =
      finish (processLines J translateChunk (items.flatMap itemLines)) := by
  induction items with
  | nil => exact hrest
  | cons bytes items ih =>
    rw [List.map_cons, List.cons_append, transformSseStream, List.flatMap_cons,
      processLines_append, ih]
    change (if (processLines J translateChunk (itemLines bytes)).2 then _ else _) = _
    unfold itemLines finish
    split_ifs with hdone
    · rfl
    · rfl
    · exact (List.append_assoc ..).symm

/-- An event and the lines after it. -/
theorem itemLines_append {event : List UInt8} (h : delimiter <:+ event) (rest : List UInt8) :
    itemLines (event ++ rest) = itemLines event ++ itemLines rest := by
  obtain ⟨pre, rfl⟩ := h
  have hsplit : pre ++ delimiter ++ rest = (pre ++ [10]) ++ 10 :: rest := by simp [delimiter]
  have hevent : pre ++ delimiter = (pre ++ [10]) ++ 10 :: [] := by simp [delimiter]
  have hempty : fromUtf8Lossy [] = "" := by simp [fromUtf8Lossy, lossyChars]
  rw [itemLines, hsplit, fromUtf8Lossy_newline (pre ++ [10]), Text.lines_newline, itemLines,
    hevent, fromUtf8Lossy_newline (pre ++ [10]), hempty, String.append_empty]
  rfl

theorem delimiter_suffix_of_mem {b event : List UInt8} (h : event ∈ completeEvents b) :
    delimiter <:+ event := by
  obtain ⟨y, r, hcut⟩ := sseCutter.exists_cut_of_mem_frames b event h
  obtain ⟨pre, rfl, -, -⟩ := exists_of_cutEvent hcut
  exact List.suffix_append pre delimiter

theorem itemLines_flatten {events : List (List UInt8)} (h : ∀ event ∈ events, delimiter <:+ event)
    (rest : List UInt8) :
    itemLines (events.flatten ++ rest) = events.flatMap itemLines ++ itemLines rest := by
  induction events with
  | nil => rfl
  | cons event events ih =>
    rw [List.flatten_cons, List.append_assoc, itemLines_append (h event List.mem_cons_self),
      ih fun e he => h e (List.mem_cons_of_mem _ he), List.flatMap_cons, List.append_assoc]

theorem itemLines_nil : itemLines [] = [] := by
  simp [itemLines, fromUtf8Lossy, lossyChars, Text.lines, Text.splitInclusive]

/-- The lines of the events and the remainder are those of the bytes. -/
theorem flatMap_splitEvents (b : List UInt8) : (splitEvents b).flatMap itemLines = itemLines b := by
  have hsplit : (completeEvents b).flatten ++ remainder b = b := sseCutter.frames_flatten b
  have hlines := itemLines_flatten (fun _ => delimiter_suffix_of_mem (b := b)) (remainder b)
  rw [hsplit] at hlines
  rw [splitEvents_eq, List.flatMap_append, hlines]
  split_ifs with hempty
  · rw [List.isEmpty_iff.mp hempty, itemLines_nil]
    rfl
  · rw [List.flatMap_singleton]

theorem flatMap_completeEvents (b : List UInt8) :
    (completeEvents b).flatMap itemLines = itemLines (completeEvents b).flatten := by
  have hlines := itemLines_flatten (fun _ => delimiter_suffix_of_mem (b := b)) []
  rw [List.append_nil, itemLines_nil, List.append_nil] at hlines
  exact hlines.symm

theorem providerStream_ok_append (items : List (List UInt8)) (rest : List Item) :
    providerStream (items.map .ok ++ rest) = items.map .ok ++ providerStream rest := by
  rw [providerStream, List.map_append, List.map_map]
  rfl

/-- **One pass.** However the network cuts the upstream's body into chunks, and
    whenever it lets the gateway wait, the client gets what one pass over the lines
    of the decoded body gives: characters and lines that were cut are whole again.
    If the body breaks off, the client gets that of the events complete by then. -/
theorem stream_whole (J : SerdeJson) (translateChunk : Value → Except TranspilerError Value)
    {inner : List BodyPoll} {items : List Item} (h : Yields (.new inner) items) :
    (Intact inner → transformSseStream J translateChunk (providerStream items) =
        translateWhole J translateChunk (bytesOf inner)) ∧
      ∀ pre e post, inner = pre ++ .error e :: post → Intact pre →
        transformSseStream J translateChunk (providerStream items) =
          translateWhole J translateChunk (completeEvents (bytesOf pre)).flatten := by
  refine ⟨fun hintact => ?_, ?_⟩
  · rw [(yields_iff hintact items).mp h, ← List.append_nil (List.map _ _), providerStream_ok_append,
      transformSseStream_items _ rfl, flatMap_splitEvents]
    rfl
  · rintro pre e post rfl hintact
    obtain ⟨rest, hrest⟩ := exists_yields post (remainder ([] ++ bytesOf pre))
    have hcut : cutEvent [] = none := sseCutter.cut_nil
    rw [h.unique (yields_broken hintact hcut hrest), providerStream_ok_append,
      transformSseStream_items _ rfl, List.nil_append, flatMap_completeEvents]
    rfl

end Whole

/-- An event whose text is one character of two bytes. -/
def accented : Value := .json [("text", .string "é")]

/-- The body with this event, cut inside the character. -/
def cutInside : List BodyPoll :=
  [.chunk (utf8 "data: \x7b\"text\":\"" ++ [0xC3]), .pending, .chunk (0xA9 :: utf8 "\"\x7d\n\n")]

/-- The client gets the event with its character. -/
theorem stream_whole_cut :
    ∃ items, Yields (.new cutInside) items ∧
      transformSseStream (.ofTable [accented]) openAi.translateChunk (providerStream items) =
        ["\x7b\"text\":\"é\"\x7d", "[DONE]"] := by
  obtain ⟨items, hitems⟩ := exists_yields cutInside []
  refine ⟨items, hitems, ((stream_whole (.ofTable [accented]) openAi.translateChunk hitems).1
    fun x hx e => ?_).trans (by decide +kernel)⟩
  fin_cases hx <;> simp

end Melis.Streaming
