import Melis.Common.Text

/-!
# Lines and trimming

`str::lines`, `str::trim` and the prefix tests, on the characters of a string.

* `lines_append`: the first line of a text, and the lines after it.
* `lines_newline`: the lines up to a newline, and the lines after it.
* `trimChars_concat`, `trimChars_cons_whitespace`: whitespace at the ends does not
  matter.
* `trim_line`: a line that starts with a key.
-/

namespace Melis.Text

/-- `str::starts_with` with a string pattern. -/
def startsWith (s pat : String) : Bool := decide (pat.toList <+: s.toList)

/-- `str::strip_prefix`. -/
def stripPrefix (s pat : String) : Option String :=
  if startsWith s pat then some (String.ofList (s.toList.drop pat.toList.length)) else none

/-- `str::trim` on characters. -/
def trimChars (cs : List Char) : List Char :=
  (cs.dropWhile isWhitespace).rdropWhile isWhitespace

/-- `str::trim`. -/
def trim (s : String) : String := String.ofList (trimChars s.toList)

/-- `str::split_inclusive('\n')` on characters. -/
def splitInclusive : List Char → List (List Char)
  | [] => []
  | c :: cs =>
    if c = '\n' then [c] :: splitInclusive cs
    else
      match splitInclusive cs with
      | [] => [[c]]
      | line :: lines => (c :: line) :: lines

/-- The line without its `\n` or `\r\n`. -/
def stripLineEnd (line : List Char) : List Char :=
  if line.getLast? = some '\n' then
    let line := line.dropLast
    if line.getLast? = some '\r' then line.dropLast else line
  else line

/-- `str::lines`. -/
def lines (s : String) : List String :=
  (splitInclusive s.toList).map fun line => String.ofList (stripLineEnd line)

/-! ## Prefixes -/

theorem stripPrefix_append (pat rest : String) : stripPrefix (pat ++ rest) pat = some rest := by
  have hprefix : startsWith (pat ++ rest) pat = true := by
    simp [startsWith]
  rw [stripPrefix, if_pos hprefix, String.toList_append, List.drop_left, String.ofList_toList]

theorem stripPrefix_of_not {s pat : String} (h : ¬ pat.toList <+: s.toList) :
    stripPrefix s pat = none := by
  rw [stripPrefix, if_neg (by simpa [startsWith] using h)]

/-! ## Lines -/

theorem splitInclusive_append {line : List Char} (h : '\n' ∉ line) (rest : List Char) :
    splitInclusive (line ++ '\n' :: rest) = (line ++ ['\n']) :: splitInclusive rest := by
  induction line with
  | nil =>
    rw [List.nil_append, List.nil_append, splitInclusive, if_pos rfl]
  | cons c line ih =>
    rw [List.mem_cons, not_or] at h
    rw [List.cons_append, splitInclusive, if_neg (Ne.symm h.1), ih h.2]
    rfl

/-- A line without its `\r`, if it ends with one. -/
def stripCR (line : List Char) : List Char :=
  if line.getLast? = some '\r' then line.dropLast else line

theorem stripLineEnd_append (line : List Char) : stripLineEnd (line ++ ['\n']) = stripCR line := by
  rw [stripLineEnd, List.getLast?_concat, if_pos rfl, List.dropLast_concat]
  rfl

/-- The first line of a text, and the lines after it. -/
theorem lines_append {line : String} (h : '\n' ∉ line.toList) (rest : String) :
    lines (line ++ "\n" ++ rest) = String.ofList (stripCR line.toList) :: lines rest := by
  have hchars : (line ++ "\n" ++ rest).toList = line.toList ++ '\n' :: rest.toList := by
    simp
  rw [lines, hchars, splitInclusive_append h, List.map_cons, stripLineEnd_append]
  rfl

theorem splitInclusive_ne_nil {cs : List Char} (h : cs ≠ []) : splitInclusive cs ≠ [] := by
  cases cs with
  | nil => exact absurd rfl h
  | cons c cs =>
    rw [splitInclusive]
    split_ifs
    · exact List.cons_ne_nil _ _
    · split <;> exact List.cons_ne_nil _ _

theorem splitInclusive_newline (cs rest : List Char) :
    splitInclusive (cs ++ '\n' :: rest) =
      splitInclusive (cs ++ ['\n']) ++ splitInclusive rest := by
  induction cs with
  | nil =>
    rw [List.nil_append, List.nil_append, splitInclusive, if_pos rfl]
    rfl
  | cons c cs ih =>
    rw [List.cons_append, List.cons_append, splitInclusive, splitInclusive, ih]
    split_ifs
    · rfl
    · cases hlines : splitInclusive (cs ++ ['\n']) with
      | nil => exact absurd hlines (splitInclusive_ne_nil (by simp))
      | cons line lines => rfl

/-- The lines of a text up to a newline, and the lines after it. -/
theorem lines_newline (s rest : String) :
    lines (s ++ "\n" ++ rest) = lines (s ++ "\n") ++ lines rest := by
  have hchars : (s ++ "\n" ++ rest).toList = s.toList ++ '\n' :: rest.toList := by simp
  have hfirst : (s ++ "\n").toList = s.toList ++ ['\n'] := by simp
  rw [lines, lines, hchars, hfirst, splitInclusive_newline, List.map_append]
  rfl

theorem lines_empty : lines "" = [] := rfl

/-! ## Trimming -/

theorem rdropWhile_append_of_not {p : Char → Bool} {c : Char} (hc : p c = false)
    (pre cs : List Char) :
    (pre ++ c :: cs).rdropWhile p = pre ++ c :: cs.rdropWhile p := by
  induction cs using List.reverseRecOn with
  | nil =>
    rw [List.rdropWhile_concat_neg _ _ _ (by simp [hc])]
    rfl
  | append_singleton cs d ih =>
    have hassoc : pre ++ c :: (cs ++ [d]) = (pre ++ c :: cs) ++ [d] := by simp
    rw [hassoc]
    by_cases hd : p d = true
    · rw [List.rdropWhile_concat_pos _ _ _ hd, List.rdropWhile_concat_pos _ _ _ hd, ih]
    · rw [List.rdropWhile_concat_neg _ _ _ hd, List.rdropWhile_concat_neg _ _ _ hd]
      simp

/-- Only the end of a text is trimmed that starts with a character that is not
    whitespace. -/
theorem trimChars_cons {c : Char} (hc : isWhitespace c = false) (pre cs : List Char) {d : Char}
    (hd : isWhitespace d = false) :
    trimChars (c :: pre ++ d :: cs) = c :: pre ++ d :: cs.rdropWhile isWhitespace := by
  rw [trimChars, List.cons_append, List.dropWhile_cons_of_neg (by simp [hc]), ← List.cons_append,
    rdropWhile_append_of_not hd]

theorem trimChars_concat {c : Char} (hc : isWhitespace c = true) (cs : List Char) :
    trimChars (cs ++ [c]) = trimChars cs := by
  rw [trimChars, trimChars, List.dropWhile_append]
  split_ifs with hempty
  · rw [List.isEmpty_iff.mp hempty, List.dropWhile_cons_of_pos hc]
    rfl
  · exact List.rdropWhile_concat_pos _ _ _ hc

theorem trimChars_cons_whitespace {c : Char} (hc : isWhitespace c = true) (cs : List Char) :
    trimChars (c :: cs) = trimChars cs := by
  rw [trimChars, trimChars, List.dropWhile_cons_of_pos hc]

theorem trimChars_rdropWhile (cs : List Char) :
    trimChars (cs.rdropWhile isWhitespace) = trimChars cs := by
  induction cs using List.reverseRecOn with
  | nil => rfl
  | append_singleton cs c ih =>
    by_cases hc : isWhitespace c = true
    · rw [List.rdropWhile_concat_pos _ _ _ hc, ih, trimChars_concat hc]
    · rw [List.rdropWhile_concat_neg _ _ _ hc]

theorem trimChars_stripCR (cs : List Char) : trimChars (stripCR cs) = trimChars cs := by
  rw [stripCR]
  split_ifs with h
  · obtain ⟨pre, rfl⟩ := List.getLast?_eq_some_iff.mp h
    rw [List.dropLast_concat, trimChars_concat (by decide)]
  · rfl

/-- A line that starts with a key is trimmed at its end only. -/
theorem trim_line {key : String} {c d : Char} {mid : List Char}
    (hkey : key.toList = c :: mid ++ [d]) (hc : isWhitespace c = false)
    (hd : isWhitespace d = false) (rest : String) :
    trim (String.ofList (stripCR (key ++ rest).toList)) =
      key ++ String.ofList (rest.toList.rdropWhile isWhitespace) := by
  have hchars : (key ++ rest).toList = c :: mid ++ d :: rest.toList := by
    simp [hkey]
  rw [trim, String.toList_ofList, trimChars_stripCR, hchars, trimChars_cons hc _ _ hd]
  apply String.toList_inj.mp
  simp [hkey]

end Melis.Text

namespace Melis

/-- `s.trim().is_empty()`. -/
def isBlank (s : String) : Bool := Text.isEmpty (Text.trim s)

end Melis
