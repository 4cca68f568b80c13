import Melis.Lib.Words

/-!
# Rust strings

A Rust `String` is a sequence of Unicode scalar values stored as UTF-8; so is
a Lean `String`. `str::len` is `String.utf8ByteSize`.

`char::is_whitespace` is the Unicode `White_Space` property, written out here.
The full case mapping and the `Alphabetic`/`Numeric` properties are tables of
the Unicode Character Database; the model takes them as the parameter
`Unicode`, about which nothing is assumed. `Unicode.ascii` is an instance that
agrees with the real tables on ASCII text.

* `Text.splitWhitespace_joinSpace`: some words of a text, joined by single spaces,
  are the words of what results.
* `Text.len_joinSpace_le`: dropping words of a text and joining the others by
  single spaces does not make it longer in bytes.
-/

namespace Melis

/-- The Unicode tables the code consults through `str::to_lowercase`,
    `str::to_uppercase` and `char::is_alphanumeric`. -/
structure Unicode where
  toLowercase : String → String
  toUppercase : String → String
  isAlphanumeric : Char → Bool

/-- The tables restricted to ASCII. -/
def Unicode.ascii : Unicode where
  toLowercase s := String.ofList (s.toList.map Char.toLower)
  toUppercase s := String.ofList (s.toList.map Char.toUpper)
  isAlphanumeric := Char.isAlphanum

namespace Text

/-- `char::is_whitespace`: the code points with the `White_Space` property. -/
def isWhitespace (c : Char) : Bool :=
  let n := c.toNat
  (9 ≤ n && n ≤ 13) || n == 32 || n == 0x85 || n == 0xA0 || n == 0x1680 ||
    (0x2000 ≤ n && n ≤ 0x200A) || n == 0x2028 || n == 0x2029 || n == 0x202F || n == 0x205F ||
    n == 0x3000

/-- `str::len`: the length in bytes. -/
def len (s : String) : ℕ := s.utf8ByteSize

/-- `str::is_empty`. -/
def isEmpty (s : String) : Bool := len s == 0

/-- `str::split_whitespace`. -/
def splitWhitespace (s : String) : List String :=
  (Lib.words isWhitespace s.toList).map String.ofList

/-- `[&str]::join(" ")`. -/
def joinSpace (ws : List String) : String :=
  String.ofList (Lib.joinWith ' ' (ws.map String.toList))

/-- `str::contains` with a string pattern. -/
def contains (s pat : String) : Bool := decide (pat.toList <:+: s.toList)

/-- `str::ends_with` with a string pattern. -/
def endsWith (s pat : String) : Bool := decide (pat.toList <:+ s.toList)

/-! ## Words -/

section Words

variable {s : String} {ws : List String}

theorem mem_splitWhitespace {w : String} (h : w ∈ splitWhitespace s) :
    w.toList ∈ Lib.words isWhitespace s.toList := by
  obtain ⟨cs, hcs, rfl⟩ := List.mem_map.mp h
  rwa [String.toList_ofList]

theorem ne_nil_of_sublist (hws : ws.Sublist (splitWhitespace s)) :
    ∀ cs ∈ ws.map String.toList, cs ≠ [] := by
  intro cs hcs
  obtain ⟨w, hw, rfl⟩ := List.mem_map.mp hcs
  exact Lib.ne_nil_of_mem_words (mem_splitWhitespace (hws.subset hw))

/-- Some words of a text, joined by single spaces, and split again. -/
theorem splitWhitespace_joinSpace (hws : ws.Sublist (splitWhitespace s)) :
    splitWhitespace (joinSpace ws) = ws := by
  have hblank : ∀ cs ∈ ws.map String.toList, ∀ c ∈ cs, isWhitespace c = false := by
    intro cs hcs
    obtain ⟨w, hw, rfl⟩ := List.mem_map.mp hcs
    exact Lib.not_of_mem_words (mem_splitWhitespace (hws.subset hw))
  rw [splitWhitespace, joinSpace, String.toList_ofList,
    Lib.words_joinWith (by decide) (ne_nil_of_sublist hws) hblank, List.map_map]
  simp

/-- Joining words gives the empty text only if there are none. -/
theorem joinSpace_eq_empty_iff (hws : ws.Sublist (splitWhitespace s)) :
    joinSpace ws = "" ↔ ws = [] := by
  rw [joinSpace, String.ofList_eq_empty_iff, Lib.joinWith_eq_nil_iff (ne_nil_of_sublist hws),
    List.map_eq_nil_iff]

end Words

/-! ## Byte lengths -/

theorem isEmpty_iff {s : String} : isEmpty s = true ↔ s = "" := by
  simp [isEmpty, len]

theorem utf8Len_eq_listWeight (cs : List Char) :
    String.utf8Len cs = Lib.listWeight Char.utf8Size cs := by
  induction cs with
  | nil => rfl
  | cons c cs ih => simp [String.utf8Len, ih, Nat.add_comm]

theorem len_eq_listWeight (s : String) : len s = Lib.listWeight Char.utf8Size s.toList := by
  rw [← utf8Len_eq_listWeight, ← String.utf8ByteSize_ofList, String.ofList_toList, len]

/-- Keeping some words of a text, joined by single spaces, does not make it
    longer in bytes: a space is one byte, as short as any whitespace. -/
theorem len_joinSpace_le {s : String} {ws : List String}
    (hws : ws.Sublist (splitWhitespace s)) : len (joinSpace ws) ≤ len s := by
  rw [len_eq_listWeight, len_eq_listWeight, joinSpace, String.toList_ofList]
  apply Lib.joinWith_weight_le (p := isWhitespace)
  · intro c _
    have : (' ' : Char).utf8Size = 1 := by decide
    rw [this]
    exact c.utf8Size_pos
  · have h1 : (ws.map String.toList).Sublist ((splitWhitespace s).map String.toList) := hws.map _
    have h2 : (splitWhitespace s).map String.toList = Lib.words isWhitespace s.toList := by
      simp [splitWhitespace, Function.comp_def]
    rw [h2] at h1
    exact h1.trans (Lib.words_sublist_splitOnP _ _)

end Text

end Melis
