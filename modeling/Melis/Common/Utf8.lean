import Mathlib

/-!
# UTF-8

The bytes of a string, and `String::from_utf8_lossy`, which puts U+FFFD for each
maximal subpart of an ill-formed sequence.

* `fromUtf8Lossy_utf8`: the bytes of a string are decoded to it.
* `fromUtf8Lossy_newline`: a newline ends what is decoded before it.
* `newline_mem_utf8_iff`: the byte `\n` is in the bytes of a string exactly where
  the character is in the string.
-/

namespace Melis

/-- `str::as_bytes`. -/
def utf8 (s : String) : List UInt8 := s.toList.flatMap String.utf8EncodeChar

/-- The byte is in the range. -/
def inRange (lo hi b : UInt8) : Bool := lo ≤ b && b ≤ hi

/-- The second bytes that may follow the first byte of a character of three
    bytes. -/
def secondOfThree (first second : UInt8) : Bool :=
  (first == 0xE0 && inRange 0xA0 0xBF second) ||
  (inRange 0xE1 0xEC first && inRange 0x80 0xBF second) ||
  (first == 0xED && inRange 0x80 0x9F second) ||
  (inRange 0xEE 0xEF first && inRange 0x80 0xBF second)

/-- The second bytes that may follow the first byte of a character of four bytes. -/
def secondOfFour (first second : UInt8) : Bool :=
  (first == 0xF0 && inRange 0x90 0xBF second) ||
  (inRange 0xF1 0xF3 first && inRange 0x80 0xBF second) ||
  (first == 0xF4 && inRange 0x80 0x8F second)

/-- The length of the maximal subpart at the start of an ill-formed sequence. -/
def maximalSubpart : List UInt8 → ℕ
  | first :: second :: third :: _ =>
    if secondOfThree first second then 2
    else if secondOfFour first second then if inRange 0x80 0xBF third then 3 else 2
    else 1
  | [first, second] => if secondOfThree first second || secondOfFour first second then 2 else 1
  | _ => 1

/-- The characters that `String::from_utf8_lossy` decodes. -/
def lossyChars : List UInt8 → List Char
  | [] => []
  | b :: bytes =>
    match ((b :: bytes).toByteArray).utf8DecodeChar? 0 with
    | some c => c :: lossyChars (bytes.drop (c.utf8Size - 1))
    | none => '\uFFFD' :: lossyChars (bytes.drop (maximalSubpart (b :: bytes) - 1))
termination_by bytes => bytes.length
decreasing_by
  all_goals
    rw [List.length_drop, List.length_cons]
    omega

/-- `String::from_utf8_lossy`. -/
def fromUtf8Lossy (bytes : List UInt8) : String := String.ofList (lossyChars bytes)

@[simp] theorem utf8_append (s t : String) : utf8 (s ++ t) = utf8 s ++ utf8 t := by
  rw [utf8, String.toList_append, List.flatMap_append]
  rfl

theorem lossyChars_encode_append (c : Char) (bytes : List UInt8) :
    lossyChars (String.utf8EncodeChar c ++ bytes) = c :: lossyChars bytes := by
  have hlen : (String.utf8EncodeChar c).length = c.utf8Size := String.length_utf8EncodeChar c
  have hpos := c.utf8Size_pos
  match henc : String.utf8EncodeChar c with
  | [] =>
    rw [henc] at hlen
    exact absurd hlen (Nat.ne_of_lt hpos)
  | b :: tail =>
    have hdecode : ((b :: (tail ++ bytes)).toByteArray).utf8DecodeChar? 0 = some c := by
      rw [← List.cons_append, ← henc, List.toByteArray_append]
      exact ByteArray.utf8DecodeChar?_utf8EncodeChar_append
    have htail : tail.length = c.utf8Size - 1 := by
      rw [henc, List.length_cons] at hlen
      omega
    rw [List.cons_append, lossyChars, hdecode]
    show c :: lossyChars ((tail ++ bytes).drop (c.utf8Size - 1)) = _
    rw [← htail, List.drop_left]

/-- The bytes of a string are decoded without loss. -/
theorem fromUtf8Lossy_utf8 (s : String) : fromUtf8Lossy (utf8 s) = s := by
  have hchars : ∀ cs : List Char, lossyChars (cs.flatMap String.utf8EncodeChar) = cs := by
    intro cs
    induction cs with
    | nil =>
      rw [List.flatMap_nil, lossyChars]
    | cons c cs ih => rw [List.flatMap_cons, lossyChars_encode_append, ih]
  rw [fromUtf8Lossy, utf8, hchars, String.ofList_toList]

/-- Strings are their bytes. -/
theorem utf8_injective : Function.Injective utf8 :=
  Function.LeftInverse.injective fromUtf8Lossy_utf8

theorem ofNat_ne_newline {n : ℕ} (h : 128 ≤ n) (h' : n < 256) : (10 : UInt8) ≠ UInt8.ofNat n := by
  intro heq
  have hnat := congrArg UInt8.toNat heq
  rw [UInt8.toNat_ofNat_of_lt' h'] at hnat
  have : (10 : UInt8).toNat = 10 := rfl
  omega

/-- Only the newline is encoded with the byte `\n`: the bytes of longer encodings are
    at least 128. -/
theorem newline_mem_encode_iff {c : Char} : (10 : UInt8) ∈ String.utf8EncodeChar c ↔ c = '\n' := by
  constructor
  · intro h
    unfold String.utf8EncodeChar at h
    dsimp only at h
    split_ifs at h with h1 h2 h3
    · rw [List.mem_singleton] at h
      have hnat := congrArg UInt8.toNat h
      rw [UInt8.toNat_ofNat_of_lt' (Nat.lt_of_le_of_lt h1 (by norm_num))] at hnat
      apply Char.ext
      apply UInt32.toNat_inj.mp
      exact hnat.symm
    · simp only [List.mem_cons, List.not_mem_nil, or_false] at h
      rcases h with h | h
      · exact absurd h (ofNat_ne_newline (by omega) (by omega))
      · exact absurd h (ofNat_ne_newline (by omega) (by omega))
    · simp only [List.mem_cons, List.not_mem_nil, or_false] at h
      rcases h with h | h | h
      all_goals exact absurd h (ofNat_ne_newline (by omega) (by omega))
    · simp only [List.mem_cons, List.not_mem_nil, or_false] at h
      rcases h with h | h | h | h
      all_goals exact absurd h (ofNat_ne_newline (by omega) (by omega))
  · rintro rfl
    decide

/-- A newline byte comes from a newline. -/
theorem newline_mem_utf8_iff {s : String} : (10 : UInt8) ∈ utf8 s ↔ '\n' ∈ s.toList := by
  rw [utf8, List.mem_flatMap]
  constructor
  · rintro ⟨c, hc, h⟩
    rwa [← newline_mem_encode_iff.mp h]
  · intro h
    exact ⟨'\n', h, newline_mem_encode_iff.mpr rfl⟩

/-! ## Decoding line by line -/

section Boundary

/-- The first character of some bytes is the one whose encoding they start with. -/
theorem utf8DecodeChar?_eq_some_iff {bytes : List UInt8} {c : Char} :
    bytes.toByteArray.utf8DecodeChar? 0 = some c ↔ String.utf8EncodeChar c <+: bytes := by
  constructor
  · intro h
    obtain ⟨rest, hrest⟩ := ByteArray.exists_of_utf8DecodeChar?_eq_some h
    have hlist := congrArg (fun b => b.data.toList) hrest
    simp only [ByteArray.data_append, List.data_toByteArray, Array.toList_append] at hlist
    exact ⟨rest.data.toList, hlist.symm⟩
  · rintro ⟨rest, rfl⟩
    rw [List.toByteArray_append]
    exact ByteArray.utf8DecodeChar?_utf8EncodeChar_append

/-- No character goes on across a newline. -/
theorem encode_prefix_newline {bytes rest : List UInt8} (hne : bytes ≠ []) {c : Char}
    (h : String.utf8EncodeChar c <+: bytes ++ 10 :: rest) : String.utf8EncodeChar c <+: bytes := by
  rcases List.prefix_or_prefix_of_prefix h (List.prefix_append bytes (10 :: rest)) with h' | h'
  · exact h'
  · obtain ⟨tail, htail⟩ := h'
    cases tail with
    | nil => exact ⟨[], by rw [← htail, List.append_nil, List.append_nil]⟩
    | cons b tail =>
      rw [← htail, List.prefix_append_right_inj, List.cons_prefix_cons] at h
      have hmem : (10 : UInt8) ∈ String.utf8EncodeChar c := by
        rw [← htail, ← h.1]
        exact List.mem_append_right _ List.mem_cons_self
      have hlength := congrArg List.length htail
      rw [newline_mem_encode_iff.mp hmem, List.length_append, List.length_cons] at hlength
      have hpos := List.length_pos_of_ne_nil hne
      have hone : (String.utf8EncodeChar '\n').length = 1 := by decide
      omega

/-- An ill-formed sequence ends before a newline. -/
theorem maximalSubpart_newline {bytes : List UInt8} (hne : bytes ≠ []) (rest : List UInt8) :
    maximalSubpart (bytes ++ 10 :: rest) = maximalSubpart bytes := by
  have hthree : ∀ first, secondOfThree first 10 = false := fun first => by
    simp [secondOfThree, inRange]
  have hfour : ∀ first, secondOfFour first 10 = false := fun first => by
    simp [secondOfFour, inRange]
  cases bytes with
  | nil => exact absurd rfl hne
  | cons a bytes =>
    cases bytes with
    | nil => cases rest <;> simp [maximalSubpart, hthree, hfour]
    | cons b bytes =>
      cases bytes with
      | nil =>
        have hthird : inRange 0x80 0xBF 10 = false := by decide
        show (if secondOfThree a b then 2
          else if secondOfFour a b then if inRange 0x80 0xBF 10 then 3 else 2 else 1) = _
        rw [hthird]
        simp only [maximalSubpart, Bool.or_eq_true, Bool.false_eq_true, if_false]
        split_ifs <;> simp_all
      | cons d bytes => rfl

theorem maximalSubpart_le {bytes : List UInt8} (hne : bytes ≠ []) :
    maximalSubpart bytes ≤ bytes.length := by
  unfold maximalSubpart
  split
  · split_ifs <;> simp
  · split_ifs <;> simp
  · exact List.length_pos_of_ne_nil hne

/-- What is decoded before a newline does not depend on what comes after it. -/
theorem lossyChars_newline (bytes rest : List UInt8) :
    lossyChars (bytes ++ 10 :: rest) = lossyChars bytes ++ '\n' :: lossyChars rest := by
  have hencode : String.utf8EncodeChar '\n' = [10] := by decide
  induction bytes using lossyChars.induct with
  | case1 =>
    have hstart := lossyChars_encode_append '\n' rest
    rw [hencode] at hstart
    rw [lossyChars.eq_1]
    exact hstart
  | case2 b bytes c hdecode ih =>
    -- a character: the newline comes after its encoding
    obtain ⟨tail, htail⟩ := utf8DecodeChar?_eq_some_iff.mp hdecode
    have hdrop : bytes.drop (c.utf8Size - 1) = tail := by
      obtain ⟨k, hk⟩ := Nat.exists_eq_succ_of_ne_zero c.utf8Size_pos.ne'
      calc bytes.drop (c.utf8Size - 1) = (b :: bytes).drop c.utf8Size := by rw [hk]; rfl
        _ = (String.utf8EncodeChar c ++ tail).drop (String.utf8EncodeChar c).length := by
          rw [htail, String.length_utf8EncodeChar]
        _ = tail := List.drop_left
    rw [hdrop] at ih
    rw [← htail, List.append_assoc, lossyChars_encode_append, lossyChars_encode_append, ih]
    rfl
  | case3 b bytes hdecode ih =>
    -- an ill-formed sequence, which the newline does not make longer
    have hnone : ((b :: (bytes ++ 10 :: rest)).toByteArray).utf8DecodeChar? 0 = none := by
      refine Option.eq_none_iff_forall_ne_some.mpr fun c hc => ?_
      have hprefix := encode_prefix_newline (List.cons_ne_nil b bytes)
        (utf8DecodeChar?_eq_some_iff.mp hc)
      rw [utf8DecodeChar?_eq_some_iff.mpr hprefix] at hdecode
      cases hdecode
    have hle := maximalSubpart_le (List.cons_ne_nil b bytes)
    have hsame := maximalSubpart_newline (List.cons_ne_nil b bytes) rest
    rw [List.cons_append] at hsame ⊢
    rw [lossyChars, hnone, lossyChars, hdecode, hsame]
    dsimp only
    rw [List.drop_append_of_le_length (by simpa using hle), ih]
    rfl

/-- A newline ends what is decoded before it. -/
theorem fromUtf8Lossy_newline (bytes rest : List UInt8) :
    fromUtf8Lossy (bytes ++ 10 :: rest) =
      fromUtf8Lossy bytes ++ "\n" ++ fromUtf8Lossy rest := by
  apply String.toList_inj.mp
  simp [fromUtf8Lossy, lossyChars_newline]

end Boundary

end Melis
