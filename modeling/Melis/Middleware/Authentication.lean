import Melis.Common.Utf8
import Melis.Middleware.Model

/-!
# Which requests are authenticated (`middleware/auth.rs`)

`auth_middleware` reads the `Authorization` header as text, splits it at the first blank
and looks the rest up in the key table. A header is bytes: `to_str` reads those that are
visible ASCII characters, blanks and tabs, and `.ok()` makes every other header a missing
one.

* `splitn2_eq_pair_iff`: the split at the first blank.
* `bearerToken_eq_ok_iff`: the texts that have a token.
* `bearerToken_bind_eq_ok_iff`: the headers that have one.
* `authenticated_iff`: the requests that reach the handler, and as whom.
* `not_authenticated_of_presented`: a configured key that nobody can present.
-/

namespace Melis.Middleware

/-! ## The header -/

/-- The bytes of visible ASCII characters, blanks and tabs. -/
def isVisibleAscii (b : UInt8) : Bool := decide (32 ≤ b ∧ b < 127) || b == 9

/-- `HeaderValue::to_str`, then `ok`: a value whose bytes are all visible ASCII is read as
    the string of these bytes, and any other value is not read. -/
def ReadsVisibleAscii (toStr : List UInt8 → Option String) : Prop :=
  ∀ value s, toStr value = some s ↔ (∀ b ∈ value, isVisibleAscii b = true) ∧ utf8 s = value

/-- The header is the word `Bearer` in any letter case, one blank, and the key, which is
    not empty. -/
def Presents (value : List UInt8) (key : String) : Prop :=
  ∃ word : String, word.toList.map Char.toLower = "bearer".toList ∧ key ≠ "" ∧
    value = utf8 word ++ 32 :: utf8 key

/-! ## The token of a text -/

section Token

variable {s scheme token : String} {sep : Char}

theorem splitn2_append (h : sep ∉ scheme.toList) :
    splitn2 (scheme ++ String.singleton sep ++ token) sep = [scheme, token] := by
  have hscheme : ∀ c ∈ scheme.toList, (c != sep) = true := fun c hc =>
    bne_iff_ne.mpr fun heq => h (heq ▸ hc)
  have hsep : ¬ (sep != sep) = true := by rw [bne_self_eq_false]; exact Bool.false_ne_true
  have hs : (scheme ++ String.singleton sep ++ token).toList =
      scheme.toList ++ sep :: token.toList := by
    rw [String.toList_append, String.toList_append, String.toList_singleton, List.append_assoc,
      List.singleton_append]
  rw [splitn2, hs, List.dropWhile_append_of_pos hscheme, List.takeWhile_append_of_pos hscheme,
    List.dropWhile_cons_of_neg (p := (· != sep)) hsep,
    List.takeWhile_cons_of_neg (p := (· != sep)) hsep, List.append_nil]
  simp only [String.ofList_toList]

/-- A text with the separator is split at the first one. -/
theorem splitn2_eq_pair_iff :
    splitn2 s sep = [scheme, token] ↔
      sep ∉ scheme.toList ∧ s = scheme ++ String.singleton sep ++ token := by
  constructor
  · intro h
    have hsplit := List.takeWhile_append_dropWhile (p := (· != sep)) (l := s.toList)
    have hhead := List.head?_dropWhile_not (· != sep) s.toList
    rw [splitn2] at h
    cases hdrop : s.toList.dropWhile (· != sep) with
    | nil =>
      rw [hdrop] at h
      exact absurd (congrArg List.length h) (by simp)
    | cons c rest =>
      rw [hdrop] at h hsplit hhead
      obtain ⟨rfl, htoken⟩ := List.cons_eq_cons.mp h
      obtain rfl := List.singleton_inj.mp htoken
      obtain rfl : c = sep := by simpa using hhead
      refine ⟨fun hmem => ?_, ?_⟩
      · rw [String.toList_ofList] at hmem
        exact absurd (List.mem_takeWhile_imp hmem) (by simp)
      · rw [← String.toList_inj, String.toList_append, String.toList_append, String.toList_ofList,
          String.toList_ofList, String.toList_singleton, List.append_assoc, List.singleton_append]
        exact hsplit.symm
  · rintro ⟨hscheme, rfl⟩
    exact splitn2_append hscheme

theorem splitn2_blank_eq_pair_iff :
    splitn2 s ' ' = [scheme, token] ↔ ' ' ∉ scheme.toList ∧ s = scheme ++ " " ++ token := by
  have hblank : String.singleton ' ' = " " := by decide
  rw [splitn2_eq_pair_iff, hblank]

theorem eqIgnoreAsciiCase_bearer_iff :
    eqIgnoreAsciiCase scheme "Bearer" = true ↔
      scheme.toList.map Char.toLower = "bearer".toList :=
  beq_iff_eq

/-- The word `Bearer` has no blank. -/
theorem blank_not_mem_of_bearer (h : scheme.toList.map Char.toLower = "bearer".toList) :
    ' ' ∉ scheme.toList := by
  intro hmem
  have hlower : ' ' ∈ "bearer".toList := h ▸ List.mem_map_of_mem (f := Char.toLower) hmem
  exact absurd hlower (by decide)

/-- The texts that have a token: the scheme, one blank, and a token that is not empty. -/
theorem bearerToken_eq_ok_iff :
    bearerToken (some s) = .ok token ↔
      ∃ word : String, word.toList.map Char.toLower = "bearer".toList ∧ token ≠ "" ∧
        s = word ++ " " ++ token := by
  constructor
  · intro h
    rw [bearerToken] at h
    split at h
    · next scheme token' hsplit =>
      split_ifs at h with hcheck
      obtain rfl := Except.ok.inj h
      rw [Bool.not_eq_true, Bool.or_eq_false_iff, Bool.not_eq_false',
        eqIgnoreAsciiCase_bearer_iff] at hcheck
      obtain ⟨hscheme, htoken⟩ := hcheck
      refine ⟨scheme, hscheme, fun hempty => ?_, (splitn2_blank_eq_pair_iff.mp hsplit).2⟩
      rw [Text.isEmpty_iff.mpr hempty] at htoken
      cases htoken
    · cases h
  · rintro ⟨word, hword, htoken, rfl⟩
    have hsplit : splitn2 (word ++ " " ++ token) ' ' = [word, token] :=
      splitn2_blank_eq_pair_iff.mpr ⟨blank_not_mem_of_bearer hword, rfl⟩
    have hfull : Text.isEmpty token = false :=
      Bool.eq_false_iff.mpr fun h => htoken (Text.isEmpty_iff.mp h)
    rw [bearerToken, hsplit]
    dsimp only
    rw [eqIgnoreAsciiCase_bearer_iff.mpr hword, hfull]
    rfl

end Token

/-! ## The token of a header -/

section Header

variable {toStr : List UInt8 → Option String} {value : Option (List UInt8)} {config : AuthConfig}
  {v : List UInt8} {token : String}

theorem utf8_bearer (word token : String) :
    utf8 (word ++ " " ++ token) = utf8 word ++ 32 :: utf8 token := by
  rw [utf8_append, utf8_append, List.append_assoc]
  rfl

/-- A header has a token if it can be read and presents it. -/
theorem bearerToken_bind_eq_ok_iff (hread : ReadsVisibleAscii toStr) :
    bearerToken (value.bind toStr) = .ok token ↔
      ∃ v, value = some v ∧ (∀ b ∈ v, isVisibleAscii b = true) ∧ Presents v token := by
  constructor
  · intro h
    cases value with
    | none => cases h
    | some v =>
      rw [Option.bind_some] at h
      cases htext : toStr v with
      | none =>
        rw [htext] at h
        cases h
      | some s =>
        rw [htext] at h
        obtain ⟨hvisible, hbytes⟩ := (hread v s).mp htext
        obtain ⟨word, hword, htoken, rfl⟩ := bearerToken_eq_ok_iff.mp h
        exact ⟨v, rfl, hvisible, word, hword, htoken,
          hbytes.symm.trans (utf8_bearer word token)⟩
  · rintro ⟨v, rfl, hvisible, word, hword, htoken, hbytes⟩
    have htext : toStr v = some (word ++ " " ++ token) :=
      (hread v _).mpr ⟨hvisible, (utf8_bearer word token).trans hbytes.symm⟩
    rw [Option.bind_some, htext]
    exact bearerToken_eq_ok_iff.mpr ⟨word, hword, htoken, rfl⟩

/-- A header presents one key. -/
theorem Presents.key_inj {key key' : String} (h : Presents v key) (h' : Presents v key') :
    key = key' := by
  obtain ⟨word, hword, -, hbytes⟩ := h
  obtain ⟨word', hword', -, hbytes'⟩ := h'
  have htext : word ++ " " ++ key = word' ++ " " ++ key' := by
    apply utf8_injective
    rw [utf8_bearer, utf8_bearer, ← hbytes, ← hbytes']
  have hsplit : splitn2 (word ++ " " ++ key) ' ' = [word, key] :=
    splitn2_blank_eq_pair_iff.mpr ⟨blank_not_mem_of_bearer hword, rfl⟩
  have hsplit' : splitn2 (word' ++ " " ++ key') ' ' = [word', key'] :=
    splitn2_blank_eq_pair_iff.mpr ⟨blank_not_mem_of_bearer hword', rfl⟩
  rw [htext, hsplit'] at hsplit
  exact (List.singleton_inj.mp (List.cons_eq_cons.mp hsplit).2).symm

/-! ## The requests that are authenticated -/

/-- The identity has the fields of the first entry whose key the header presents. -/
def OfFirstPresented (config : AuthConfig) (v : List UInt8) (identity : ClientIdentity) : Prop :=
  ∃ (pre : List ApiKeyEntry) (entry : ApiKeyEntry) (post : List ApiKeyEntry),
    config.apiKeys = pre ++ entry :: post ∧ Presents v entry.key ∧
      (∀ e ∈ pre, ¬ Presents v e.key) ∧ identity.clientId = entry.clientId ∧
      identity.rateLimitConfig = entry.rateLimit ∧
      identity.allowedModels = entry.allowedModels

theorem exists_find?_of_mem {entry : ApiKeyEntry} (hentry : entry ∈ config.apiKeys) :
    ∃ found, (config.apiKeys.find? fun e => e.key == entry.key) = some found :=
  Option.isSome_iff_exists.mp (List.find?_isSome.mpr ⟨entry, hentry, beq_self_eq_true entry.key⟩)

/-- The entry that is found is the first one whose key is presented. -/
theorem ofFirstPresented_of_find? {entry : ApiKeyEntry} (htoken : Presents v token)
    (hfind : (config.apiKeys.find? fun e => e.key == token) = some entry) :
    OfFirstPresented config v (identityOf entry) := by
  obtain ⟨hkey, pre, post, hkeys, hpre⟩ := List.find?_eq_some_iff_append.mp hfind
  obtain rfl : entry.key = token := eq_of_beq hkey
  refine ⟨pre, entry, post, hkeys, htoken, fun e he hpresents => ?_, rfl, rfl, rfl⟩
  have hother := hpre e he
  rw [hpresents.key_inj htoken, beq_self_eq_true] at hother
  cases hother

/-- **The requests that are authenticated.** For every key table and every header, or
    none: the handler runs exactly if the header can be read and is the word `Bearer` in
    any letter case, one blank, and the key of an entry, not empty; and the identity that
    it runs with is that of the first such entry. -/
theorem authenticated_iff (hread : ReadsVisibleAscii toStr) (config : AuthConfig)
    (value : Option (List UInt8)) :
    ((∃ identity, authMiddleware config (value.bind toStr) = .ok identity) ↔
      ∃ v, value = some v ∧ (∀ b ∈ v, isVisibleAscii b = true) ∧
        ∃ entry ∈ config.apiKeys, Presents v entry.key) ∧
    ∀ identity, authMiddleware config (value.bind toStr) = .ok identity →
      ∃ v, value = some v ∧ OfFirstPresented config v identity := by
  refine ⟨⟨?_, ?_⟩, ?_⟩
  · rintro ⟨identity, h⟩
    obtain ⟨token, entry, htoken, hfind, -⟩ := authMiddleware_eq_ok_iff.mp h
    obtain ⟨v, hvalue, hvisible, hpresents⟩ := (bearerToken_bind_eq_ok_iff hread).mp htoken
    have hkey : entry.key = token :=
      eq_of_beq (List.find?_some (p := fun e : ApiKeyEntry => e.key == token) hfind)
    exact ⟨v, hvalue, hvisible, entry, List.mem_of_find?_eq_some hfind, hkey ▸ hpresents⟩
  · rintro ⟨v, hvalue, hvisible, entry, hentry, hpresents⟩
    obtain ⟨found, hfind⟩ := exists_find?_of_mem hentry
    have htoken : bearerToken (value.bind toStr) = .ok entry.key :=
      (bearerToken_bind_eq_ok_iff hread).mpr ⟨v, hvalue, hvisible, hpresents⟩
    exact ⟨identityOf found,
      authMiddleware_eq_ok_iff.mpr ⟨entry.key, found, htoken, hfind, rfl⟩⟩
  · intro identity h
    obtain ⟨token, entry, htoken, hfind, rfl⟩ := authMiddleware_eq_ok_iff.mp h
    obtain ⟨v, hvalue, -, hpresents⟩ := (bearerToken_bind_eq_ok_iff hread).mp htoken
    exact ⟨v, hvalue, ofFirstPresented_of_find? hpresents hfind⟩

end Header

/-! ## Keys outside ASCII -/

/-- Visible ASCII, read byte by byte. -/
def visibleText (value : List UInt8) : Option String :=
  if value.all isVisibleAscii then some (String.ofList (value.map Char.ofUInt8)) else none

theorem encode_ofUInt8 {b : UInt8} (h : isVisibleAscii b = true) :
    String.utf8EncodeChar (Char.ofUInt8 b) = [b] := by
  have hlt : b.toNat ≤ 0x7f := by
    rw [isVisibleAscii, Bool.or_eq_true, decide_eq_true_eq, beq_iff_eq] at h
    rcases h with ⟨-, h⟩ | rfl
    · exact Nat.le_of_lt (UInt8.lt_iff_toNat_lt.mp h)
    · decide
  have hval : (Char.ofUInt8 b).val.toNat = b.toNat := UInt8.toNat_toUInt32 b
  rw [String.utf8EncodeChar, hval, if_pos hlt, UInt8.ofNat_toNat]

theorem utf8_ofUInt8 {value : List UInt8} (h : ∀ b ∈ value, isVisibleAscii b = true) :
    utf8 (String.ofList (value.map Char.ofUInt8)) = value := by
  rw [utf8, String.toList_ofList, List.flatMap_map]
  calc value.flatMap (fun b => String.utf8EncodeChar (Char.ofUInt8 b))
      = value.flatMap fun b => [b] := List.flatMap_congr fun b hb => encode_ofUInt8 (h b hb)
    _ = value := List.flatMap_singleton' value

theorem readsVisibleAscii_visibleText : ReadsVisibleAscii visibleText := by
  intro value s
  have hall := List.all_eq_true (l := value) (p := isVisibleAscii)
  rw [visibleText]
  constructor
  · intro h
    split_ifs at h with hvisible
    obtain rfl := Option.some.inj h
    exact ⟨hall.mp hvisible, utf8_ofUInt8 (hall.mp hvisible)⟩
  · rintro ⟨hvisible, hbytes⟩
    have hs : utf8 (String.ofList (value.map Char.ofUInt8)) = utf8 s :=
      (utf8_ofUInt8 hvisible).trans hbytes.symm
    rw [if_pos (hall.mpr hvisible), utf8_injective hs]

/-- Two clients with one key, after a client whose key has an accent. -/
def keyTable : AuthConfig where
  enabled := true
  apiKeys := [⟨"clé", "carol", [], none⟩, ⟨"sk-1", "alice", ["gpt-4"], none⟩,
    ⟨"sk-1", "bob", [], none⟩]

/-- The first of two clients with one key. -/
theorem authenticated_iff_alice :
    (∃ identity, authMiddleware keyTable ((some (utf8 "bEARER sk-1")).bind visibleText) =
      .ok identity) ∧
    ∃ v, some (utf8 "bEARER sk-1") = some v ∧
      OfFirstPresented keyTable v ⟨"alice", none, ["gpt-4"]⟩ := by
  obtain ⟨hiff, hfirst⟩ := authenticated_iff readsVisibleAscii_visibleText keyTable
    (some (utf8 "bEARER sk-1"))
  constructor
  · exact hiff.mpr ⟨_, rfl, by decide +kernel, ⟨"sk-1", "alice", ["gpt-4"], none⟩, by decide,
      "bEARER", by decide, by decide, utf8_bearer "bEARER" "sk-1"⟩
  · exact hfirst _ (by decide +kernel)

/-- The accent is two bytes that `to_str` does not read, so that the key is refused as if
    there were no header. -/
theorem not_authenticated_of_presented :
    ¬ ∀ toStr, ReadsVisibleAscii toStr →
      ∀ (config : AuthConfig) (value : Option (List UInt8)),
      ((∃ identity, authMiddleware config (value.bind toStr) = .ok identity) ↔
        ∃ v, value = some v ∧ ∃ entry ∈ config.apiKeys, Presents v entry.key) ∧
      ∀ identity, authMiddleware config (value.bind toStr) = .ok identity →
        ∃ v, value = some v ∧ OfFirstPresented config v identity := by
  intro h
  obtain ⟨hiff, -⟩ := h visibleText readsVisibleAscii_visibleText keyTable
    (some (utf8 "Bearer clé"))
  have hpresents : Presents (utf8 "Bearer clé") "clé" :=
    ⟨"Bearer", by decide, by decide, utf8_bearer "Bearer" "clé"⟩
  obtain ⟨identity, hok⟩ := hiff.mpr ⟨_, rfl, _, List.mem_cons_self, hpresents⟩
  have hrefused : authMiddleware keyTable ((some (utf8 "Bearer clé")).bind visibleText) =
      .error (.unauthorized "Missing Authorization header") := by decide +kernel
  rw [hrefused] at hok
  cases hok

end Melis.Middleware
