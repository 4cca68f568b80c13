import Melis.Common.Text
import Melis.Config.Basic
import Melis.Lib.Greedy
import Melis.Lib.Rposition

/-!
# Context compactors (`compactor.rs`)

`SimpleCompactor::compact` and `SemanticGuardedCompactor::compact`, with their
helpers. Token counts are `usize` in the code and natural numbers here; the
subtractions are the code's (`Compactor.Accounting` shows that none of them
underflows). Scores are `i32` with wrapping arithmetic (`Int32`). The target of the
semantic compactor is a product of `f64`: with `.nearest` it is the one the code computes,
with `.exact` that of exact arithmetic. Three quarters of a count, the target of the simple
one, are not rounded.
-/

namespace Melis.Compactor

/-- `CompactMessage` (`compactor.rs` lines 13–16). -/
structure CompactMessage where
  role : String
  content : String
deriving DecidableEq

/-- `CompactionResult` (`compactor.rs` lines 20–33). -/
structure CompactionResult where
  originalTokens : ℕ
  finalTokens : ℕ
  messagesPruned : ℕ
  compressionRatio : F64
  wasCompressed : Bool
  messages : List CompactMessage

/-- `count_tokens` (lines 56–64): four bytes to a token, rounded up. -/
def countTokens (text : String) : ℕ :=
  let chars := Text.len text
  if chars = 0 then 0 else (chars + 3) / 4

/-- The summand of `total_tokens`. -/
def messageTokens (m : CompactMessage) : ℕ := countTokens m.role + countTokens m.content

/-- `total_tokens` (lines 67–72). -/
def totalTokens (messages : List CompactMessage) : ℕ := (messages.map messageTokens).sum

/-- The ratio every compressed result reports. -/
def compressionRatio (finalTokens originalTokens : ℕ) : F64 :=
  if originalTokens > 0 then (F64.ofNat finalTokens).div (F64.ofNat originalTokens)
  else .finite 1

/-- The result of every path that counts the messages it returns: `messages`
    became `final`. -/
def counted (messages final : List CompactMessage) (messagesPruned : ℕ) (wasCompressed : Bool) :
    CompactionResult where
  originalTokens := totalTokens messages
  finalTokens := totalTokens final
  messagesPruned := messagesPruned
  compressionRatio := compressionRatio (totalTokens final) (totalTokens messages)
  wasCompressed := wasCompressed
  messages := final

/-- The result of every path that returns `messages` untouched. -/
def uncompressed (messages : List CompactMessage) : CompactionResult where
  originalTokens := totalTokens messages
  finalTokens := totalTokens messages
  messagesPruned := 0
  compressionRatio := .finite 1
  wasCompressed := false
  messages := messages

/-- `messages.iter().rposition(|m| m.role == "user")` (lines 201 and 512). -/
def lastUserIdx (messages : List CompactMessage) : Option ℕ :=
  Lib.rposition (fun m => m.role == "user") messages

/-! ## `SimpleCompactor` -/

namespace SimpleCompactor

/-- The test of `remove_stop_words` on one word (lines 83–88). -/
def isStopWord (U : Unicode) (stopWords : List String) (word : String) : Bool :=
  let lower := U.toLowercase word
  let clean := String.ofList (lower.toList.filter U.isAlphanumeric)
  stopWords.any fun sw => U.toLowercase sw == clean

/-- `remove_stop_words` (lines 75–92). -/
def removeStopWords (U : Unicode) (text : String) (stopWords : List String) : String :=
  if stopWords.isEmpty then text
  else
    Text.joinSpace ((Text.splitWhitespace text).filter fun word => !isStopWord U stopWords word)

/-- `non_system_messages` (lines 121–125), with their indices. -/
def nonSystemMessages (messages : List CompactMessage) : List (CompactMessage × ℕ) :=
  messages.zipIdx.filter fun e => e.1.role != "system"

/-- `kept_indices` (lines 150–155). -/
def keptIndices (messages : List CompactMessage) (config : CompactorConfig) : List ℕ :=
  let nonSystem := nonSystemMessages messages
  let keptNonSystemStart := nonSystem.length - config.maxHistoryMessages
  (nonSystem.drop keptNonSystemStart).map Prod.snd

/-- `windowed_messages` (lines 127–165): all system messages and the last
    `max_history_messages` others. The code also builds `system_messages` and
    `keep_non_system`, which it does not use. -/
def windowedMessages (messages : List CompactMessage) (config : CompactorConfig) :
    List CompactMessage :=
  if (nonSystemMessages messages).length > config.maxHistoryMessages then
    (messages.zipIdx.filter fun e =>
      e.1.role == "system" || (keptIndices messages config).contains e.2).map Prod.fst
  else messages

/-- `eligible_indices` (lines 204–209). -/
def eligibleIndices (windowed : List CompactMessage) : List ℕ :=
  (windowed.zipIdx.filter fun e =>
    e.1.role != "system" && some e.2 != lastUserIdx windowed).map Prod.snd

/-- `working_messages` (lines 212–225). -/
def workingMessages (U : Unicode) (windowed : List CompactMessage) (config : CompactorConfig) :
    List CompactMessage :=
  windowed.zipIdx.map fun e =>
    if (eligibleIndices windowed).contains e.2 && !config.stopWords.isEmpty then
      { role := e.1.role, content := removeStopWords U e.1.content config.stopWords }
    else e.1

/-- `target_tokens` (line 228). -/
def targetTokens (originalTokens : ℕ) : ℕ :=
  ((F64.ofNat originalTokens).mul (.finite (3 / 4))).toNat

/-- `working_messages` without the indices in `indicesToRemove` (lines 268–273
    and 281–286). -/
def withoutIndices (working : List CompactMessage) (indicesToRemove : List ℕ) :
    List CompactMessage :=
  (working.zipIdx.filter fun e => !indicesToRemove.contains e.2).map Prod.fst

/-- The pruning loop (lines 260–278): remove the oldest eligible message, count
    what is left, stop at the target. -/
def indicesToRemove (working : List CompactMessage) (targetTokens : ℕ) (eligible : List ℕ) :
    List ℕ :=
  Lib.pruneUntil (fun removed => totalTokens (withoutIndices working removed)) targetTokens []
    eligible

/-- The end of `compact` (lines 260–322): prune, and fall back to the last
    message when nothing is left. -/
def pruneOldest (messages windowed working : List CompactMessage) (prunedByWindow : ℕ) :
    CompactionResult :=
  let removed := indicesToRemove working (targetTokens (totalTokens messages))
    (eligibleIndices windowed)
  let finalMessages := withoutIndices working removed
  if finalMessages.isEmpty then
    match messages.getLast? with
    | some last => counted messages [last] (prunedByWindow + removed.length) true
    | none => uncompressed messages
  else counted messages finalMessages (prunedByWindow + removed.length) true

/-- Step 4 of `compact` (lines 199–322), on the windowed messages. -/
def compactTokens (U : Unicode) (messages windowed : List CompactMessage)
    (config : CompactorConfig) (prunedByWindow : ℕ) : CompactionResult :=
  let working := workingMessages U windowed config
  let tokensAfterStopwords := totalTokens working
  if tokensAfterStopwords ≤ targetTokens (totalTokens messages) then
    if working.isEmpty then uncompressed messages
    else counted messages working prunedByWindow true
  else pruneOldest messages windowed working prunedByWindow

/-- `SimpleCompactor::compact` (lines 102–322). -/
def compact (U : Unicode) (messages : List CompactMessage) (config : CompactorConfig) :
    CompactionResult :=
  let originalTokens := totalTokens messages
  let originalCount := messages.length
  if originalTokens < config.tokenThreshold ∧ originalCount ≤ config.maxHistoryMessages then
    uncompressed messages
  else
    let windowed := windowedMessages messages config
    let prunedByWindow := originalCount - windowed.length
    let tokensAfterWindow := totalTokens windowed
    if tokensAfterWindow < config.tokenThreshold then
      if windowed.isEmpty then uncompressed messages
      else counted messages windowed prunedByWindow (decide (prunedByWindow > 0))
    else compactTokens U messages windowed config prunedByWindow

end SimpleCompactor

/-! ## `SemanticGuardedCompactor` -/

namespace SemanticGuardedCompactor

/-- `ScoredMessage` (lines 335–341). -/
structure ScoredMessage where
  index : ℕ
  message : CompactMessage
  score : Int32
  isProtected : Bool
  tokenCount : ℕ
deriving DecidableEq

/-- `<[char]>::windows(n)`. -/
def windows (n : ℕ) (chars : List Char) : List (List Char) :=
  (List.range (chars.length + 1 - n)).map fun i => (chars.drop i).take n

/-- `window` is `sep` at the positions `seps` and an ASCII digit at the
    positions `digits`. -/
def matchesDate (sep : Char) (seps digits : List ℕ) (window : List Char) : Bool :=
  (seps.all fun i => window[i]? == some sep) &&
    digits.all fun i => (window[i]?.map Char.isDigit).getD false

/-- `regex_lite_date_check` (lines 344–380): `YYYY-MM-DD` or `DD/MM/YYYY`. -/
def regexLiteDateCheck (text : String) : Bool :=
  let chars := text.toList
  if chars.length < 10 then false
  else (windows 10 chars).any fun window =>
    matchesDate '-' [4, 7] [0, 1, 2, 3, 5, 6, 8, 9] window ||
      matchesDate '/' [2, 5] [0, 1, 3, 4, 6, 7, 8, 9] window

/-- `tech_keywords` (lines 438–441). -/
def techKeywords : List String :=
  ["api", "endpoint", "token", "error", "config", "deploy", "database", "server", "port",
    "latency", "timeout", "cluster"]

/-- `calculate_score` (lines 388–461). -/
def calculateScore (U : Unicode) (msg : CompactMessage) (isLastUser : Bool)
    (lastUserTerms criticalMarkers : List String) : Int32 :=
  let contentLower := U.toLowercase msg.content
  let score : Int32 := 0
  let score := if msg.role == "system" then score + 100 else score
  let score := if isLastUser then score + 100 else score
  let score := criticalMarkers.foldl (fun score marker =>
    if Text.contains contentLower (U.toLowercase marker) then score + 80 else score) score
  let hasNumbers := contentLower.toList.any Char.isDigit
  let hasRoutes := Text.contains contentLower "/v1/" || Text.contains contentLower "http://" ||
    Text.contains contentLower "https://"
  let hasPercentages := contentLower.toList.contains '%'
  let hasDates := regexLiteDateCheck contentLower
  let score := if hasNumbers || hasPercentages then score + 30 else score
  let score := if hasRoutes then score + 30 else score
  let score := if hasDates then score + 20 else score
  let termsFound :=
    (lastUserTerms.filter fun term => Text.contains contentLower (U.toLowercase term)).length
  let score := score + Int32.ofNat termsFound * 20
  let techCount := (techKeywords.filter fun kw => Text.contains contentLower kw).length
  let score := score + Int32.ofNat techCount * 15
  let score := if Text.contains contentLower "contexto auxiliar" then score - 30 else score
  let score :=
    if Text.contains contentLower "serve apenas para aumentar" then score - 20 else score
  if msg.role == "assistant" && decide (Text.len msg.content < 30) then score - 20 else score

/-- `stop_words` of `extract_query_terms` (lines 465–469). -/
def queryStopWords : List String :=
  ["o", "a", "de", "do", "da", "em", "no", "na", "que", "é", "the", "is", "of", "in", "to", "and",
    "for", "it", "on", "um", "uma", "com", "por", "para", "se", "como", "mais"]

/-- `extract_query_terms` (lines 464–481). -/
def extractQueryTerms (U : Unicode) (content : String) : List String :=
  ((Text.splitWhitespace content).map fun w =>
    String.ofList ((U.toLowercase w).toList.filter U.isAlphanumeric)).filter fun w =>
      decide (Text.len w > 3) && !queryStopWords.contains w

/-- Some critical marker occurs in the message (lines 533–537). -/
def hasCriticalMarker (U : Unicode) (config : CompactorConfig) (msg : CompactMessage) : Bool :=
  config.criticalMarkers.any fun m =>
    Text.contains (U.toLowercase msg.content) (U.toLowercase m)

/-- `is_protected` (lines 531–537). -/
def isProtected (U : Unicode) (config : CompactorConfig) (isLastUser : Bool)
    (msg : CompactMessage) : Bool :=
  msg.role == "system" || isLastUser ||
    (config.preserveCriticalMarkers && hasCriticalMarker U config msg)

/-- `last_user_terms` (lines 513–515). -/
def lastUserTerms (U : Unicode) (messages : List CompactMessage) : List String :=
  (((lastUserIdx messages).bind fun idx => messages[idx]?).map fun m =>
    extractQueryTerms U m.content).getD []

/-- The entry of `scored` for message `i` (lines 521–546). -/
def scoredMessage (U : Unicode) (messages : List CompactMessage) (config : CompactorConfig)
    (msg : CompactMessage) (i : ℕ) : ScoredMessage :=
  let isLastUser := some i == lastUserIdx messages
  { index := i
    message := msg
    score :=
      calculateScore U msg isLastUser (lastUserTerms U messages) config.criticalMarkers
    isProtected := isProtected U config isLastUser msg
    tokenCount := messageTokens msg }

/-- `scored` (lines 518–547). -/
def scored (U : Unicode) (messages : List CompactMessage) (config : CompactorConfig) :
    List ScoredMessage :=
  messages.zipIdx.map fun e => scoredMessage U messages config e.1 e.2

/-- `target_tokens` (lines 508–509). -/
def targetTokens (A : F64.Rounding) (originalTokens : ℕ) (config : CompactorConfig) : ℕ :=
  max (A.mul (A.cast originalTokens) config.targetTokenRatio).toNat config.minFinalTokens

/-- `protected_tokens` (lines 550–554). -/
def protectedTokens (scored : List ScoredMessage) : ℕ :=
  ((scored.filter (·.isProtected)).map (·.tokenCount)).sum

/-- `removable` after the stable `sort_by_key` (lines 579–581). -/
def removable (scored : List ScoredMessage) : List ScoredMessage :=
  (scored.filter (!·.isProtected)).insertionSort fun s t => s.score ≤ t.score

/-- `removed_indices` after the removal loop (lines 584–594). -/
def removedIndices (scored : List ScoredMessage) (originalTokens targetTokens : ℕ) : List ℕ :=
  (Lib.removeUntil (·.tokenCount) targetTokens originalTokens (removable scored)).map (·.index)

/-- `SemanticGuardedCompactor::compact` (lines 491–617). -/
def compact (A : F64.Rounding) (U : Unicode) (messages : List CompactMessage)
    (config : CompactorConfig) : CompactionResult :=
  let originalTokens := totalTokens messages
  if originalTokens < config.tokenThreshold then uncompressed messages
  else
    let target := targetTokens A originalTokens config
    let scored := scored U messages config
    if protectedTokens scored ≥ target then
      let finalMessages := (scored.filter (·.isProtected)).map (·.message)
      counted messages finalMessages (messages.length - finalMessages.length) true
    else
      let removed := removedIndices scored originalTokens target
      let finalMessages := (scored.filter fun s => !removed.contains s.index).map (·.message)
      counted messages finalMessages (messages.length - finalMessages.length) true

end SemanticGuardedCompactor

end Melis.Compactor
