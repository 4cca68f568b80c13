import Melis.Router.Contacts

/-!
# What the failover loop records

The breaker learns of a contact through `record_result`. An awaited exchange
records by its outcome; an error answer other than 429 and 5xx says nothing
about the provider and is not recorded. A stream is recorded when it is handed
over, before the upstream has answered.

* `recorded_contacts`: how many results are recorded, and which.
* `unrecorded_contacts`: an answer of 400 records nothing, and a stream that
  fails records a success.
-/

namespace Melis.Router

open CircuitBreaker Client

/-- The results recorded for an awaited exchange agree with the reply. If the
    body of a 2xx answer breaks off by a timeout, it is one that is not a
    success. -/
def RecordedFor : Reply → List CallResult → Prop
  | .unanswered true _, results => results = [.timeout]
  | .unanswered false _, results => results = [.failure]
  | .answered status body, results =>
    if isSuccess status then
      match body with
      | .complete _ _ => results = [.success]
      | .broken false _ => results = [.failure]
      | .broken true _ => ∃ r, r ≠ .success ∧ results = [r]
    else if status = 429 then results = [.rateLimited]
    else if 500 ≤ status then results = [.failure]
    else results = []

/-- Every contact of the run is recorded: once if it is a stream, and by its
    reply if it is awaited. -/
def RecordsContacts (req : ChatRequest) (s : LoopState) : Prop :=
  ∀ a ∈ s.attempts, ∀ c, a.contact = some c →
    if req.streaming then a.recorded.length = 1 else RecordedFor c.reply a.recorded

theorem httpErrorOutcome_recorded (model : String) (status : ℕ) (errBody : String) :
    (httpErrorOutcome model status errBody).1 =
      if status = 429 then [.rateLimited] else if 500 ≤ status then [.failure] else [] := by
  unfold httpErrorOutcome
  split_ifs <;> first | rfl | omega

/-- What an awaited exchange records. -/
theorem recordedFor_sendOutcome (J : SerdeJson) (model providerType : String) (reply : Reply) :
    RecordedFor reply (sendOutcome J model providerType (send reply)).1 := by
  match reply with
  | .unanswered true _ => rfl
  | .unanswered false _ => rfl
  | .answered status body =>
    simp only [RecordedFor]
    split_ifs with hsuccess h429 h500
    · match body with
      | .complete _ _ => simp [send, hsuccess, sendOutcome]
      | .broken false _ => simp [send, hsuccess, sendOutcome]
      | .broken true _ => exact ⟨.failure, by decide, by simp [send, hsuccess, sendOutcome]⟩
    all_goals
      rw [send_answered_of_not_success (Bool.eq_false_iff.mpr hsuccess)]
      simp only [sendOutcome, httpErrorOutcome_recorded]
      split_ifs
      rfl

/-- **Recording.** A streamed request records exactly one result for each
    provider it contacts. A request that is not streamed records `Success` for a
    2xx answer, `RateLimited` for 429, `Failure` for 5xx and for a network error,
    `Timeout` for a timeout before the answer, and nothing for any other
    status. -/
theorem recorded_contacts (G : Gateway) (env : ℕ → Surroundings) (req : ChatRequest)
    (shared : Shared) : RecordsContacts req (chatCompletions G env req shared).1 := by
  intro a ha c hc
  have hsound := (chatCompletions_ended G env req shared).sound a ha
  obtain ⟨-, -, -, hrecorded⟩ := hsound.contact c hc
  have hstreaming : (G.job req).streaming = req.streaming := rfl
  rw [hrecorded]
  split_ifs with h
  · simp [exchange, hstreaming, h]
  · rw [exchange_of_awaited (hstreaming.trans (Bool.eq_false_iff.mpr h))]
    exact recordedFor_sendOutcome _ _ _ _

/-- Contacted or not, and what was recorded, attempt by attempt. -/
def LoopState.records (s : LoopState) : List (Bool × List CallResult) :=
  s.attempts.map fun a => (a.contact.isSome, a.recorded)

/-- A route to one provider. -/
def single : Gateway := oneRoute [⟨"openai", 1, "gpt-4o"⟩]

/-- An answer of 400 leaves no record of the contact, and a stream that the
    upstream refuses with 500 leaves a success. -/
theorem unrecorded_contacts :
    (chatCompletions single (fun _ => alone 0 (.answered 400 (.complete [] "")))
        (questionTo "gpt-4o" false) freshShared).1.records = [(true, [])] ∧
      (chatCompletions single (fun _ => alone 0 (.answered 500 (.complete [] "")))
        (questionTo "gpt-4o" true) freshShared).1.records = [(true, [.success])] := by
  decide

end Melis.Router
