import Melis.Router.Frame
import Melis.Router.Turn

/-!
# Contacts of the failover loop

What holds of the providers a request contacts, in any surroundings.

* `Settles.not_retry`, `exchange_success`: when an awaited exchange is not
  retried, and when it succeeds.
* `contacts_sound`: each provider once, three at most, only those let through,
  none after a settled answer, and success only from the last.
-/

namespace Melis.Router

open CircuitBreaker Client

/-! ## The record of a request -/

/-- The attempts at which a provider was contacted. -/
def LoopState.contacted (s : LoopState) : List Attempt := s.attempts.filter (·.contact.isSome)

section Handler

variable (G : Gateway) (env : ℕ → Surroundings) (req : ChatRequest) (shared : Shared)

/-- The handler ends as its loop does; a rejected payload makes no attempt. -/
theorem chatCompletions_ended :
    Ended (G.job req) (maxAttempts (G.job req)) (chatCompletions G env req shared).1
      (chatCompletions G env req shared).2 := by
  unfold chatCompletions
  cases validateChatPayload req.payload with
  | ok _ => exact failover_ended (G.job req) env shared
  | error e =>
    exact (loopInv_start (G.job req) shared).ended_same (Nat.zero_le _) shared (by simp) (by simp)

end Handler

/-! ## Awaited exchanges -/

/-- An answer after which no other provider is asked: a 2xx answer whose body
    arrived, or a client error that is not retried. -/
def Settles (reply : Reply) : Prop :=
  (∃ bytes, send reply = .ok bytes) ∨
    ∃ status body, reply = .answered status body ∧
      (status = 400 ∨ status = 401 ∨ status = 403 ∨ status = 404)

theorem isSuccess_eq_false {status : ℕ} (h : 300 ≤ status) : isSuccess status = false := by
  simp [isSuccess]
  omega

theorem exchange_of_awaited {job : Job} (h : job.streaming = false) (endpoint : Endpoint)
    (reply : Reply) : exchange job endpoint reply =
      sendOutcome job.J job.model endpoint.providerType (send reply) := by
  simp [exchange, h]

/-- A settled answer is not retried. -/
theorem Settles.not_retry {job : Job} (hawaited : job.streaming = false) {endpoint : Endpoint}
    {reply : Reply} (h : Settles reply) {recorded : List CallResult} {e : GatewayError} :
    exchange job endpoint reply ≠ (recorded, .retry e) := by
  rw [exchange_of_awaited hawaited]
  rcases h with ⟨bytes, hsend⟩ | ⟨status, body, rfl, hstatus⟩
  · simp [hsend, sendOutcome]
  · rw [send_answered_of_not_success (isSuccess_eq_false (by omega))]
    rcases hstatus with rfl | rfl | rfl | rfl <;> simp [sendOutcome, httpErrorOutcome]

/-- Success is the response made of a 2xx answer. -/
theorem exchange_success {job : Job} (hawaited : job.streaming = false) {endpoint : Endpoint}
    {reply : Reply} {recorded : List CallResult} {r : Response}
    (h : exchange job endpoint reply = (recorded, .answer (.ok r))) :
    ∃ bytes v, send reply = .ok bytes ∧ job.J.fromSlice bytes = some v ∧
      r = .json (finalResponse job.J endpoint.providerType v) := by
  rw [exchange_of_awaited hawaited] at h
  cases hsend : send reply with
  | ok bytes =>
    rw [hsend] at h
    cases hv : job.J.fromSlice bytes with
    | some v =>
      simp only [sendOutcome, hv, Prod.mk.injEq, Verdict.answer.injEq, Except.ok.injEq] at h
      exact ⟨bytes, v, rfl, hv, h.2.symm⟩
    | none => simp [sendOutcome, hv] at h
  | error e =>
    rw [hsend] at h
    cases e with
    | httpError status body =>
      simp only [sendOutcome, httpErrorOutcome] at h
      split_ifs at h <;> simp at h
    | _ => simp [sendOutcome] at h

theorem response_eq_ok {run : LoopState × Exit} {r : Response} (h : response run = .ok r) :
    run.2 = .answered (.ok r) := by
  unfold response at h
  split at h
  · next result he => rw [he, h]
  · cases h

/-- **Contacts.** A request that is not streamed contacts each provider name at
    most once and at most three in total, only providers of the route that the
    breaker let through in the same attempt, and none after a settled answer. It
    succeeds only with the response of the last provider it contacted. -/
theorem contacts_sound (G : Gateway) (env : ℕ → Surroundings) (req : ChatRequest)
    (shared : Shared) (hawaited : req.streaming = false) :
    let run := chatCompletions G env req shared
    (run.1.contacted.map (·.selected.name)).Nodup ∧ run.1.contacted.length ≤ 3 ∧
    (∀ a ∈ run.1.contacted, a.selected ∈ (G.resolve req).providers ∧
      a.available G.config = true) ∧
    (∀ pre a post c, run.1.attempts = pre ++ a :: post → a.contact = some c →
      Settles c.reply → post = []) ∧
    (∀ r, response run = .ok r → ∃ pre a c bytes v, run.1.attempts = pre ++ [a] ∧
      a.contact = some c ∧ send c.reply = .ok bytes ∧ G.J.fromSlice bytes = some v ∧
      r = .json (finalResponse G.J c.endpoint.providerType v)) := by
  intro run
  have h := chatCompletions_ended G env req shared
  have hjob : (G.job req).streaming = false := hawaited
  have hsub : run.1.contacted.Sublist run.1.attempts := List.filter_sublist
  refine ⟨h.nodup.sublist (hsub.map _), ?_, fun a ha => ?_, ?_, fun r hr => ?_⟩
  · exact hsub.length_le.trans (h.length.trans (maxAttempts_le _))
  · have hsound := h.sound a (hsub.subset ha)
    obtain ⟨c, hc⟩ := Option.isSome_iff_exists.mp (List.mem_filter.mp ha).2
    exact ⟨hsound.selected, (hsound.contact c hc).1⟩
  · intro pre a post c he hc hsettles
    by_contra hpost
    rcases h.retried pre a post he hpost with ⟨hnone, -⟩ | ⟨c', e, hc', -, hexchange⟩
    · rw [hc] at hnone
      cases hnone
    · obtain rfl : c = c' := Option.some.inj (hc.symm.trans hc')
      exact hsettles.not_retry hjob hexchange
  · obtain ⟨pre, a, c, he, hc, hexchange⟩ := h.success r (response_eq_ok hr)
    obtain ⟨bytes, v, hsend, hv, hrv⟩ := exchange_success hjob hexchange
    exact ⟨pre, a, c, bytes, v, he, hc, hsend, hv, hrv⟩

/-! ## Example -/

/-- The JSON functions on the text of an empty object. -/
def emptyObjectJson : SerdeJson where
  fromSlice bytes := if bytes = [0x7b, 0x7d] then some (.object []) else none
  fromStr text := if text = "\x7b\x7d" then some (.object []) else none
  toString _ := "\x7b\x7d"

/-- A gateway with one route to `providers`, and the default configuration. -/
def oneRoute (providers : List WeightedProvider) : Gateway where
  U := Unicode.ascii
  J := emptyObjectJson
  config := ⟨[], .default, .default⟩
  resolver := .new Unicode.ascii
    { routes := [⟨"/v1/chat/completions", "POST", none, none, some providers, none⟩] }

/-- A question to the route of `oneRoute`. -/
def questionTo (model : String) (stream : Bool) : ChatRequest where
  path := "/v1/chat/completions"
  accept := none
  payload := .json [("model", .string model), ("messages", .array question),
    ("stream", .bool stream)]

/-- A new gateway: no selection and no call yet. -/
def freshShared : Shared := ⟨0, .new⟩

/-- The first of two providers answers 404: it is the only one contacted. -/
theorem contacts_sound_pair :
    let run := chatCompletions (oneRoute [⟨"openai", 1, "gpt-4o"⟩, ⟨"ollama", 1, "llama3"⟩])
      (fun _ => alone 0 (.answered 404 (.complete [] ""))) (questionTo "gpt-4o" false) freshShared
    run.1.contacted.length ≤ 3 ∧ ∃ a c, run.1.attempts = [a] ∧ a.contact = some c ∧
      Settles c.reply := by
  intro run
  obtain ⟨-, hlength, -, hsettled, -⟩ := contacts_sound
    (oneRoute [⟨"openai", 1, "gpt-4o"⟩, ⟨"ollama", 1, "llama3"⟩])
    (fun _ => alone 0 (.answered 404 (.complete [] ""))) (questionTo "gpt-4o" false) freshShared rfl
  have hreplies : ∃ a c post, run.1.attempts = a :: post ∧ a.contact = some c ∧
      c.reply = .answered 404 (.complete [] "") :=
    ⟨_, _, _, rfl, rfl, rfl⟩
  obtain ⟨a, c, post, hattempts, hcontact, hreply⟩ := hreplies
  have hsettles : Settles c.reply := .inr ⟨404, _, hreply, by decide⟩
  obtain rfl : post = [] := hsettled [] a post c hattempts hcontact hsettles
  exact ⟨hlength, a, c, hattempts, hcontact, hsettles⟩

end Melis.Router
