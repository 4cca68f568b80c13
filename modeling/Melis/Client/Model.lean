import Mathlib

/-!
# The HTTP client (`client.rs`)

`ReqwestLlmClient::send` as a function of what the network did. `reqwest` is
third-party code; `Reply` is what it reports to `send`: no answer at all, or a
status with a body that arrives or breaks off.

* `send_eq_ok_iff`: `send` returns a body exactly for a 2xx answer whose body
  arrived.
-/

namespace Melis.Client

/-- `ClientError` (lines 20–36). -/
inductive ClientError where
  | timeout
  | httpError (status : ℕ) (body : String)
  | networkError (message : String)
  | streamError (message : String)
deriving DecidableEq

/-- The `Display` of `ClientError` (lines 22–34). -/
def ClientError.display : ClientError → String
  | timeout => "Request timed out"
  | httpError status body => s!"HTTP error {status}: {body}"
  | networkError message => s!"Network error: {message}"
  | streamError message => s!"Stream error: {message}"

/-- Reading the body of an answer: the bytes, with their text as
    `Response::text` decodes it, or an error. -/
inductive Body where
  | complete (bytes : List UInt8) (text : String)
  | broken (isTimeout : Bool) (error : String)
deriving DecidableEq

/-- What `reqwest` reports for one request. -/
inductive Reply where
  | unanswered (isTimeout : Bool) (error : String)
  | answered (status : ℕ) (body : Body)
deriving DecidableEq

/-- `StatusCode::is_success`. -/
def isSuccess (status : ℕ) : Bool := decide (200 ≤ status ∧ status < 300)

/-- `response.text().await.unwrap_or_else(…)` (lines 138–141). -/
def bodyText : Body → String
  | .complete _ text => text
  | .broken _ _ => "Failed to read error body"

/-- `send` (lines 113–152). -/
def send : Reply → Except ClientError (List UInt8)
  | .unanswered true _ => .error .timeout
  | .unanswered false error => .error (.networkError error)
  | .answered status body =>
    if isSuccess status then
      match body with
      | .complete bytes _ => .ok bytes
      | .broken _ error => .error (.networkError error)
    else .error (.httpError status (bodyText body))

theorem send_answered_of_not_success {status : ℕ} (h : isSuccess status = false) (body : Body) :
    send (.answered status body) = .error (.httpError status (bodyText body)) := by
  simp [send, h]

theorem send_eq_ok_iff {reply : Reply} {bytes : List UInt8} :
    send reply = .ok bytes ↔
      ∃ status text, isSuccess status = true ∧ reply = .answered status (.complete bytes text) := by
  constructor
  · intro h
    match reply with
    | .unanswered true _ => cases h
    | .unanswered false _ => cases h
    | .answered status (.complete b text) =>
      simp only [send] at h
      split_ifs at h with hs
      · cases h
        exact ⟨status, text, hs, rfl⟩
    | .answered status (.broken _ _) =>
      simp only [send] at h
      split_ifs at h
  · rintro ⟨status, text, hs, rfl⟩
    simp [send, hs]

end Melis.Client
