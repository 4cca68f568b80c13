import Mathlib

/-!
# Gateway errors (`error.rs`)

The errors of the handlers and what the client gets for them. The body is JSON with
one field `error`, whose `code` is left out when there is none.
-/

namespace Melis

/-- `GatewayError` (`error.rs` lines 26–47). -/
inductive GatewayError where
  | badRequest (message : String)
  | unauthorized (message : String)
  | rateLimited (retryAfterSecs : ℕ)
  | payloadTooLarge
  | serviceUnavailable (message : String)
  | internal (message : String)
  | providerError (message : String)
deriving DecidableEq

/-- `ErrorDetail` (lines 17–23). -/
structure ErrorDetail where
  message : String
  type : String
  code : Option String
deriving DecidableEq

/-- The answer to an error: the status, the `Retry-After` header if there is one, and
    the detail in the body. -/
structure ErrorReply where
  status : ℕ
  retryAfter : Option String
  error : ErrorDetail
deriving DecidableEq

/-- `GatewayError::into_response` (lines 49–110). -/
def GatewayError.intoResponse : GatewayError → ErrorReply
  | .badRequest msg => ⟨400, none, ⟨msg, "invalid_request_error", none⟩⟩
  | .unauthorized msg => ⟨401, none, ⟨msg, "authentication_error", none⟩⟩
  | .rateLimited retryAfterSecs =>
    ⟨429, some (toString retryAfterSecs),
      ⟨s!"Rate limit exceeded. Retry after {retryAfterSecs} seconds.", "rate_limit_error", none⟩⟩
  | .payloadTooLarge =>
    ⟨413, none, ⟨"Payload size exceeds 10MB limit.", "invalid_request_error", none⟩⟩
  | .serviceUnavailable msg => ⟨503, none, ⟨msg, "service_error", none⟩⟩
  | .internal msg => ⟨500, none, ⟨msg, "internal_error", none⟩⟩
  | .providerError msg => ⟨502, none, ⟨msg, "provider_error", none⟩⟩

end Melis
