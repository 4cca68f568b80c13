import Melis.Common.Error
import Melis.Common.Lines
import Melis.Config.Basic
import Melis.RateLimiter.Model

/-!
# Middleware (`middleware/auth.rs`, `middleware/rate_limiter.rs`)

What happens to a request before it reaches a handler, when authentication is on: the
`Authorization` header is checked against the key table, then a token of the client
is taken from the rate limiter.

* `authMiddleware_eq_ok_iff`: the requests that are authenticated.
* `rateLimitMiddleware_isOk_iff`: the requests that are let through.
-/

namespace Melis.Middleware

open RateLimiter

/-! ## Authentication -/

/-- `ClientIdentity` (`auth.rs` lines 13–18). -/
structure ClientIdentity where
  clientId : String
  rateLimitConfig : Option ClientRateLimit
  allowedModels : List String
deriving DecidableEq

/-- `str::splitn(2, sep)`. -/
def splitn2 (s : String) (sep : Char) : List String :=
  match s.toList.dropWhile (· != sep) with
  | [] => [s]
  | _ :: rest => [String.ofList (s.toList.takeWhile (· != sep)), String.ofList rest]

/-- `str::eq_ignore_ascii_case`. -/
def eqIgnoreAsciiCase (s t : String) : Bool :=
  s.toList.map Char.toLower == t.toList.map Char.toLower

/-- `token` (`auth.rs` lines 75–90). `authHeader` is the `Authorization` header, if
    there is one and it is text. -/
def bearerToken (authHeader : Option String) : Except GatewayError String :=
  match authHeader with
  | none => .error (.unauthorized "Missing Authorization header")
  | some headerValue =>
    match splitn2 headerValue ' ' with
    | [scheme, token] =>
      if !eqIgnoreAsciiCase scheme "Bearer" || Text.isEmpty token then
        .error (.unauthorized "Invalid Authorization format. Expected 'Bearer <token>'")
      else .ok token
    | _ => .error (.unauthorized "Invalid Authorization format. Expected 'Bearer <token>'")

/-- The identity that an entry of the key table gives (`auth.rs` lines 52–56). -/
def identityOf (entry : ApiKeyEntry) : ClientIdentity where
  clientId := entry.clientId
  rateLimitConfig := entry.rateLimit
  allowedModels := entry.allowedModels

/-- `ConfigAuthValidator::validate` (`auth.rs` lines 44–57). -/
def validateToken (config : AuthConfig) (token : String) : Except GatewayError ClientIdentity :=
  match config.apiKeys.find? fun entry => entry.key == token with
  | none => .error (.unauthorized "Invalid API key")
  | some entry => .ok (identityOf entry)

/-- `auth_middleware` (`auth.rs` lines 64–98): the identity that the inner handler
    runs with, or the answer. -/
def authMiddleware (config : AuthConfig) (authHeader : Option String) :
    Except GatewayError ClientIdentity :=
  match bearerToken authHeader with
  | .error e => .error e
  | .ok token => validateToken config token

theorem authMiddleware_eq_ok_iff {config : AuthConfig} {authHeader : Option String}
    {identity : ClientIdentity} :
    authMiddleware config authHeader = .ok identity ↔
      ∃ token entry, bearerToken authHeader = .ok token ∧
        (config.apiKeys.find? fun entry => entry.key == token) = some entry ∧
        identityOf entry = identity := by
  unfold authMiddleware validateToken
  constructor
  · intro h
    split at h
    · cases h
    · next token htoken =>
      split at h
      · cases h
      · next entry hentry => exact ⟨token, entry, htoken, hentry, Except.ok.inj h⟩
  · rintro ⟨token, entry, htoken, hentry, rfl⟩
    rw [htoken]
    dsimp only
    rw [hentry]

/-! ## Rate limiting -/

/-- `config` (`rate_limiter.rs` lines 245–254). -/
def effectiveRateLimit (defaults : RateLimitConfig) (identity : ClientIdentity) :
    RateLimitConfig :=
  match identity.rateLimitConfig with
  | some clientRl => ⟨clientRl.burstCapacity, clientRl.refillRate⟩
  | none => defaults

/-- `rate_limit_middleware` (`rate_limiter.rs` lines 226–288) on what `try_acquire`
    answers: the `X-RateLimit-Remaining` of the response, or the answer. -/
def rateLimitMiddleware : Except ℕ ℕ → Except GatewayError (Option ℕ)
  | .ok remaining => .ok (some remaining)
  | .error retryAfterSecs =>
    if retryAfterSecs = 0 then .ok none else .error (.rateLimited retryAfterSecs)

theorem rateLimitMiddleware_isOk_iff {answer : Except ℕ ℕ} :
    (∃ remaining, rateLimitMiddleware answer = .ok remaining) ↔
      ∀ secs, answer = .error secs → secs = 0 := by
  match answer with
  | .ok remaining => simp [rateLimitMiddleware]
  | .error secs => by_cases h : secs = 0 <;> simp [rateLimitMiddleware, h]

end Melis.Middleware
