import Melis.Lib.Words
import Melis.Lib.Selection
import Melis.Lib.Greedy
import Melis.Lib.Rposition
import Melis.Lib.Run
import Melis.Lib.Threads
import Melis.Lib.Weighted
import Melis.Lib.Residues
import Melis.Lib.TokenBucket
import Melis.Lib.ExpiringHash
import Melis.Lib.Framing
import Melis.Common.Error
import Melis.Common.F64
import Melis.Common.Json
import Melis.Common.Text
import Melis.Common.Time
import Melis.Config.Basic
import Melis.Config.Validate
import Melis.Compactor.Model
import Melis.Compactor.Simple
import Melis.Compactor.SlidingWindow
import Melis.Compactor.Window
import Melis.Compactor.LastUser
import Melis.Compactor.Semantic
import Melis.Compactor.Accounting
import Melis.Compactor.NonEmpty
import Melis.Compactor.Minimum
import Melis.Compactor.Pruning
import Melis.Compactor.Threshold
import Melis.Compactor.Survivors
import Melis.Compactor.StopWords
import Melis.Compactor.Counting
import Melis.CircuitBreaker.Model
import Melis.CircuitBreaker.HalfOpen
import Melis.CircuitBreaker.Operations
import Melis.CircuitBreaker.Opening
import Melis.CircuitBreaker.Backoff
import Melis.CircuitBreaker.Growth
import Melis.CircuitBreaker.Pruning
import Melis.CircuitBreaker.Providers
import Melis.RateLimiter.Model
import Melis.RateLimiter.Redis
import Melis.RateLimiter.Bound
import Melis.RateLimiter.Agreement
import Melis.RateLimiter.RetryAfter
import Melis.RouteConfig.Model
import Melis.RouteConfig.Validate
import Melis.RouteConfig.Reload
import Melis.Middleware.Model
import Melis.Middleware.FailOpen
import Melis.Middleware.Authentication
import Melis.Middleware.Gate
import Melis.Embeddings.Model
import Melis.Router.Registration
import Melis.Balancer.Model
import Melis.Balancer.Distribution
import Melis.Balancer.Tolerance
import Melis.Balancer.Failover
import Melis.Balancer.ZeroWeight
import Melis.Transpiler.Anthropic
import Melis.Client.Model
import Melis.Client.Sse
import Melis.Client.Delivery
import Melis.Router.Payload
import Melis.Router.Frame
import Melis.Router.Failover
import Melis.Router.Turn
import Melis.Router.Compaction
import Melis.Router.EmptyContent
import Melis.Router.Contacts
import Melis.Router.Recording
import Melis.Router.SentModel
import Melis.Router.ClientErrors
import Melis.Router.StreamFlag
import Melis.Router.FirstSelection
import Melis.Router.ProviderLookup
import Melis.Router.Exhaustion
import Melis.Router.Traffic
import Melis.Common.Utf8
import Melis.Common.Lines
import Melis.Transpiler.Message
import Melis.Transpiler.Chunk
import Melis.Transpiler.ToolCalls
import Melis.Router.Answer
import Melis.Router.Authorization
import Melis.Streaming.Model
import Melis.Streaming.Text
import Melis.Streaming.OpenAi
import Melis.Transpiler.Factory
import Melis.Transpiler.Parts
import Melis.Transpiler.Tools
import Melis.Transpiler.Inquiry
import Melis.Transpiler.AnthropicInquiry
import Melis.Transpiler.GeminiInquiry
import Melis.Streaming.Terminator
import Melis.Streaming.Whole
import Melis.Router.NativeText
import Melis.Embeddings.Response
import Melis.Router.Codec
import Melis.Observability.Model
import Melis.Router.Samples
import Melis.Router.Threads
import Melis.Router.Interleaving
import Melis.Router.SharedState
import Melis.Router.Progress
import Melis.Router.OpenCircuit
import Melis.Router.Readmission
import Melis.Router.Admission
import Melis.Router.Metering
import Melis.Router.Accounts
import Melis.Router.Http
import Melis.Router.Inquiries
