/-
KDown/Errors.lean

The engine's error taxonomy (error.rs) and the retry classifier
(control/retry.rs).

Whether a failed request is tried again depends on the kind of the error and on
the retry policy; delays are left out, since no transition here depends on how
long a worker waits.
-/
import Mathlib.Tactic.Common

namespace KDown

/-- The engine's error taxonomy. -/
inductive DownloadError
  | configuration (detail : String)
  | invalidUrl (detail : String)
  | unsupportedScheme (detail : String)
  | dns (detail : String)
  | connectTimeout
  | connection (detail : String)
  | tls (detail : String)
  | proxy (detail : String)
  | authenticationRequired
  | authorizationFailed
  | notFound (status : ℕ)
  | server (status : ℕ)
  | rateLimited (status : ℕ)
  | redirect (detail : String)
  | protocol (detail : String)
  | rangeUnsupported
  | invalidRangeResponse (detail : String)
  | resourceChanged (detail : String)
  | unknownLengthUnsupportedForMode
  | sinkOpen (detail : String)
  | sinkWrite (detail : String)
  | diskFull (detail : String)
  | permissionDenied (detail : String)
  | checkpoint (detail : String)
  | integrityMismatch (detail : String)
  | commit (detail : String)
  | destinationConflict (detail : String)
  | cancelled
  | deadlineExceeded
  | retryExhausted (source : DownloadError)
  | memoryCapExceeded (component : String) (requested cap : ℕ)
  | admissionRejected (active cap : ℕ)

/-- The error a status other than 200 and 206 stands for. -/
def statusToError (status : ℕ) : DownloadError :=
  if status = 404 ∨ status = 410 then .notFound status
  else if status = 401 then .authenticationRequired
  else if status = 403 then .authorizationFailed
  else if status = 407 then .proxy "proxy authentication required (407)"
  else if status = 408 then .protocol "408 request timeout"
  else if status = 429 then .rateLimited status
  else if 500 ≤ status ∧ status ≤ 599 then .server status
  else .protocol s!"unexpected status {status}"

/-- The text of an error. -/
def DownloadError.message : DownloadError → String
  | .configuration d => s!"configuration invalid: {d}"
  | .invalidUrl d => s!"invalid URL: {d}"
  | .unsupportedScheme d => s!"unsupported URL scheme: {d}"
  | .dns d => s!"DNS failure: {d}"
  | .connectTimeout => "connect timeout"
  | .connection d => s!"connection error: {d}"
  | .tls d => s!"TLS error: {d}"
  | .proxy d => s!"proxy error: {d}"
  | .authenticationRequired => "authentication required"
  | .authorizationFailed => "authorization failed"
  | .notFound status => s!"resource not found (HTTP {status})"
  | .server status => s!"server error (HTTP {status})"
  | .rateLimited status => s!"rate limited (HTTP {status})"
  | .redirect d => s!"redirect error: {d}"
  | .protocol d => s!"protocol violation: {d}"
  | .rangeUnsupported => "range requests unsupported"
  | .invalidRangeResponse d => s!"invalid range response: {d}"
  | .resourceChanged d => s!"resource changed: {d}"
  | .unknownLengthUnsupportedForMode => "unknown content length unsupported for requested mode"
  | .sinkOpen d => s!"cannot open sink: {d}"
  | .sinkWrite d => s!"cannot write sink: {d}"
  | .diskFull d => s!"disk full: {d}"
  | .permissionDenied d => s!"permission denied: {d}"
  | .checkpoint d => s!"checkpoint error: {d}"
  | .integrityMismatch d => s!"integrity mismatch: {d}"
  | .commit d => s!"commit failed: {d}"
  | .destinationConflict d => s!"destination conflict: {d}"
  | .cancelled => "cancelled"
  | .deadlineExceeded => "deadline exceeded"
  | .retryExhausted source => s!"retries exhausted: {source.message}"
  | .memoryCapExceeded component requested cap =>
      s!"transfer-memory cap exceeded: {component} allocation of {requested} bytes exceeds cap {cap}"
  | .admissionRejected active cap =>
      s!"active-job admission rejected: {active} of {cap} jobs admitted"

/-! ### Retry classification -/

/-- The part of the retry policy that decides whether to try again. -/
structure RetryPolicy where
  retry5xx : Bool
  retry429 : Bool
  retry408 : Bool
  maxAttemptsPerSegment : ℕ
  deriving DecidableEq, Repr

/-- The status an error carries. -/
def DownloadError.httpStatus : DownloadError → Option ℕ
  | .notFound status => some status
  | .server status => some status
  | .rateLimited status => some status
  | _ => none

namespace RetryPolicy

/-- Whether this error may be retried. -/
def retryable (p : RetryPolicy) (err : DownloadError) : Bool :=
  match err with
  | .dns _ | .connectTimeout | .connection _ | .retryExhausted _ => true
  | .server _ => p.retry5xx
  | .rateLimited _ => p.retry429
  | .protocol _ => if err.httpStatus = some 408 then p.retry408 else true
  | _ => false

/-- The number of the next attempt, or `none` to give up. -/
def decide (p : RetryPolicy) (err : DownloadError) (attempt : ℕ) : Option ℕ :=
  match err with
  | .cancelled => none
  | err =>
      if !p.retryable err then none
      else if p.maxAttemptsPerSegment ≤ attempt then none
      else some (attempt + 1)

end RetryPolicy

end KDown
