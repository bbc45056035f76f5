import Mathlib.Init

/-!
# Package `exporterrors`

The classes of a failed export, and the HTTP statuses that no resend of the same bytes can fix. The
event output and the OTLP output both sort their failures with them.
-/

namespace SenhubAgent

/-- The three classes of package `exporterrors`. -/
inductive ErrClass where
  | transport | configuration | validation
  deriving DecidableEq, Repr

/-- `exporterrors.IsRetryable`. -/
def ErrClass.isRetryable : ErrClass → Bool
  | .transport => true
  | .configuration => false
  | .validation => false

/-- `exporterrors.IsPermanentHTTPStatus`: every 4xx but those a later attempt plausibly recovers
from. -/
def isPermanentHTTPStatus (status : Nat) : Bool :=
  if status < 400 || 500 ≤ status then false
  else !(status == 408 || status == 429 || status == 401 || status == 403)

end SenhubAgent
