import AskMetrics.Http.Exchange
import AskMetrics.Service.Config

/-!
# Sharing across origins

A browser lets a page of another origin use the service only if the service says so. It asks
beforehand with a request of its own kind, which is answered without going any further.
-/
namespace AskMetrics.Service

open Http

/-- What a response says of the origin of a request. Without a list of origins all are allowed;
with a list, the origin itself is named if it is on it. -/
def originHeaders (c : Config) (origin : Option String) : Headers :=
  if c.corsOrigins.isEmpty then [("access-control-allow-origin", "*")]
  else
    (match origin with
    | some o => if c.allowsOrigin o then [("access-control-allow-origin", o)] else []
    | none => []) ++
    (if c.corsAllowsCredentials then [("access-control-allow-credentials", "true")] else [])

/-- What the answer to a question says besides. -/
def preflightHeaders (c : Config) : Headers :=
  [("access-control-allow-methods", "GET,POST,OPTIONS"),
    ("access-control-allow-headers", "content-type,accept,authorization"),
    ("access-control-max-age", toString c.corsMaxAgeSecs)]

/-- What any other response says besides. -/
def sharedHeaders : Headers :=
  [("access-control-expose-headers", "x-ratelimit-limit,retry-after")]

end AskMetrics.Service
