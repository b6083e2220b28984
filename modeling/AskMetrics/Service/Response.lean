import AskMetrics.Http.Exchange
import AskMetrics.Service.Rejection

/-!
# Responses of the service

Responses hold JSON: the data that was asked for in an envelope that tells of success, or the
envelope of a rejection.
-/
namespace AskMetrics.Service

open Http

/-- A response that holds JSON. -/
def jsonResponse (status : Nat) (body : Json) : Response :=
  ⟨status, [("content-type", "application/json")], body.render⟩

/-- A response with the data that was asked for. -/
def dataResponse (status : Nat) (data : Json) : Response :=
  jsonResponse status (.record [("success", .bool true), ("data", data)])

/-- The response to a rejected request. -/
def rejectionResponse (r : Rejection) : Response := jsonResponse r.status r.envelope

/-- A response without a body. -/
def emptyResponse (status : Nat) : Response := ⟨status, [], ""⟩

/-- The headers that every response has. -/
def securityHeaders : Headers :=
  [("x-content-type-options", "nosniff"), ("x-frame-options", "DENY"),
    ("referrer-policy", "no-referrer"), ("x-xss-protection", "0"),
    ("cross-origin-resource-policy", "same-origin")]

/-- Adds the headers that every response has, where they are not set. -/
def secured (r : Response) : Response :=
  securityHeaders.foldl
    (fun r h => if (r.headers.get? h.1).isSome then r else r.withHeader h.1 h.2) r

end AskMetrics.Service
