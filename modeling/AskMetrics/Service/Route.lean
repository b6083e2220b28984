import AskMetrics.Http.Form
import AskMetrics.Http.MediaType
import AskMetrics.Service.Input

/-!
# Routes

The service has seven routes, each with a path and a method. What a request brings to its route is
read here: the body of a question and the parameters of a query.
-/
namespace AskMetrics.Service

open Http Prometheus

/-- What the service can be asked for. -/
inductive Route where
  | index
  | metrics
  | ask
  | queryRange
  | queryInstant
  | health
  | models
  deriving DecidableEq, Repr

namespace Route

/-- All routes. -/
def all : List Route := [index, metrics, ask, health, queryRange, queryInstant, models]

/-- The path of a route. -/
def path : Route → String
  | index => "/"
  | metrics => "/metrics"
  | ask => "/api/nl2promql"
  | queryRange => "/api/prometheus/query_range"
  | queryInstant => "/api/prometheus/query"
  | health => "/api/health"
  | models => "/api/debug/models"

/-- The route with a path. -/
def ofPath? (path : String) : Option Route := all.find? fun r => r.path == path

/-- The method of a route. -/
def method : Route → String
  | ask => "POST"
  | _ => "GET"

/-- Whether a route takes a method. Whoever may get may also ask for the headers alone. -/
def takes (r : Route) (method : String) : Bool :=
  method == r.method || (r.method == "GET" && method == "HEAD")

/-- The methods that a route takes, as a header value. -/
def allowed (r : Route) : String := if r.method == "GET" then "GET,HEAD" else r.method

/-- Whether requests to a route are limited. -/
def isLimited : Route → Bool
  | index => false
  | metrics => false
  | _ => true

end Route

/-- The path of a request in counters: that of a route, with or without slashes at its end, or a
word for all others, so that there are only so many. -/
def pathLabel (path : String) : String :=
  let trimmed := if path.utf8ByteSize > 1 then
      String.ofList (path.toList.reverse.dropWhile (· == '/')).reverse
    else path
  if (Route.all.map (·.path)).contains trimmed then trimmed else "unmatched"

/-! ## Bodies -/

/-- The most bytes of a body. -/
def maxBodyBytes : Nat := 10 * 1024 * 1024

/-- The rejection of a body. -/
def wrongBody (message : String) : Rejection := .invalidField "body" message

/-- What is wrong with a body that cannot be read. -/
def faultMessage : Json.Fault → String
  | .syntaxFault => "Failed to parse the request body as JSON"
  | .shapeFault => "Failed to deserialize the JSON body into the target type"

/-- The question that a request brings. Whatever follows the value in the body is ignored. -/
def readQuestion (r : Request) : Except Rejection Question :=
  if !r.saysJson then
    .error (wrongBody "Expected request with \x60Content-Type: application/json\x60")
  else if r.body.utf8ByteSize > maxBodyBytes then
    .error (wrongBody "Failed to buffer the request body: length limit exceeded")
  else
    match Json.parseStart QuestionInput.ofJson r.body with
    | .error fault => .error (wrongBody (faultMessage fault))
    | .ok input => input.check

/-! ## Parameters -/

/-- The parameters of a request, unless one of some names comes twice. -/
def readParameters (names : List String) (r : Request) :
    Except Rejection (String → Option String) :=
  let pairs := decodeForm r.query
  if names.any fun name => 1 < (pairs.filter (·.1 == name)).length then
    .error (.validation "Invalid query parameters"
      [⟨"query", "Failed to deserialize query string"⟩])
  else .ok fun name => pairs.lookup name

/-- The query over a range that a request brings. -/
def readRange (r : Request) : Except Rejection RangeQuery := do
  let parameter ← readParameters ["query", "start", "end", "step"] r
  RangeInput.check ⟨parameter "query", parameter "start", parameter "end", parameter "step"⟩

/-- The query at this instant that a request brings. -/
def readInstant (r : Request) : Except Rejection String := do
  let parameter ← readParameters ["query"] r
  InstantInput.check ⟨parameter "query"⟩

end AskMetrics.Service
