import AskMetrics.Clock
import AskMetrics.Http.Address
import AskMetrics.Http.Exchange
import AskMetrics.Service.Config
import AskMetrics.Service.Response

/-!
# Rate limits

Each client may send a number of requests at once and after that one more in each period; the
period is the window divided by that number. Of a client it is kept when the requests let through
so far would all have come if they had come one in each period. A request is let through if that
time is not too far ahead.

A client who has sent nothing for a whole window has its full allowance again, so nothing needs to
be kept of it. Such clients are dropped now and then.
-/
namespace AskMetrics.Service

open AskMetrics.Text Http

/-- The settings of the rate limit. -/
structure RateLimit where
  enabled : Bool
  /-- How many requests may come at once; at least one. -/
  requests : Nat
  /-- Nanoseconds until one more request may come. -/
  period : Nat
  /-- Milliseconds after which a client is dropped. -/
  idleAfter : Nat
  deriving DecidableEq, Repr

namespace RateLimit

/-- The settings that the service has. Without a window, the requests are for each minute. -/
def ofConfig (c : Config) : RateLimit :=
  let requests := max 1 c.rateLimitRequests
  let period := c.rateLimitWindowMs * nanosPerMilli / requests
  { enabled := c.rateLimitEnabled
    requests := requests
    period := if period = 0 then 60 * nanosPerSecond / requests else period
    idleAfter := c.rateLimitWindowMs }

/-- How far ahead the time of a client may be for a request to be let through. -/
def tolerance (limit : RateLimit) : Nat := limit.period * limit.requests

end RateLimit

/-- What is kept of a client. Times are counted since the start of the service. -/
structure Client where
  /-- The nanosecond at which the next request would come if they came one in each period. -/
  due : Nat
  /-- The millisecond of the last request. -/
  lastSeen : Nat
  deriving DecidableEq, Repr

/-- What is kept of all clients. -/
structure RateLimiter where
  clients : List (Address × Client)
  /-- How many requests were looked at. -/
  checks : Nat
  deriving DecidableEq, Repr

/-- What becomes of a request. -/
inductive Verdict where
  /-- There is no limit. -/
  | free
  /-- The request is within the limit. -/
  | admitted
  /-- The request comes too early; another may come after some seconds. -/
  | rejected (retryAfter : Nat)
  deriving DecidableEq, Repr

namespace RateLimiter

/-- No client has come yet. -/
def empty : RateLimiter := ⟨[], 0⟩

/-- How many requests are looked at between two times that idle clients are dropped. -/
def sweepEvery : Nat := 1024

/-- The number of clients of which something is kept. -/
def tracked (r : RateLimiter) : Nat := r.clients.length

/-- Drops the clients that have been idle for a window at a time in nanoseconds. -/
def evictIdle (limit : RateLimit) (now : Nat) (r : RateLimiter) : RateLimiter :=
  { r with clients := r.clients.filter fun (_, c) =>
      now / nanosPerMilli - c.lastSeen < limit.idleAfter }

/-- Counts a request, and drops idle clients if it is time to. -/
def sweep (limit : RateLimit) (now : Nat) (r : RateLimiter) : RateLimiter :=
  let counted := { r with checks := r.checks + 1 }
  if r.checks % sweepEvery = sweepEvery - 1 then counted.evictIdle limit now else counted

/-- The client with an address. -/
def client? (r : RateLimiter) (address : Address) : Option Client := r.clients.lookup address

/-- Keeps something of a client, in place of what was kept before. -/
def put (r : RateLimiter) (address : Address) (c : Client) : RateLimiter :=
  if (r.client? address).isSome then
    { r with clients := r.clients.map fun (a, old) => (a, if a = address then c else old) }
  else { r with clients := (address, c) :: r.clients }

/-- The verdict on a request of a client whose next request is due at a time, and when the one
after it is due. -/
def judge (limit : RateLimit) (due now : Nat) : Verdict × Nat :=
  let earliest := due - limit.tolerance
  if now < earliest then (.rejected (max 1 ((earliest - now) / nanosPerSecond)), due)
  else (.admitted, max due now + limit.period)

/-- The verdict on a request that comes at a time in nanoseconds. -/
def check (limit : RateLimit) (address : Address) (now : Nat) (r : RateLimiter) :
    Verdict × RateLimiter :=
  if limit.enabled then
    let r := r.sweep limit now
    let due := ((r.client? address).map (·.due)).getD (now + limit.period)
    let (verdict, due) := judge limit due now
    (verdict, r.put address ⟨due, now / nanosPerMilli⟩)
  else (.free, r)

end RateLimiter

/-! ## Clients -/

/-- The address that a header value starts with, up to a comma. -/
def forwarded? (value : String) : Option Address :=
  Address.ofText? (.ofList (trim (value.toList.takeWhile (· != ','))))

/-- The address that a header value is. -/
def real? (value : String) : Option Address := Address.ofText? (trimString value)

/-- Who sent a request, as proxies say it, or else the address of the connection. -/
def clientAddress (headers : Headers) (connection : Address) : Address :=
  (((headers.plain? "x-forwarded-for").bind forwarded?).or
    ((headers.plain? "x-real-ip").bind real?)).getD connection

/-- What counts as the address of a connection that has none. -/
def noAddress : Address := .v4 0 0 0 0

/-- Who sent a request that came over a socket or otherwise. -/
def clientOf (request : Request) : Address :=
  clientAddress request.headers (request.connection.getD noAddress)

/-! ## Responses -/

/-- The response to a request that comes too early. -/
def tooEarly (retryAfter : Nat) : Response :=
  (rejectionResponse (.tooManyRequests retryAfter)).withHeader "retry-after" (toString retryAfter)

/-- The response to a request with a verdict; `serve` is asked only if the request is let
through. -/
def limited {α : Type} (limit : RateLimit) (verdict : Verdict) (serve : α → Response × α)
    (state : α) : Response × α :=
  match verdict with
  | .free => serve state
  | .rejected retryAfter => (tooEarly retryAfter, state)
  | .admitted =>
    let (response, state) := serve state
    (response.withHeader "x-ratelimit-limit" (toString limit.requests), state)

end AskMetrics.Service
