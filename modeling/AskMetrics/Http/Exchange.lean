import AskMetrics.Http.Address
import AskMetrics.Http.Url

/-!
# Requests and responses

An HTTP exchange is a request and the response to it. Header names are compared without regard to
letter case. Of several headers with one name the first counts.
-/
namespace AskMetrics.Http

/-- Header names with values, in order. -/
abbrev Headers := List (String × String)

namespace Headers

/-- Whether two header names are the same. -/
def sameName (a b : String) : Bool :=
  a.toList.map Char.toLower == b.toList.map Char.toLower

/-- The value of the first header with a name. -/
def get? (headers : Headers) (name : String) : Option String :=
  (headers.find? fun h => sameName h.1 name).map (·.2)

/-- Whether a header value is plain text: tabs and ASCII characters that show. -/
def isPlain (value : String) : Bool :=
  value.toList.all fun c => c == '\t' || (0x20 ≤ c.toNat && c.toNat < 0x7F)

/-- The value of the first header with a name, if it is plain text. -/
def plain? (headers : Headers) (name : String) : Option String :=
  (headers.get? name).filter isPlain

/-- Whether a text can be sent as a header value. -/
def canCarry (value : String) : Bool :=
  value.toList.all fun c => c == '\t' || (0x20 ≤ c.toNat && c.toNat != 0x7F)

/-- Sets a header, in place of earlier ones with the same name. -/
def set (headers : Headers) (name value : String) : Headers :=
  (headers.filter fun h => !sameName h.1 name) ++ [(name, value)]

end Headers

/-- A request. -/
structure Request where
  method : String
  /-- The path and query, or the whole address when the request goes elsewhere. -/
  target : String
  headers : Headers
  body : String
  /-- The address at the other end of the socket. A request that came otherwise has none. -/
  connection : Option Address := none
  deriving DecidableEq, Repr

/-- The path of a target with the query. A target that is a whole address has at least a slash as
path, and one that is only a host has none. -/
def Request.place (r : Request) : List Char :=
  let s := r.target.toList.takeWhile (· != '#')
  let scheme := s.takeWhile fun c => c.isAlphanum || c == '+' || c == '-' || c == '.'
  match s.head?, s.drop scheme.length with
  | some '/', _ => s
  | some '*', _ => s
  | _, ':' :: '/' :: '/' :: rest =>
    let after := rest.dropWhile fun c => c != '/' && c != '?'
    if after.head? == some '/' then after else '/' :: after
  | _, _ => []

/-- The path of a target: what stands before the query. -/
def Request.path (r : Request) : String := .ofList (r.place.takeWhile (· != '?'))

/-- The query of a target: what stands after the first question mark, if there is one. -/
def Request.query (r : Request) : String := .ofList ((r.place.dropWhile (· != '?')).drop 1)

/-- A response. -/
structure Response where
  status : Nat
  headers : Headers
  body : String
  deriving DecidableEq, Repr

namespace Response

/-- Whether a response tells of success. -/
def isSuccess (r : Response) : Bool := 200 ≤ r.status && r.status < 300

/-- Sets a header. -/
def withHeader (r : Response) (name value : String) : Response :=
  { r with headers := r.headers.set name value }

/-- Sets headers in order. -/
def withHeaders (r : Response) (headers : Headers) : Response :=
  headers.foldl (fun r h => r.withHeader h.1 h.2) r

end Response

/-- Why there is no response. -/
inductive TransportFault where
  /-- The time limit has passed. -/
  | timedOut
  /-- Anything else. -/
  | failed (reason : String)
  deriving DecidableEq, Repr

/-- A request cannot be made at all. -/
def TransportFault.unmade : TransportFault := .failed "builder error"

/-- Reads the address of a request. -/
def readUrl (address : String) : Except TransportFault Url :=
  match Url.ofText? address with
  | some url => .ok url
  | none => .error .unmade

/-- The target of a request for an address, if a request can carry it. -/
def Url.target (url : Url) : Except TransportFault String :=
  if url.isCarried then .ok url.text
  else .error (.failed ("builder error for url (" ++ url.text ++ ")"))

/-- How a client gets a response from elsewhere, within a time limit in milliseconds. -/
abbrev Transport (σ : Type) := Nat → Request → σ → Except TransportFault Response × σ

/-- Sends a request, if it can be made. -/
def send {σ : Type} (transport : Transport σ) (timeoutMs : Nat)
    (request : Except TransportFault Request) (s : σ) : Except TransportFault Response × σ :=
  match request with
  | .error fault => (.error fault, s)
  | .ok request => transport timeoutMs request s

end AskMetrics.Http
