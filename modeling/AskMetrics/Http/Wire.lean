import AskMetrics.Http.Exchange
import AskMetrics.Number.Natural

/-!
# Exchanges on a connection

On a connection a request is a line with its method and target, a line for each header and an empty
line. A body follows if a header says how many bytes it has. A response is written in the same
way, so whoever reads it knows where it ends.
-/
namespace AskMetrics.Http

open AskMetrics.Text

/-! ## Requests -/

/-- The method and the target in the first line of a request. -/
def requestLine? (line : String) : Option (String × String) :=
  match words line.toList with
  | [method, target, version] =>
    if "HTTP/1.".toList.isPrefixOf version then some (.ofList method, .ofList target) else none
  | _ => none

/-- The name and the value in the line of a header. -/
def headerLine? (line : String) : Option (String × String) :=
  match (line.toList.takeWhile (· != ':'), line.toList.dropWhile (· != ':')) with
  | (name, ':' :: value) => if name.isEmpty then none else some (.ofList name, .ofList (trim value))
  | _ => none

namespace Request

/-- The request whose head has some lines. It has no body yet. -/
def ofHead? : List String → Option Request
  | [] => none
  | first :: rest => do
    let (method, target) ← requestLine? first
    let headers ← rest.mapM headerLine?
    some { method, target, headers, body := "" }

/-- How many bytes of a body follow the head. -/
def bodyLength (r : Request) : Nat :=
  ((r.headers.plain? "content-length").bind fun v => readNat? max64 v.toList).getD 0

end Request

/-! ## Responses -/

/-- What a status says in words. -/
def reasonPhrase (status : Nat) : String :=
  match status with
  | 200 => "OK"
  | 400 => "Bad Request"
  | 401 => "Unauthorized"
  | 404 => "Not Found"
  | 405 => "Method Not Allowed"
  | 422 => "Unprocessable Entity"
  | 429 => "Too Many Requests"
  | 500 => "Internal Server Error"
  | 502 => "Bad Gateway"
  | 503 => "Service Unavailable"
  | 504 => "Gateway Timeout"
  | _ => ""

namespace Response

/-- The lines before the body. -/
def headLines (r : Response) : List String :=
  s!"HTTP/1.1 {r.status} {reasonPhrase r.status}" ::
    (r.headers.set "content-length" (toString r.body.utf8ByteSize)).map fun (name, value) =>
      name ++ ": " ++ value

/-- The text of a response. -/
def render (r : Response) : String :=
  String.join (r.headLines.map (· ++ "\r\n")) ++ "\r\n" ++ r.body

end Response

end AskMetrics.Http
