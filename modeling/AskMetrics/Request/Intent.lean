import AskMetrics.Text.Pattern

/-!
# Requests worth answering

Before a model is asked, a request is cleaned of markup and of fragments that look like injected
statements, and turned away if it cannot be about a metric: one word is too vague, and so are
words none of which names something measurable.
-/
namespace AskMetrics.Request

open AskMetrics.Text

/-- Words that show a request to be about something measurable. -/
def metricKeywords : List String :=
  ["cpu", "processor", "core", "memory", "ram", "disk", "io", "network", "nic", "traffic",
    "latency", "errors", "requests", "throughput", "bytes", "read", "write", "usage",
    "utilization", "availability", "uptime"]

/-- What is answered to a request that is too vague. -/
def lowIntentMessage : String :=
  "Your request is too vague. Please mention a metric and optional time/window (e.g., \"CPU usage 15m\", \"network traffic by interface\", \"memory available\")."

/-- The characters of the words that keywords are compared with. -/
def isKeywordChar (c : Char) : Bool :=
  c.isLower || c.isDigit || c == '_'

/-- The words of a request in lower case. -/
def keywordsOf (s : List Char) : List (List Char) :=
  (pieces (fun c => !isKeywordChar c) (lowered s)).filter (· ≠ [])

/-- Whether a request has at most one word or no keyword. -/
def isLowIntent (request : String) : Bool :=
  let found := keywordsOf request.toList
  found.length ≤ 1 ||
    !found.any fun word => metricKeywords.any fun keyword => keyword.toList == word

/-- A semicolon and a statement that changes data. -/
def statementFragment : Pattern :=
  .sequence [.char ';', .blanks, .oneOf [.anyCase "drop", .anyCase "delete", .anyCase "update"]]

/-- A text without angle brackets and statement fragments, trimmed. -/
def sanitizeChars (s : List Char) : List Char :=
  trim (replaceAll [statementFragment] (fun _ => []) (s.filter fun c => c != '<' && c != '>'))

/-- Cleans a request. -/
def sanitize (request : String) : String :=
  .ofList (sanitizeChars request.toList)

end AskMetrics.Request
