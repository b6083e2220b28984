import AskMetrics.Gemini.Message
import AskMetrics.Generation.Run
import AskMetrics.Http.Exchange
import AskMetrics.Service.Environment
import AskMetrics.Text.Quoted

/-!
# The Gemini client

The client puts a prompt to a model over HTTP. It does not call anything without a key. What comes
back is a text, or a failure whose message holds no credential.
-/
namespace AskMetrics.Gemini

open AskMetrics.Text Generation Http
open Service (Variables)

/-- The name of this backend. -/
def provider : String := "gemini"

/-- The address unless another is given. -/
def standardBaseUrl : String := "https://generativelanguage.googleapis.com/v1beta"

/-- A text without slashes at the end. -/
def dropSlashes (s : List Char) : List Char := (s.reverse.dropWhile (· == '/')).reverse

/-- The key, the address and the settings. -/
structure GeminiConfig where
  /-- Without a key nothing is called. -/
  apiKey : Option String
  baseUrl : String
  sampling : Sampling
  /-- The time limit of one call in milliseconds. -/
  timeoutMs : Nat
  deriving Repr

namespace GeminiConfig

/-- The settings with a key. A blank key is none. -/
def ofKey (key : Option String) : GeminiConfig where
  apiKey := key.filter fun k => !isBlankString k
  baseUrl := standardBaseUrl
  sampling := .standard
  timeoutMs := 60000

/-- The settings with another address. -/
def withBaseUrl (c : GeminiConfig) (url : String) : GeminiConfig :=
  { c with baseUrl := .ofList (dropSlashes url.toList) }

/-- The settings that the variables make. -/
def ofVariables (vars : Variables) : GeminiConfig :=
  let config := ofKey (vars "GEMINI_API_KEY")
  match (vars "SEXTANT_GEMINI_BASE_URL").map fun v => dropSlashes (trim v.toList) with
  | some (c :: cs) => { config with baseUrl := .ofList (c :: cs) }
  | _ => config

/-- Whether there is a key. -/
def isConfigured (c : GeminiConfig) : Bool := c.apiKey.isSome

/-- The settings as a log shows them, without the key. -/
def describe (c : GeminiConfig) : String :=
  "GeminiConfig \x7b base_url: " ++ quotedText c.baseUrl ++ ", api_key: " ++
    (if c.isConfigured then "Some(\"[REDACTED]\")" else "None") ++
    ", generation: GenerationConfig \x7b temperature: " ++ c.sampling.temperature.plain ++
    ", top_p: " ++ c.sampling.topP.plain ++ ", top_k: " ++ toString c.sampling.topK ++
    ", candidate_count: " ++ toString c.sampling.candidateCount ++
    " \x7d, request_timeout: " ++ toString (c.timeoutMs / 1000) ++ "s \x7d"

/-- The client as a log shows it, without the key. -/
def describeClient (c : GeminiConfig) : String :=
  "GeminiClient \x7b base_url: " ++ quotedText c.baseUrl ++ ", api_key: \"[REDACTED]\" \x7d"

/-- The address at which a model is called. -/
def endpoint (c : GeminiConfig) (model : String) : String :=
  c.baseUrl ++ "/models/" ++ model ++ ":generateContent"

end GeminiConfig

/-! ## Responses -/

/-- The text or the failure that a successful response stands for. -/
def interpretSuccess (body : String) : Except CallFailure String :=
  match Json.parse GenerateResponse.ofJson body with
  | .error _ =>
    .error (.invalidResponse provider "Failed to parse response: error decoding response body")
  | .ok response =>
    match response.text? with
    | some text => .ok text
    | none => .error (.invalidResponse provider response.emptyReason)

/-- For how many milliseconds the header of a response says to wait. -/
def headerDelayMs? (r : Response) : Option Int := do
  let seconds ← readInt? (trim (← r.headers.plain? "retry-after").toList)
  some (clampInt (seconds * 1000))

/-- The failure that a response of another status stands for. The message of the error is kept, or
the whole body if it is no error that can be read. -/
def interpretFailure (r : Response) : CallFailure :=
  let parsed := (Json.parse ErrorDetail.ofJson r.body).toOption
  let message := redact ((parsed.map (·.describe)).getD r.body)
  if r.status == 429 then
    let delay := (parsed.bind (·.retryDelayMs?)).or (headerDelayMs? r)
    .rateLimited provider (delay.getD 0) message
  else .requestFailed provider r.status message

/-- The text or the failure that a response stands for. -/
def interpret (r : Response) : Except CallFailure String :=
  if r.isSuccess then interpretSuccess r.body else .error (interpretFailure r)

/-! ## Calls -/

/-- The request that puts a prompt to a model. There is none with a key that no header can
carry. -/
def GeminiConfig.callRequest (c : GeminiConfig) (key model prompt : String) :
    Except TransportFault Request := do
  let url ← readUrl (c.endpoint model)
  if !Headers.canCarry key then throw .unmade
  return {
    method := "POST"
    target := ← url.target
    headers := [("x-goog-api-key", key), ("content-type", "application/json")]
    body := (requestBody prompt c.sampling).render }

/-- The failure when there is no response. -/
def transportFailure (c : GeminiConfig) : TransportFault → CallFailure
  | .timedOut => .timedOut provider c.timeoutMs
  | .failed reason => .unreachable provider (redact ("network error: " ++ reason))

/-- Puts a prompt to a model. -/
def generate {σ : Type} (transport : Transport σ) (c : GeminiConfig) (model prompt : String)
    (s : σ) : Except CallFailure String × σ :=
  match c.apiKey with
  | none => (.error .notConfigured, s)
  | some key =>
    match send transport c.timeoutMs (c.callRequest key model prompt) s with
    | (.error fault, s) => (.error (transportFailure c fault), s)
    | (.ok response, s) => (interpret response, s)

/-- The client as a generation backend. -/
def backend {σ : Type} (transport : Transport σ) (c : GeminiConfig) : Backend σ where
  id := provider
  isConfigured := c.isConfigured
  call candidate prompt s :=
    match generate transport c candidate.id prompt s with
    | (.ok text, s) => (.text text, s)
    | (.error f, s) => (.failure f, s)

end AskMetrics.Gemini
