import AskMetrics.Http.Exchange

/-!
# Media types

A media type is a type and a subtype with a slash between, both made of token characters, and
after semicolons parameters with a token or a quoted text as value. What stands behind the last
plus sign of the subtype is its suffix.
-/
namespace AskMetrics.Http

/-- A media type without its parameters, in lower case. -/
structure MediaType where
  type : List Char
  /-- The subtype up to the suffix. -/
  subtype : List Char
  suffix : Option (List Char)
  deriving DecidableEq, Repr

namespace MediaType

/-- Whether a character may stand in a token. -/
def isToken (c : Char) : Bool :=
  c.isAlphanum || "!#$%&'*+-.^_\x60|~".toList.contains c

/-- Whether a character may stand in a quoted text. -/
def isQuotable (c : Char) : Bool := 0x20 ≤ c.toNat && c.toNat != 0x7F

/-- What follows a quoted value, up to the next parameter; nothing if it is neither blank nor a
semicolon. -/
def afterQuoted? : List Char → Option (List Char)
  | [] => some []
  | ';' :: rest => some rest
  | ' ' :: rest => afterQuoted? rest
  | _ => none

/-- What follows the value of a parameter. A quoted value has at least one character, and the first
may be a quote. -/
def afterValue? : List Char → Option (List Char)
  | '"' :: c :: rest =>
    match rest.dropWhile fun c => isQuotable c && c != '"' with
    | '"' :: after => if isQuotable c then afterQuoted? after else none
    | _ => none
  | s =>
    let value := s.takeWhile isToken
    match s.drop value.length with
    | [] => some []
    | ';' :: after => if value.isEmpty then none else some after
    | _ => none

/-- Whether a text is a list of parameters. The first number bounds its length. -/
def areParameters : Nat → List Char → Bool
  | _, [] => true
  | 0, _ => false
  | fuel + 1, ' ' :: rest => areParameters fuel rest
  | fuel + 1, s =>
    let name := s.takeWhile isToken
    match s.drop name.length with
    | '=' :: value =>
      !name.isEmpty && (match afterValue? value with
        | some after => areParameters fuel after
        | none => false)
    | _ => false

/-- Splits a subtype before its suffix. A plus sign in front starts none. -/
def splitSuffix (s : List Char) : List Char × Option (List Char) :=
  let suffix := (s.reverse.takeWhile (· != '+')).reverse
  let kept := s.length - suffix.length - 1
  if suffix.length = s.length || kept = 0 then (s, none) else (s.take kept, some suffix)

/-- The media type that a text names. -/
def ofText? (text : String) : Option MediaType :=
  let s := text.toList
  let type := s.takeWhile isToken
  match s.drop type.length with
  | '/' :: rest =>
    let name := rest.takeWhile isToken
    let after := rest.drop name.length
    let (subtype, suffix) := splitSuffix name
    let found : MediaType :=
      ⟨type.map Char.toLower, subtype.map Char.toLower, suffix.map (·.map Char.toLower)⟩
    if type.isEmpty then none
    else match after with
      | [] => some found
      | ';' :: parameters =>
        if !name.isEmpty && areParameters parameters.length parameters then some found else none
      | _ => none
  | _ => none

/-- Whether a body of the type is JSON. -/
def isJson (m : MediaType) : Bool :=
  m.type == "application".toList &&
    (m.subtype == "json".toList || m.suffix == some "json".toList)

end MediaType

/-- Whether the body of a request is JSON, as its headers say. -/
def Request.saysJson (r : Request) : Bool :=
  match (r.headers.plain? "content-type").bind MediaType.ofText? with
  | some m => m.isJson
  | none => false

end AskMetrics.Http
