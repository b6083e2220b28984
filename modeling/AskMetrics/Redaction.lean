import AskMetrics.Text.Pattern

/-!
# Redaction of credentials

Texts of failed backends can quote the request, and with it keys and tokens. Before such a text
reaches a log line or an answer, everything shaped like a credential is replaced by a marker. Five
shapes are looked for, one after another, each in the text that the one before left.
-/
namespace AskMetrics

open AskMetrics.Text

namespace Redaction

/-- What stands for a credential. -/
def marker : List Char := "[REDACTED]".toList

/-- A shape and the text that replaces a match of it. -/
structure Rule where
  parts : List Pattern
  replacement : Match → List Char

/-- An optional character out of some. -/
def maybeOf (s : String) : Pattern :=
  .optional (.one fun c => s.toList.contains c)

/-- The names under which credentials are given. -/
def credentialName : Pattern :=
  .oneOf [
    .sequence [.optional (.anyCase "x-goog-"), .anyCase "api", maybeOf "_-", .anyCase "key"],
    .sequence [.anyCase "access", maybeOf "_-", .anyCase "token"],
    .anyCase "token", .anyCase "secret", .anyCase "password", .anyCase "credential",
    .anyCase "authorization"]

/-- A name, an equals sign or colon with quotes and blanks around it, and a value. The name keeps
its place, but not a plural s. -/
def namedValue : Rule where
  parts := [.andThen .edge credentialName, .optional (.anyCase "s"),
    .sequence [maybeOf "\"'", .blanks, .one fun c => c == '=' || c == ':', .blanks, maybeOf "\"'"],
    .andThen (.optional (.andThen (.anyCase "bearer") .someBlanks))
      (.some (.one fun c => !isBlank c && !"\"'&,;".toList.contains c))]
  replacement m := m.part 0 ++ m.part 2 ++ marker

/-- A parameter of an address. -/
def addressParameter : Rule where
  parts := [.sequence [.one fun c => c == '?' || c == '&',
      .oneOf [.anyCase "key", .anyCase "api_key", .anyCase "token"], .char '='],
    .some (.one fun c => !isBlank c && !"&\"'".toList.contains c)]
  replacement m := m.part 0 ++ marker

/-- A bearer token. -/
def bearerToken : Rule where
  parts := [.sequence [.edge, .anyCase "bearer", .someBlanks,
    .some (.one fun c => isAnyLetter c || c.isDigit || "._~+/-".toList.contains c),
    .many (.char '=')]]
  replacement _ := "Bearer ".toList ++ marker

/-- A character of a key or of a token's part. -/
def isKeyChar (c : Char) : Bool :=
  c.isAlphanum || c == '_' || c == '-'

/-- A key that starts as those of one large provider do. -/
def prefixedKey : Rule where
  parts := [.sequence [.edge, .literal "AIza", .atLeast 20 (.one isKeyChar)]]
  replacement _ := marker

/-- A token of three parts, the first two of which are encoded JSON objects. -/
def webToken : Rule where
  parts := [.sequence [.edge, .literal "eyJ", .some (.one isKeyChar), .literal ".eyJ",
    .some (.one isKeyChar), .char '.', .some (.one isKeyChar)]]
  replacement _ := marker

/-- Replaces all matches of a rule. -/
def Rule.apply (rule : Rule) (s : List Char) : List Char :=
  replaceAll rule.parts rule.replacement s

/-- The rules in the order in which they are applied. -/
def rules : List Rule :=
  [namedValue, addressParameter, bearerToken, prefixedKey, webToken]

/-- A text with its credentials replaced. -/
def redactChars (s : List Char) : List Char :=
  rules.foldl (fun text rule => rule.apply text) s

end Redaction

/-- Replaces everything shaped like a credential. -/
def redact (s : String) : String :=
  .ofList (Redaction.redactChars s.toList)

end AskMetrics
