import AskMetrics.Failure
import AskMetrics.Main
import AskMetrics.Proofs.Catalog.Alone
import AskMetrics.Proofs.Catalog.Lifetime
import AskMetrics.Proofs.Gemini.Labels
import AskMetrics.Proofs.Generation.Authentication
import AskMetrics.Proofs.Generation.Candidates
import AskMetrics.Proofs.Generation.Fallback
import AskMetrics.Proofs.Generation.Overload
import AskMetrics.Proofs.Generation.Timing
import AskMetrics.Proofs.Generation.TooManyRequests
import AskMetrics.Proofs.Http.Headers
import AskMetrics.Proofs.Json.Decoded
import AskMetrics.Proofs.Prometheus.RoundTrip
import AskMetrics.Proofs.Query.Acceptance
import AskMetrics.Proofs.Query.Attached
import AskMetrics.Proofs.Query.BareName
import AskMetrics.Proofs.Query.BareOperator
import AskMetrics.Proofs.Query.Check
import AskMetrics.Proofs.Query.Contents
import AskMetrics.Proofs.Query.Decoration
import AskMetrics.Proofs.Query.Delimiters
import AskMetrics.Proofs.Query.EdgeQuotes
import AskMetrics.Proofs.Query.Expression
import AskMetrics.Proofs.Query.ExpressionMetrics
import AskMetrics.Proofs.Query.ExpressionShape
import AskMetrics.Proofs.Query.FixedPoint
import AskMetrics.Proofs.Query.LabelLists
import AskMetrics.Proofs.Query.Layout
import AskMetrics.Proofs.Query.LiteralSpans
import AskMetrics.Proofs.Query.Masked
import AskMetrics.Proofs.Query.Metrics
import AskMetrics.Proofs.Query.Names
import AskMetrics.Proofs.Query.Nested
import AskMetrics.Proofs.Query.Normal
import AskMetrics.Proofs.Query.NormalContents
import AskMetrics.Proofs.Query.Offset
import AskMetrics.Proofs.Query.Operators
import AskMetrics.Proofs.Query.Roles
import AskMetrics.Proofs.Query.Selectors
import AskMetrics.Proofs.Query.Shape
import AskMetrics.Proofs.Query.Verdict
import AskMetrics.Proofs.Query.Window
import AskMetrics.Proofs.Query.WindowContents
import AskMetrics.Proofs.Query.WindowMetrics
import AskMetrics.Proofs.Redaction.Bare
import AskMetrics.Proofs.Redaction.Blanks
import AskMetrics.Proofs.Redaction.Idempotence
import AskMetrics.Proofs.Redaction.Kept
import AskMetrics.Proofs.Redaction.Leads
import AskMetrics.Proofs.Redaction.Markers
import AskMetrics.Proofs.Redaction.Numeral
import AskMetrics.Proofs.Redaction.Secrets
import AskMetrics.Proofs.Request.Detected
import AskMetrics.Proofs.Request.Sanitized
import AskMetrics.Proofs.Service.Arrivals
import AskMetrics.Proofs.Service.Burst
import AskMetrics.Proofs.Service.Counting
import AskMetrics.Proofs.Service.Flaws
import AskMetrics.Proofs.Service.Layers
import AskMetrics.Proofs.Service.Pipeline
import AskMetrics.Proofs.Service.QueryLength
import AskMetrics.Proofs.Service.Redacted
import AskMetrics.Proofs.Service.Retold
import AskMetrics.Proofs.Service.RetryAfter
import AskMetrics.Proofs.Service.Settings
import AskMetrics.Proofs.Text.Barrier
import AskMetrics.Proofs.Text.Blank
import AskMetrics.Proofs.Text.Case
import AskMetrics.Proofs.Text.Mention
import AskMetrics.Proofs.Text.Pattern
import AskMetrics.Proofs.Text.Rewrite
import AskMetrics.Proofs.Text.Scan
import AskMetrics.Proofs.Text.Squeeze
import AskMetrics.Proofs.Text.Sweep
import AskMetrics.Proofs.Text.Word
import AskMetrics.Scripted.Scenario
