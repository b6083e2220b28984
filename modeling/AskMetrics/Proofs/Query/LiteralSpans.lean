import AskMetrics.Proofs.Query.Check
import AskMetrics.Proofs.Query.Metrics
import AskMetrics.Proofs.Query.Window
import AskMetrics.Proofs.Text.Twin

/-!
# Two readings of literals

The checks on a query mask its literals and the search for metric names blanks them, and each of
the two finds them in its own way: masking goes through the text with a state, blanking looks for a
shape. In a literal between backticks a backslash takes the next character with it for masking, but
not for blanking. So the two part company where a backslash stands before a backtick inside such a
literal, and nowhere else.
-/
namespace AskMetrics.Query

open AskMetrics.Text

/-! ## The readings -/

/-- A literal of a text. -/
structure LiteralAt where
  /-- What lies before the literal, nearest character first. -/
  behind : List Char
  /-- The literal with its quotes. -/
  text : List Char
  deriving DecidableEq, Repr

/-- Whether a literal between backticks has a backtick inside. -/
def LiteralAt.isNested (l : LiteralAt) : Bool :=
  l.text.head? == some '\x60' && (l.text.drop 1).dropLast.contains '\x60'

/-- The literals that masking delimits in the text behind a place. `b` lies before the literal that
is open, if any, and `x` is what has been read of it. -/
def literalsFrom : Quoting → List Char → List Char → List Char → List LiteralAt
  | _, _, _, [] => []
  | p, b, x, c :: cs =>
    match p, p.next c with
    | .outside, .outside => literalsFrom .outside (c :: b) [] cs
    | _, .outside => ⟨b, x ++ [c]⟩ :: literalsFrom .outside ((x ++ [c]).reverse ++ b) [] cs
    | _, next => literalsFrom next b (x ++ [c]) cs

/-- The literals that masking delimits. -/
def literals (s : List Char) : List LiteralAt :=
  literalsFrom .outside [] [] s

/-- The literals that blanking finds. -/
def matchedLiterals (s : List Char) : List LiteralAt :=
  (findAll [literalPattern] s).map fun m => ⟨m.start.behind, m.text⟩

/-! ## Closed literals -/

/-- The literals of a text with closed ones only, which has `b` before it. -/
inductive Delimits : List Char → List Char → List LiteralAt → Prop
  | nil (b : List Char) : Delimits b [] []
  /-- A character outside literals. -/
  | char {b s : List Char} {c : Char} {ls : List LiteralAt} (hc : isQuote c = false)
    (rest : Delimits (c :: b) s ls) : Delimits b (c :: s) ls
  /-- A literal. -/
  | literal {b body s : List Char} {q : Char} {ls : List LiteralAt} (hq : isQuote q = true)
    (hbody : Body q body) (rest : Delimits ((q :: (body ++ [q])).reverse ++ b) s ls) :
    Delimits b (q :: (body ++ q :: s)) (⟨b, q :: (body ++ [q])⟩ :: ls)

section
variable {q : Char} {b x body s t : List Char} {ls : List LiteralAt}

theorem Skeleton.exists_delimits (h : Skeleton s t) (b : List Char) : ∃ ls, Delimits b s ls := by
  induction h generalizing b with
  | nil => exact ⟨[], .nil b⟩
  | char hc _ ih =>
    obtain ⟨ls, hls⟩ := ih (_ :: b)
    exact ⟨ls, .char hc hls⟩
  | @literal q body s _ hq hbody _ ih =>
    obtain ⟨ls, hls⟩ := ih ((q :: (body ++ [q])).reverse ++ b)
    exact ⟨_, .literal hq hbody hls⟩

/-- A literal that is open is read up to the quote that closes it. -/
theorem Body.literalsFrom_inside (hq : isQuote q = true) (h : Body q body) :
    literalsFrom (.inside q) b x (body ++ q :: s) =
      ⟨b, x ++ body ++ [q]⟩ :: literalsFrom .outside ((x ++ body ++ [q]).reverse ++ b) [] s := by
  induction h generalizing x with
  | nil => simp [literalsFrom, Quoting.next, isQuote_ne_backslash hq]
  | @char c body hc hb _ ih =>
    have hread := ih (x := x ++ [c])
    simpa [literalsFrom, Quoting.next, hc, hb] using hread
  | @escape c body _ ih =>
    have hread := ih (x := x ++ ['\\', c])
    simpa [literalsFrom, Quoting.next] using hread

namespace Delimits

theorem literalsFrom_outside (h : Delimits b s ls) : literalsFrom .outside b [] s = ls := by
  induction h with
  | nil => rfl
  | char hc _ ih => simpa [literalsFrom, Quoting.next, hc] using ih
  | @literal b body s q ls hq hbody _ ih =>
    have hread := hbody.literalsFrom_inside (b := b) (x := [q]) (s := s) hq
    rw [List.singleton_append, List.cons_append] at hread
    rw [← ih, ← hread]
    simp [literalsFrom, Quoting.next, hq]

theorem literals_eq (h : Delimits [] s ls) : literals s = ls := h.literalsFrom_outside

end Delimits

/-! ## Matches -/

/-- Blanking finds the literals of a text on one line when none is nested. -/
theorem Delimits.finds (h : Delimits b s ls) (hline : '\n' ∉ s)
    (hnested : ∀ l ∈ ls, l.isNested = false) :
    ∃ ms, Finds [literalPattern] ⟨b, s⟩ ms ∧
      ms.map (fun m => ⟨m.start.behind, m.text⟩) = ls := by
  induction h with
  | nil b => exact ⟨[], .done b, rfl⟩
  | char hc _ ih =>
    obtain ⟨ms, hms, hmap⟩ := ih (fun hmem => hline (.tail _ hmem)) hnested
    exact ⟨ms, .skip (matchAt_singleton_eq_none (ends_literalPattern hc)) hms, hmap⟩
  | @literal b body s q ls hq hbody _ ih =>
    have hbodyline : '\n' ∉ body := fun hmem => hline (by simp [hmem])
    have hrestline : '\n' ∉ s := fun hmem => hline (by simp [hmem])
    obtain ⟨hhead, hrest⟩ := List.forall_mem_cons.mp hnested
    obtain ⟨ms, hms, hmap⟩ := ih hrestline hrest
    have hplain : q = '\x60' → '\x60' ∉ body := by
      rintro rfl hmem
      simp [LiteralAt.isNested, hmem] at hhead
    have hliteral := isLiteral_of_body hq hbody hbodyline hplain
    have hmatch : matchAt [literalPattern] ⟨b, q :: (body ++ [q]) ++ s⟩ =
        some ⟨⟨b, q :: (body ++ [q]) ++ s⟩, [q :: (body ++ [q])],
          ⟨(q :: (body ++ [q])).reverse ++ b, s⟩⟩ := by
      rw [matchAt_singleton, depicts_literalPattern.first_eq definite_isLiteral hliteral,
        Option.map_some, (Cursor.reads_mk b _ s).upTo]
    rw [List.cons_append, List.append_assoc, List.singleton_append] at hmatch
    refine ⟨_ :: ms, .hit hmatch ?_ hms, ?_⟩
    · simp only [List.length_cons, List.length_append]
      omega
    · rw [List.map_cons, hmap, Match.text, List.flatten_singleton]

/-- No literal that blanking finds is nested. -/
theorem isNested_of_mem_matchedLiterals {l : LiteralAt} (h : l ∈ matchedLiterals s) :
    l.isNested = false := by
  obtain ⟨m, hm, rfl⟩ := List.mem_map.mp h
  obtain ⟨b, a, -, -, hmatch⟩ := exists_matchAt_of_mem_findAll hm
  rw [matchAt_singleton, Option.map_eq_some_iff] at hmatch
  obtain ⟨d, hfirst, rfl⟩ := hmatch
  obtain ⟨w, hw, hread⟩ := (depicts_literalPattern _ _).mp (Pattern.mem_ends_of_first hfirst)
  rw [Match.text, List.flatten_singleton, hread.upTo]
  cases hw with
  | quoted hq => rcases hq with rfl | rfl <;> simp [LiteralAt.isNested]
  | backticked hx => simp [LiteralAt.isNested, hx]

end

/-! ## Accepted queries -/

/-- **The two readings of literals.** In an accepted query masking and blanking find the same
literals exactly when none of those that masking delimits is nested. -/
theorem literals_eq_matchedLiterals_iff {raw : String} {q : CheckedQuery}
    (h : validate raw = .ok q ∨ screen raw = .ok (.query q)) :
    literals q.text.toList = matchedLiterals q.text.toList ↔
      ∀ l ∈ literals q.text.toList, l.isNested = false := by
  obtain ⟨hpasses, rfl⟩ := passes_of_accepted h
  rw [CheckedQuery.toList_text_ofText]
  obtain ⟨t, hskeleton⟩ := leavesOpen_eq_false_iff.mp hpasses.closed
  have hspaced := hpasses.wellFormed.spaced
  generalize normalize raw.toList = s at hskeleton hspaced ⊢
  have hline : '\n' ∉ s := fun hmem =>
    absurd (hspaced.eq_space_of_isBlank hmem (by decide)) (by decide)
  obtain ⟨ls, hls⟩ := hskeleton.exists_delimits []
  rw [hls.literals_eq]
  constructor
  · intro hagree l hl
    rw [hagree] at hl
    exact isNested_of_mem_matchedLiterals hl
  · intro hnested
    obtain ⟨ms, hms, hmap⟩ := hls.finds hline hnested
    rw [matchedLiterals, hms.findAll_eq, hmap]

/-- A query with a literal of each kind, with other quotes and escapes inside. -/
def quotedJobs : CheckedQuery where
  text := "up\x7bjob=\"a'\\\"b\", zone='\\'\x60', rack=\x60\\\"\x60\x7d + node_load1"
  metrics := ["node_load1"]

theorem literals_eq_matchedLiterals_quotedJobs :
    validate quotedJobs.text = .ok quotedJobs ∧
      (literals quotedJobs.text.toList).length = 3 ∧
      literals quotedJobs.text.toList = matchedLiterals quotedJobs.text.toList := by
  have haccepted : validate quotedJobs.text = .ok quotedJobs := by decide +kernel
  exact ⟨haccepted, by decide +kernel,
    (literals_eq_matchedLiterals_iff (.inl haccepted)).mpr (by decide +kernel)⟩

/-- A query with a backslash before a backtick in a literal between backticks. -/
def nestedBacktick : CheckedQuery where
  text := "foo(\x60a\\\x60b_1\x60, x_1)"
  metrics := ["b_1", "x_1"]

/-- Masking takes the backtick after the backslash as part of the literal, blanking as its end. So
what is inside the literal for the checks is a metric for the catalog. -/
theorem literals_ne_matchedLiterals_nestedBacktick :
    validate nestedBacktick.text = .ok nestedBacktick ∧
      literals nestedBacktick.text.toList =
        [⟨"foo(".toList.reverse, "\x60a\\\x60b_1\x60".toList⟩] ∧
      matchedLiterals nestedBacktick.text.toList =
        [⟨"foo(".toList.reverse, "\x60a\\\x60".toList⟩] := by
  decide +kernel

end AskMetrics.Query
