import AskMetrics.Query.Literal
import Mathlib.Data.List.Basic

/-!
# Closed literals

Masking goes through a text one character at a time. Here literals are described as a whole: a
body between two equal quotes, in which a backslash takes the next character with it. A text whose
literals are all closed has a skeleton, which is the text without these bodies.
-/
namespace AskMetrics.Query

/-- What can stand between two quotes `q`. -/
inductive Body (q : Char) : List Char → Prop
  | nil : Body q []
  /-- A character other than the quote and the backslash. -/
  | char {c : Char} {body : List Char} (hq : c ≠ q) (hb : c ≠ '\\') (rest : Body q body) :
    Body q (c :: body)
  /-- A backslash with the character after it. -/
  | escape (c : Char) {body : List Char} (rest : Body q body) : Body q ('\\' :: c :: body)

/-- A text and the same text without the bodies of its literals. -/
inductive Skeleton : List Char → List Char → Prop
  | nil : Skeleton [] []
  /-- A character outside literals. -/
  | char {c : Char} {s t : List Char} (hc : isQuote c = false) (rest : Skeleton s t) :
    Skeleton (c :: s) (c :: t)
  /-- A literal. -/
  | literal {q : Char} {body s t : List Char} (hq : isQuote q = true) (hbody : Body q body)
    (rest : Skeleton s t) : Skeleton (q :: (body ++ q :: s)) (q :: q :: t)

/-! ## Scanning -/

@[simp] theorem Quoting.after_nil (p : Quoting) : p.after [] = p := rfl

@[simp] theorem Quoting.after_cons (p : Quoting) (c : Char) (s : List Char) :
    p.after (c :: s) = (p.next c).after s := rfl

@[simp] theorem Quoting.after_append (p : Quoting) (s t : List Char) :
    p.after (s ++ t) = (p.after s).after t := List.foldl_append

@[simp] theorem maskFrom_append (p : Quoting) (s t : List Char) :
    maskFrom p (s ++ t) = maskFrom p s ++ maskFrom (p.after s) t := by
  induction s generalizing p with
  | nil => rfl
  | cons c s ih => simp [maskFrom, ih]

namespace Quoting

/-- A literal is one of a quote. -/
def Proper : Quoting → Prop
  | outside => True
  | inside quote => isQuote quote = true
  | escaped quote => isQuote quote = true

theorem Proper.next {q : Quoting} (h : q.Proper) (u : Char) : (q.next u).Proper := by
  cases q with
  | outside =>
    by_cases hu : isQuote u = true <;> simp [Quoting.next, Proper, hu]
  | inside quote =>
    simp only [Quoting.next]
    split_ifs
    exacts [h, trivial, h]
  | escaped quote => exact h

theorem Proper.after {p : Quoting} (h : p.Proper) (s : List Char) : (p.after s).Proper := by
  induction s generalizing p with
  | nil => exact h
  | cons c s ih => exact ih (h.next c)

/-- The place after a text without quotes and backslashes. It is also what the mask shows: there a
backslash is masked, and with it that a character is taken along. -/
def settled : Quoting → Quoting
  | escaped quote => inside quote
  | q => q

end Quoting

theorem isQuote_ne_backslash {q : Char} (hq : isQuote q = true) : q ≠ '\\' := by
  rintro rfl
  exact absurd hq (by decide)

namespace Body
variable {q : Char} {body : List Char}

/-- A body leaves the literal open. -/
theorem after_inside (h : Body q body) : (Quoting.inside q).after body = .inside q := by
  induction h with
  | nil => rfl
  | char hq hb _ ih => simpa [Quoting.next, hq, hb] using ih
  | escape c _ ih => simpa [Quoting.next] using ih

/-- A body is masked by blanks. -/
theorem maskFrom_inside (h : Body q body) :
    maskFrom (.inside q) body = List.replicate body.length ' ' := by
  induction h with
  | nil => rfl
  | char hq hb _ ih => simp [maskFrom, Quoting.next, Quoting.shown, hq, hb, ih, List.replicate]
  | escape c _ ih => simp [maskFrom, Quoting.next, Quoting.shown, ih, List.replicate]

end Body

namespace Skeleton
variable {s t : List Char}

theorem after_outside (h : Skeleton s t) : Quoting.outside.after s = .outside := by
  induction h with
  | nil => rfl
  | char hc _ ih => simpa [Quoting.next, hc] using ih
  | literal hq hbody _ ih =>
    simpa [Quoting.next, hq, hbody.after_inside, isQuote_ne_backslash hq] using ih

/-- The mask of a text and its skeleton differ in blanks alone. -/
theorem filter_mask (h : Skeleton s t) {keeps : Char → Bool} (hblank : keeps ' ' = false) :
    (mask s).filter keeps = t.filter keeps := by
  induction h with
  | nil => rfl
  | @char c s t hc _ ih =>
    have hmask : mask (c :: s) = c :: mask s := by
      simp [mask, maskFrom, Quoting.next, Quoting.shown, hc]
    rw [hmask, List.filter_cons, List.filter_cons, ih]
  | @literal q body s t hq hbody _ ih =>
    have hb := isQuote_ne_backslash hq
    have hmask : mask (q :: (body ++ q :: s)) =
        q :: (List.replicate body.length ' ' ++ q :: mask s) := by
      simp [mask, maskFrom, Quoting.next, Quoting.shown, hq, hb, hbody.after_inside,
        hbody.maskFrom_inside]
    simp [hmask, List.filter_cons, List.filter_append, hblank, ih]

end Skeleton

/-- A text without quotes is its own skeleton. -/
theorem skeleton_self {s : List Char} (h : ∀ c ∈ s, isQuote c = false) : Skeleton s s := by
  induction s with
  | nil => exact .nil
  | cons c s ih => exact .char (h c (.head _)) (ih fun d hd => h d (.tail _ hd))

/-- From each place of a scan that ends outside literals, the open literal is closed and what
follows it has a skeleton. The three places need each other, so the induction is on all at once. -/
theorem exists_skeleton (s : List Char) :
    (Quoting.outside.after s = .outside → ∃ t, Skeleton s t) ∧
      (∀ q, (Quoting.inside q).after s = .outside →
        ∃ body rest t, s = body ++ q :: rest ∧ Body q body ∧ Skeleton rest t) ∧
      (∀ q, (Quoting.escaped q).after s = .outside →
        ∃ c body rest t, s = c :: (body ++ q :: rest) ∧ Body q body ∧ Skeleton rest t) := by
  induction s with
  | nil => exact ⟨fun _ => ⟨[], .nil⟩, by simp, by simp⟩
  | cons c s ih =>
    obtain ⟨houtside, hinside, hescaped⟩ := ih
    refine ⟨fun h => ?_, fun q h => ?_, fun q h => ?_⟩
    · by_cases hc : isQuote c = true
      · obtain ⟨body, rest, t, rfl, hbody, hrest⟩ := hinside c (by simpa [Quoting.next, hc] using h)
        exact ⟨_, .literal hc hbody hrest⟩
      · obtain ⟨t, ht⟩ := houtside (by simpa [Quoting.next, hc] using h)
        exact ⟨_, .char (by simpa using hc) ht⟩
    · by_cases hb : c = '\\'
      · obtain ⟨d, body, rest, t, rfl, hbody, hrest⟩ :=
          hescaped q (by simpa [Quoting.next, hb] using h)
        exact ⟨_, rest, t, by simp [hb], .escape d hbody, hrest⟩
      · by_cases hq : c = q
        · subst hq
          obtain ⟨t, ht⟩ := houtside (by simpa [Quoting.next, hb] using h)
          exact ⟨[], s, t, rfl, .nil, ht⟩
        · obtain ⟨body, rest, t, rfl, hbody, hrest⟩ :=
            hinside q (by simpa [Quoting.next, hb, hq] using h)
          exact ⟨c :: body, rest, t, by simp, .char hq hb hbody, hrest⟩
    · obtain ⟨body, rest, t, rfl, hbody, hrest⟩ := hinside q (by simpa [Quoting.next] using h)
      exact ⟨c, body, rest, t, rfl, hbody, hrest⟩

theorem leavesOpen_eq_false_iff {s : List Char} :
    leavesOpen s = false ↔ ∃ t, Skeleton s t := by
  constructor
  · intro h
    exact (exists_skeleton s).1 (by simpa [leavesOpen] using h)
  · rintro ⟨t, ht⟩
    simp [leavesOpen, ht.after_outside]

end AskMetrics.Query
