import AskMetrics.Text.Pattern
import Mathlib.Data.List.Basic
import Mathlib.Data.List.TakeWhile

/-!
# What a pattern matches

The list of ends of a pattern answers two questions: whether a shape fits up to a place, which is
membership, and which of several fits is used, which is the head of the list. Here is one rule for
each constructor and each question, so that no proof about a shape has to open the list.
-/
namespace AskMetrics.Text

/-! ## Reading -/

/-- `x` is the text between `c` and the later place `d`. -/
structure Cursor.Reads (c : Cursor) (x : List Char) (d : Cursor) : Prop where
  ahead : c.ahead = x ++ d.ahead
  behind : d.behind = x.reverse ++ c.behind

namespace Cursor
variable {c d e : Cursor} {x y : List Char}

theorem Reads.refl (c : Cursor) : c.Reads [] c := ⟨rfl, rfl⟩

theorem Reads.trans (hx : c.Reads x d) (hy : d.Reads y e) : c.Reads (x ++ y) e := by
  refine ⟨?_, ?_⟩
  · rw [hx.ahead, hy.ahead, List.append_assoc]
  · rw [hy.behind, hx.behind, List.reverse_append, List.append_assoc]

theorem reads_mk (b x a : List Char) : Reads ⟨b, x ++ a⟩ x ⟨x.reverse ++ b, a⟩ := ⟨rfl, rfl⟩

/-- Where reading a text ends. -/
theorem Reads.unique (h : c.Reads x d) (h' : c.Reads x e) : d = e := by
  obtain ⟨b, a⟩ := d
  obtain ⟨b', a'⟩ := e
  obtain rfl : a = a' := List.append_cancel_left (h.ahead.symm.trans h'.ahead)
  obtain rfl : b = b' := h.behind.trans h'.behind.symm
  rfl

@[simp] theorem reads_nil_iff : c.Reads [] d ↔ d = c := by
  constructor
  · rintro ⟨hahead, hbehind⟩
    obtain ⟨b, a⟩ := c
    obtain ⟨b', a'⟩ := d
    simp_all
  · rintro rfl
    exact .refl _

/-- Reading a character and then the rest. -/
theorem reads_cons_iff {u : Char} :
    c.Reads (u :: x) e ↔ ∃ d, c.Reads [u] d ∧ d.Reads x e := by
  constructor
  · rintro ⟨hahead, hbehind⟩
    exact ⟨⟨u :: c.behind, x ++ e.ahead⟩, ⟨by simpa using hahead, rfl⟩,
      ⟨rfl, by simpa using hbehind⟩⟩
  · rintro ⟨d, hu, hx⟩
    exact hu.trans hx

/-- Reading two texts one after the other. -/
theorem reads_append_iff : c.Reads (x ++ y) e ↔ ∃ d, c.Reads x d ∧ d.Reads y e := by
  constructor
  · rintro ⟨hahead, hbehind⟩
    exact ⟨⟨x.reverse ++ c.behind, y ++ e.ahead⟩, ⟨by simpa using hahead, rfl⟩,
      ⟨rfl, by simpa using hbehind⟩⟩
  · rintro ⟨d, hx, hy⟩
    exact hx.trans hy

theorem Reads.length (h : c.Reads x d) : c.ahead.length = x.length + d.ahead.length := by
  rw [h.ahead, List.length_append]

theorem Reads.upTo (h : c.Reads x d) : c.upTo d = x := by
  simp [Cursor.upTo, h.ahead]

end Cursor

/-! ## Where a shape fits -/

/-- The places reached by repeating a step. -/
inductive StepsTo (step : Cursor → List Cursor) : Nat → Cursor → Cursor → Prop
  | zero (c : Cursor) : StepsTo step 0 c c
  | succ {n : Nat} {c d e : Cursor} (hstep : d ∈ step c) (rest : StepsTo step n d e) :
    StepsTo step (n + 1) c e

theorem mem_repeated_iff {step : Cursor → List Cursor} {n : Nat} {c d : Cursor}
    {rest : List Cursor} :
    d ∈ repeated step n c rest ↔ d ∈ rest ∨ ∃ k ≤ n, StepsTo step k c d := by
  induction n generalizing c rest with
  | zero =>
    constructor
    · intro h
      rcases List.mem_cons.mp h with rfl | h
      · exact .inr ⟨0, Nat.le_refl 0, .zero d⟩
      · exact .inl h
    · rintro (h | ⟨k, hk, hsteps⟩)
      · exact .tail _ h
      · obtain rfl : k = 0 := by omega
        cases hsteps
        exact .head _
  | succ n ih =>
    -- the runs that start with one of some steps, and those that stop at once
    have hfold : ∀ ds : List Cursor,
        d ∈ ds.foldr (fun e => repeated step n e) (c :: rest) ↔
          (d = c ∨ d ∈ rest) ∨ ∃ e ∈ ds, ∃ k ≤ n, StepsTo step k e d := by
      intro ds
      induction ds with
      | nil => simp
      | cons e ds hds =>
        rw [List.foldr_cons, ih, hds]
        simp only [List.mem_cons, exists_eq_or_imp]
        exact or_assoc.trans (or_congr_right or_comm)
    rw [repeated, hfold]
    constructor
    · rintro ((rfl | h) | ⟨e, he, k, hk, hsteps⟩)
      · exact .inr ⟨0, Nat.zero_le _, .zero d⟩
      · exact .inl h
      · exact .inr ⟨k + 1, by omega, .succ he hsteps⟩
    · rintro (h | ⟨k, hk, hsteps⟩)
      · exact .inl (.inr h)
      · cases hsteps with
        | zero => exact .inl (.inl rfl)
        | @succ n' _ e _ he hrest => exact .inr ⟨e, he, n', by omega, hrest⟩

namespace Pattern
variable {c d e : Cursor} {p q : Pattern} {f : Char → Bool}

@[simp] theorem mem_ends_one : d ∈ (one f).ends c ↔ ∃ u, f u = true ∧ c.Reads [u] d := by
  obtain ⟨b, a⟩ := c
  obtain ⟨b', a'⟩ := d
  cases a with
  | nil => simpa [ends] using fun u _ h => by simpa using h.ahead
  | cons u a =>
    constructor
    · intro h
      simp only [ends] at h
      split_ifs at h with hu
      · obtain ⟨rfl, rfl⟩ := by simpa using h
        exact ⟨u, hu, ⟨rfl, rfl⟩⟩
      · simp at h
    · rintro ⟨u', hu', hahead, hbehind⟩
      obtain ⟨rfl, rfl⟩ := by simpa using hahead
      obtain rfl : b' = u :: b := by simpa using hbehind
      simp [ends, hu']

@[simp] theorem mem_ends_edge : d ∈ edge.ends c ↔ c.atEdge = true ∧ d = c :=
  List.mem_ite_nil_right.trans (and_congr_right' List.mem_singleton)

@[simp] theorem mem_ends_atStart : d ∈ atStart.ends c ↔ c.behind = [] ∧ d = c :=
  List.mem_ite_nil_right.trans (and_congr List.isEmpty_iff List.mem_singleton)

@[simp] theorem mem_ends_atEnd : d ∈ atEnd.ends c ↔ c.ahead = [] ∧ d = c :=
  List.mem_ite_nil_right.trans (and_congr List.isEmpty_iff List.mem_singleton)

@[simp] theorem mem_ends_empty : d ∈ empty.ends c ↔ d = c := List.mem_singleton

@[simp] theorem mem_ends_andThen :
    e ∈ (andThen p q).ends c ↔ ∃ d ∈ p.ends c, e ∈ q.ends d :=
  List.mem_flatMap

@[simp] theorem mem_ends_orElse : d ∈ (orElse p q).ends c ↔ d ∈ p.ends c ∨ d ∈ q.ends c :=
  List.mem_append

@[simp] theorem mem_ends_char {u : Char} : d ∈ (char u).ends c ↔ c.Reads [u] d := by
  simp [char]

/-- Repeating a single character reads a text of such characters. -/
theorem stepsTo_one_iff {n : Nat} :
    StepsTo (ends (one f)) n c d ↔ ∃ x, x.length = n ∧ (∀ u ∈ x, f u = true) ∧ c.Reads x d := by
  induction n generalizing c with
  | zero =>
    constructor
    · rintro ⟨⟩
      exact ⟨[], rfl, by simp, .refl _⟩
    · rintro ⟨x, hlength, -, hreads⟩
      obtain rfl := List.length_eq_zero_iff.mp hlength
      obtain rfl := Cursor.reads_nil_iff.mp hreads
      exact .zero _
  | succ n ih =>
    constructor
    · rintro ⟨⟩
      rename_i e hstep hrest
      obtain ⟨u, hu, hread⟩ := mem_ends_one.mp hstep
      obtain ⟨x, hlength, hx, hreads⟩ := ih.mp hrest
      exact ⟨u :: x, by simp [hlength], by simpa [hu] using hx, hread.trans hreads⟩
    · rintro ⟨x, hlength, hx, hreads⟩
      cases x with
      | nil => simp at hlength
      | cons u x =>
        obtain ⟨e, hread, hrest⟩ := Cursor.reads_cons_iff.mp hreads
        refine .succ (mem_ends_one.mpr ⟨u, hx u (.head _), hread⟩) (ih.mpr ⟨x, ?_, ?_, hrest⟩)
        · simpa using hlength
        · exact fun v hv => hx v (.tail _ hv)

@[simp] theorem mem_ends_many_one :
    d ∈ (many (one f)).ends c ↔ ∃ x, (∀ u ∈ x, f u = true) ∧ c.Reads x d := by
  rw [ends, mem_repeated_iff]
  simp only [List.not_mem_nil, false_or, stepsTo_one_iff]
  constructor
  · rintro ⟨n, -, x, -, hx, hreads⟩
    exact ⟨x, hx, hreads⟩
  · rintro ⟨x, hx, hreads⟩
    have := hreads.length
    exact ⟨x.length, by omega, x, rfl, hx, hreads⟩

@[simp] theorem mem_ends_atLeast_one {n : Nat} :
    d ∈ (atLeast n (one f)).ends c ↔
      ∃ x, n ≤ x.length ∧ (∀ u ∈ x, f u = true) ∧ c.Reads x d := by
  induction n generalizing c with
  | zero => simp [atLeast]
  | succ n ih =>
    simp only [atLeast, mem_ends_andThen, mem_ends_one, ih]
    constructor
    · rintro ⟨e, ⟨u, hu, hread⟩, x, hn, hx, hrest⟩
      exact ⟨u :: x, by simpa using hn, List.forall_mem_cons.mpr ⟨hu, hx⟩, hread.trans hrest⟩
    · rintro ⟨x, hn, hx, hreads⟩
      cases x with
      | nil => simp at hn
      | cons u x =>
        obtain ⟨e, hread, hrest⟩ := Cursor.reads_cons_iff.mp hreads
        obtain ⟨hu, hx⟩ := List.forall_mem_cons.mp hx
        exact ⟨e, ⟨u, hu, hread⟩, x, by simpa using hn, hx, hrest⟩

@[simp] theorem mem_ends_blanks :
    d ∈ blanks.ends c ↔ ∃ x, (∀ u ∈ x, isBlank u = true) ∧ c.Reads x d :=
  mem_ends_many_one

@[simp] theorem mem_ends_some_one :
    e ∈ (some (one f)).ends c ↔
      ∃ u x, f u = true ∧ (∀ v ∈ x, f v = true) ∧ c.Reads (u :: x) e := by
  simp only [some, mem_ends_andThen, mem_ends_one, mem_ends_many_one]
  constructor
  · rintro ⟨d, ⟨u, hu, hread⟩, x, hx, hreads⟩
    exact ⟨u, x, hu, hx, hread.trans hreads⟩
  · rintro ⟨u, x, hu, hx, hreads⟩
    obtain ⟨d, hread, hrest⟩ := Cursor.reads_cons_iff.mp hreads
    exact ⟨d, ⟨u, hu, hread⟩, x, hx, hrest⟩

/-- A repetition of a class reads a text of it that is not empty. -/
theorem mem_ends_run :
    e ∈ (some (one f)).ends c ↔ ∃ x, x ≠ [] ∧ (∀ u ∈ x, f u = true) ∧ c.Reads x e := by
  rw [mem_ends_some_one]
  constructor
  · rintro ⟨u, x, hu, hx, hread⟩
    exact ⟨u :: x, by simp, List.forall_mem_cons.mpr ⟨hu, hx⟩, hread⟩
  · rintro ⟨x, hne, hx, hread⟩
    obtain ⟨u, x, rfl⟩ := List.exists_cons_of_ne_nil hne
    exact ⟨u, x, hx u (.head _), fun v hv => hx v (.tail _ hv), hread⟩

@[simp] theorem mem_ends_someBlanks :
    e ∈ someBlanks.ends c ↔
      ∃ u x, isBlank u = true ∧ (∀ v ∈ x, isBlank v = true) ∧ c.Reads (u :: x) e :=
  mem_ends_some_one

@[simp] theorem mem_ends_literal {s : String} : d ∈ (literal s).ends c ↔ c.Reads s.toList d := by
  unfold literal
  induction s.toList generalizing c with
  | nil => simp
  | cons u x ih => simp [ih, ← Cursor.reads_cons_iff]

@[simp] theorem mem_ends_anyCase {s : String} :
    d ∈ (anyCase s).ends c ↔
      ∃ x, List.Forall₂ (fun letter u => sameLetter letter u = true) s.toList x ∧ c.Reads x d := by
  unfold anyCase
  induction s.toList generalizing c with
  | nil =>
    rw [List.foldr_nil, mem_ends_empty]
    constructor
    · rintro rfl
      exact ⟨[], .nil, .refl _⟩
    · rintro ⟨_, ⟨⟩, hread⟩
      exact Cursor.reads_nil_iff.mp hread
  | cons letter letters ih =>
    simp only [List.foldr_cons, mem_ends_andThen, mem_ends_one, ih]
    constructor
    · rintro ⟨e, ⟨u, hu, hread⟩, x, hx, hrest⟩
      exact ⟨u :: x, .cons hu hx, hread.trans hrest⟩
    · rintro ⟨_, hletters, hreads⟩
      cases hletters with
      | cons hu hx =>
        obtain ⟨e, hread, hrest⟩ := Cursor.reads_cons_iff.mp hreads
        exact ⟨e, ⟨_, hu, hread⟩, _, hx, hrest⟩

/-- A character that is read with case ignored is one of the letters but for its case. -/
theorem exists_letter_of_mem {letters x : List Char}
    (h : List.Forall₂ (fun letter u => sameLetter letter u = true) letters x) :
    ∀ u ∈ x, ∃ letter ∈ letters, sameLetter letter u = true := by
  induction h with
  | nil => simp
  | cons hsame _ ih =>
    intro v hv
    rcases List.mem_cons.mp hv with rfl | hv
    · exact ⟨_, .head _, hsame⟩
    · obtain ⟨letter, hmem, hletter⟩ := ih v hv
      exact ⟨letter, .tail _ hmem, hletter⟩

/-- A text whose case is ignored reads letters that are the same but for their case. -/
theorem exists_sameLetter_of_mem_ends {s : String} (h : d ∈ (anyCase s).ends c) :
    ∃ x, c.Reads x d ∧ ∀ u ∈ x, ∃ letter ∈ s.toList, sameLetter letter u = true := by
  obtain ⟨x, hx, hread⟩ := mem_ends_anyCase.mp h
  exact ⟨x, hread, exists_letter_of_mem hx⟩

/-- One of some shapes fits where any of them does. -/
theorem mem_ends_oneOf {ps : List Pattern} : d ∈ (oneOf ps).ends c ↔ ∃ p ∈ ps, d ∈ p.ends c := by
  induction ps with
  | nil => simp [oneOf]
  | cons p ps ih =>
    cases ps with
    | nil => simp [oneOf]
    | cons q ps => simpa [oneOf] using or_congr_right ih

@[simp] theorem mem_ends_oneOf_literal {ws : List String} :
    d ∈ (oneOf (ws.map literal)).ends c ↔ ∃ w ∈ ws, c.Reads w.toList d := by
  simp [mem_ends_oneOf]

@[simp] theorem mem_ends_oneOf_anyCase {ws : List String} :
    d ∈ (oneOf (ws.map anyCase)).ends c ↔ ∃ w ∈ ws, d ∈ (anyCase w).ends c := by
  simp [mem_ends_oneOf]

@[simp] theorem sequence_singleton : sequence [p] = p := rfl

@[simp] theorem sequence_cons_cons {ps : List Pattern} :
    sequence (p :: q :: ps) = andThen p (sequence (q :: ps)) := rfl

/-- A match takes a text from the front of what lies ahead. -/
theorem exists_reads (h : d ∈ p.ends c) : ∃ x, c.Reads x d := by
  induction p generalizing c d with
  | one f =>
    obtain ⟨u, -, hread⟩ := mem_ends_one.mp h
    exact ⟨[u], hread⟩
  | edge | atStart | atEnd => exact ⟨[], by simp_all⟩
  | empty => exact ⟨[], by simpa using h⟩
  | andThen p q ihp ihq =>
    obtain ⟨e, he, hd⟩ := mem_ends_andThen.mp h
    obtain ⟨x, hx⟩ := ihp he
    obtain ⟨y, hy⟩ := ihq hd
    exact ⟨x ++ y, hx.trans hy⟩
  | orElse p q ihp ihq => exact (mem_ends_orElse.mp h).elim ihp ihq
  | many p ih =>
    rw [ends, mem_repeated_iff] at h
    obtain ⟨n, -, hsteps⟩ := h.resolve_left (by simp)
    clear h
    induction hsteps with
    | zero c => exact ⟨[], .refl c⟩
    | succ hstep _ ihrest =>
      obtain ⟨x, hx⟩ := ih hstep
      obtain ⟨y, hy⟩ := ihrest
      exact ⟨x ++ y, hx.trans hy⟩

/-! ## The preferred match -/

/-- The end of the preferred match. -/
def first (p : Pattern) (c : Cursor) : Option Cursor := (p.ends c).head?

theorem first_eq_none_iff : p.first c = none ↔ p.ends c = [] := by
  simp [first]

theorem mem_ends_of_first (h : p.first c = Option.some d) : d ∈ p.ends c :=
  List.mem_of_mem_head? h

theorem first_one {u : Char} {b a : List Char} (hu : f u = true) :
    (one f).first ⟨b, u :: a⟩ = Option.some ⟨u :: b, a⟩ := by
  simp [first, ends, hu]

theorem first_char {u : Char} {b a : List Char} :
    (char u).first ⟨b, u :: a⟩ = Option.some ⟨u :: b, a⟩ :=
  first_one (by simp)

theorem first_andThen (hp : p.first c = Option.some d) (hq : q.first d = Option.some e) :
    (andThen p q).first c = Option.some e := by
  obtain ⟨ds, hds⟩ := List.head?_eq_some_iff.mp hp
  obtain ⟨es, hes⟩ := List.head?_eq_some_iff.mp hq
  simp [first, ends, hds, hes]

/-- The preferred match of two shapes ends with a preferred match of the second. -/
theorem exists_first_of_first_andThen (h : (andThen p q).first c = Option.some e) :
    ∃ d ∈ p.ends c, q.first d = Option.some e := by
  have hflat : ((p.ends c).flatMap (ends q)).head? = Option.some e := h
  generalize p.ends c = ds at hflat ⊢
  induction ds with
  | nil => simp at hflat
  | cons d ds ih =>
    rw [List.flatMap_cons] at hflat
    cases hends : q.ends d with
    | nil =>
      obtain ⟨d', hd', hfirst⟩ := ih (by simpa [hends] using hflat)
      exact ⟨d', .tail _ hd', hfirst⟩
    | cons e' es =>
      obtain rfl : e' = e := by simpa [hends] using hflat
      exact ⟨d, .head _, by simp [first, hends]⟩

theorem first_orElse_left (hp : p.first c = Option.some d) :
    (orElse p q).first c = Option.some d := by
  obtain ⟨ds, hds⟩ := List.head?_eq_some_iff.mp hp
  simp [first, ends, hds]

theorem first_orElse_right (hp : p.ends c = []) : (orElse p q).first c = q.first c := by
  simp [first, ends, hp]

/-- A repetition that goes on as long as it can, by the preferred match each time. -/
inductive Greedy (p : Pattern) : Cursor → Cursor → Prop
  | stop {c : Cursor} (hno : p.ends c = []) : Greedy p c c
  | step {c d e : Cursor} (hfirst : p.first c = Option.some d)
    (hless : d.ahead.length < c.ahead.length) (rest : Greedy p d e) : Greedy p c e

theorem Greedy.head?_repeated (h : Greedy p c d) {n : Nat} (hn : c.ahead.length ≤ n)
    (rest : List Cursor) : (repeated (ends p) n c rest).head? = Option.some d := by
  induction h generalizing n rest with
  | stop hno => cases n <;> simp [repeated, hno]
  | step hfirst hless _ ih =>
    obtain ⟨ds, hds⟩ := List.head?_eq_some_iff.mp hfirst
    cases n with
    | zero => omega
    | succ n =>
      rw [repeated, hds, List.foldr_cons]
      exact ih (by omega) _

theorem first_many (h : Greedy p c d) : (many p).first c = Option.some d :=
  h.head?_repeated (Nat.le_refl _) []

theorem ends_one_eq_nil {b a : List Char} (ha : ∀ u ∈ a.head?, f u = false) :
    (one f).ends ⟨b, a⟩ = [] := by
  cases a with
  | nil => rfl
  | cons u a => simp [ends, ha u rfl]

theorem first_many_one {b x a : List Char} (hx : ∀ u ∈ x, f u = true)
    (ha : ∀ u ∈ a.head?, f u = false) :
    (many (one f)).first ⟨b, x ++ a⟩ = Option.some ⟨x.reverse ++ b, a⟩ := by
  refine first_many ?_
  induction x generalizing b with
  | nil => exact .stop (ends_one_eq_nil ha)
  | cons u x ih =>
    have hrest := ih (b := u :: b) fun v hv => hx v (.tail _ hv)
    refine .step (first_one (hx u (.head _))) (by simp) ?_
    simpa using hrest

/-- A repetition of a class takes all it can. -/
theorem exists_reads_of_first_many_one (h : (many (one f)).first c = Option.some d) :
    ∃ x, c.Reads x d ∧ (∀ u ∈ x, f u = true) ∧ ∀ u ∈ d.ahead.head?, f u = false := by
  obtain ⟨b, a⟩ := c
  have hrest : ∀ u ∈ (a.dropWhile f).head?, f u = false := by
    intro u hu
    have hdrop := List.head?_dropWhile_not f a
    simpa [Option.mem_def.mp hu] using hdrop
  have hall : ∀ u ∈ a.takeWhile f, f u = true := fun u hu => List.mem_takeWhile_imp hu
  have hfirst := first_many_one (b := b) hall hrest
  rw [List.takeWhile_append_dropWhile, h, Option.some.injEq] at hfirst
  subst hfirst
  exact ⟨_, ⟨List.takeWhile_append_dropWhile.symm, rfl⟩, hall, hrest⟩

theorem first_some_one {b x a : List Char} (hne : x ≠ []) (hx : ∀ u ∈ x, f u = true)
    (ha : ∀ u ∈ a.head?, f u = false) :
    (some (one f)).first ⟨b, x ++ a⟩ = Option.some ⟨x.reverse ++ b, a⟩ := by
  obtain ⟨u, x, rfl⟩ := List.exists_cons_of_ne_nil hne
  have hrest := first_many_one (b := u :: b) (fun v hv => hx v (.tail _ hv)) ha
  exact first_andThen (first_one (hx u (.head _))) (by simpa using hrest)

/-- A run of a class takes all of it. -/
theorem exists_reads_of_first_some_one (h : (some (one f)).first c = Option.some d) :
    ∃ x, c.Reads x d ∧ x ≠ [] ∧ (∀ u ∈ x, f u = true) ∧ ∀ u ∈ d.ahead.head?, f u = false := by
  obtain ⟨e, he, hrest⟩ := exists_first_of_first_andThen h
  obtain ⟨u, hu, hread⟩ := mem_ends_one.mp he
  obtain ⟨x, hreads, hx, hafter⟩ := exists_reads_of_first_many_one hrest
  exact ⟨u :: x, hread.trans hreads, by simp, List.forall_mem_cons.mpr ⟨hu, hx⟩, hafter⟩

/-- A repetition of a class fits everywhere, so what is before it matches in the preferred way. -/
theorem first_of_first_andThen_many_one (h : (andThen p (many (one f))).first c = Option.some e) :
    ∃ d, p.first c = Option.some d ∧ (many (one f)).first d = Option.some e := by
  obtain ⟨d, hd, -⟩ := exists_first_of_first_andThen h
  cases hfirst : p.first c with
  | none => simp [first_eq_none_iff.mp hfirst] at hd
  | some d' =>
    have hnothing : d' ∈ (many (one f)).ends d' := mem_ends_many_one.mpr ⟨[], by simp, .refl d'⟩
    obtain ⟨e', hmany⟩ := Option.ne_none_iff_exists'.mp
      (mt first_eq_none_iff.mp (List.ne_nil_of_mem hnothing))
    rw [first_andThen hfirst hmany] at h
    exact ⟨d', rfl, hmany.trans h⟩

/-- So does a repetition with a least number of times. -/
theorem not_of_first_atLeast_one {n : Nat} (h : (atLeast n (one f)).first c = Option.some d) :
    ∀ u ∈ d.ahead.head?, f u = false := by
  induction n generalizing c with
  | zero =>
    obtain ⟨x, -, -, hafter⟩ := exists_reads_of_first_many_one h
    exact hafter
  | succ n ih =>
    obtain ⟨e, -, hrest⟩ := exists_first_of_first_andThen h
    exact ih hrest

theorem first_literal {s : String} {b a : List Char} :
    (literal s).first ⟨b, s.toList ++ a⟩ = Option.some ⟨s.toList.reverse ++ b, a⟩ := by
  unfold literal
  induction s.toList generalizing b with
  | nil => rfl
  | cons u x ih => exact first_andThen first_char (by simpa using ih (b := u :: b))

theorem first_anyCase {s : String} {b x a : List Char}
    (h : List.Forall₂ (fun letter u => sameLetter letter u = true) s.toList x) :
    (anyCase s).first ⟨b, x ++ a⟩ = Option.some ⟨x.reverse ++ b, a⟩ := by
  unfold anyCase
  generalize s.toList = letters at h
  induction h generalizing b with
  | nil => rfl
  | @cons letter u letters x hu _ ih =>
    exact first_andThen (first_one hu) (by simpa using ih (b := u :: b))

end Pattern

/-! ## Matches -/

section
variable {p : Pattern} {c d : Cursor}

theorem splitFrom_singleton :
    splitFrom [p] c = (p.first c).map fun d => ([c.upTo d], d) := by
  unfold splitFrom
  cases h : p.ends c with
  | nil => simp [Pattern.first, h]
  | cons d ds => simp [Pattern.first, h, splitFrom]

/-- A single part matches in the preferred way. -/
theorem matchAt_singleton :
    matchAt [p] c = (p.first c).map fun d => ⟨c, [c.upTo d], d⟩ := by
  rw [matchAt, splitFrom_singleton, Option.map_map]
  rfl

theorem matchAt_singleton_eq_none (h : p.ends c = []) : matchAt [p] c = none := by
  simp [matchAt_singleton, Pattern.first_eq_none_iff.mpr h]

/-- A match of some parts begins with the first one. -/
theorem exists_of_splitFrom_cons {parts : List Pattern} {texts : List (List Char)}
    (h : splitFrom (p :: parts) c = some (texts, d)) :
    ∃ e x rest, texts = x :: rest ∧ e ∈ p.ends c ∧ c.Reads x e ∧
      splitFrom parts e = some (rest, d) := by
  obtain ⟨e, he, hrest⟩ := List.exists_of_findSome?_eq_some h
  obtain ⟨⟨rest, d'⟩, hsplit, heq⟩ := Option.map_eq_some_iff.mp hrest
  obtain ⟨rfl, rfl⟩ := by simpa using heq
  obtain ⟨x, hx⟩ := Pattern.exists_reads he
  exact ⟨e, x, rest, by rw [hx.upTo], he, hx, hsplit⟩

/-- The parts of a match read a text one after another. -/
theorem exists_reads_of_splitFrom {parts : List Pattern} {texts : List (List Char)}
    (h : splitFrom parts c = some (texts, d)) : c.Reads texts.flatten d := by
  induction parts generalizing c texts with
  | nil =>
    obtain ⟨rfl, rfl⟩ := by simpa [splitFrom] using h
    exact .refl _
  | cons p parts ih =>
    obtain ⟨e, x, rest, rfl, -, hx, hsplit⟩ := exists_of_splitFrom_cons h
    exact hx.trans (ih hsplit)

theorem reads_of_matchAt {parts : List Pattern} {m : Match} (h : matchAt parts c = some m) :
    m.start = c ∧ c.Reads m.text m.stop := by
  obtain ⟨⟨texts, stop⟩, hsplit, rfl⟩ := Option.map_eq_some_iff.mp h
  exact ⟨rfl, exists_reads_of_splitFrom hsplit⟩

/-- Some parts fit one after another when the first one fits up to a place from which the others
do. -/
theorem splitFrom_isSome_iff {parts : List Pattern} :
    (splitFrom (p :: parts) c).isSome = true ↔
      ∃ d ∈ p.ends c, (splitFrom parts d).isSome = true := by
  rw [splitFrom, List.findSome?_isSome_iff]
  simp only [Option.isSome_map]

/-- Parts that fit one after another match. -/
theorem exists_matchAt {parts : List Pattern} (h : (splitFrom parts c).isSome = true) :
    ∃ m, matchAt parts c = some m := by
  obtain ⟨r, hr⟩ := Option.isSome_iff_exists.mp h
  exact ⟨_, by rw [matchAt, hr, Option.map_some]⟩

/-- Two parts that fit one after the other match. -/
theorem exists_matchAt_pair {q : Pattern} (hd : d ∈ p.ends c) {e : Cursor}
    (he : q.first d = some e) : ∃ m, matchAt [p, q] c = some m :=
  exists_matchAt (splitFrom_isSome_iff.mpr ⟨d, hd, by simp [splitFrom_singleton, he]⟩)

/-- A match of two parts: the first part fits up to a place, from which the second matches in the
preferred way. -/
theorem exists_first_of_matchAt_pair {q : Pattern} {m : Match} (h : matchAt [p, q] c = some m) :
    ∃ d ∈ p.ends c, q.first d = some m.stop ∧ m.part 1 = d.upTo m.stop := by
  obtain ⟨⟨texts, stop⟩, hsplit, rfl⟩ := Option.map_eq_some_iff.mp h
  obtain ⟨d, x, rest, rfl, hd, -, hsplit'⟩ := exists_of_splitFrom_cons hsplit
  rw [splitFrom_singleton, Option.map_eq_some_iff] at hsplit'
  obtain ⟨e, he, heq⟩ := hsplit'
  obtain ⟨rfl, rfl⟩ := by simpa using heq
  exact ⟨d, hd, he, rfl⟩

end

end AskMetrics.Text
