import AskMetrics.Proofs.Query.Delimiters
import AskMetrics.Query.Shape

/-!
# Nested brackets

In a nested text each bracket has its partner, and pairs of whatever kind lie inside or beside each
other. The walk over the delimiters and the scan backwards from a bracket that closes both pass
over such a text as if it were not there.
-/
namespace AskMetrics.Query

/-- The brackets are six characters. -/
theorem not_bracket {u : Char} (h : u ∉ ['(', ')', '[', ']', '\x7b', '\x7d']) (k : Bracket) :
    u ≠ k.opening ∧ u ≠ k.closing := by
  cases k <;> simp_all [Bracket.opening, Bracket.closing]

/-- Texts in which each bracket has its partner, properly nested. -/
inductive Nested : List Char → Prop
  | nil : Nested []
  /-- A character that is no bracket. -/
  | char {u : Char} {x : List Char} (hu : ∀ k : Bracket, u ≠ k.opening ∧ u ≠ k.closing)
    (rest : Nested x) : Nested (u :: x)
  /-- A pair of brackets. -/
  | pair (k : Bracket) {x y : List Char} (inner : Nested x) (rest : Nested y) :
    Nested (k.opening :: (x ++ k.closing :: y))

namespace Nested
variable {x y : List Char}

theorem append (hx : Nested x) (hy : Nested y) : Nested (x ++ y) := by
  induction hx with
  | nil => exact hy
  | char hu _ ih => exact .char hu ih
  | pair k inner _ _ ih => simpa using Nested.pair k inner ih

theorem of_forall (h : ∀ u ∈ x, ∀ k : Bracket, u ≠ k.opening ∧ u ≠ k.closing) : Nested x := by
  induction x with
  | nil => exact .nil
  | cons u x ih => exact .char (h u (.head _)) (ih fun v hv => h v (.tail _ hv))

/-- Brackets around a nested text. -/
theorem brackets (k : Bracket) (hx : Nested x) : Nested (k.opening :: (x ++ [k.closing])) :=
  .pair k hx .nil

end Nested

/-! ## Forwards -/

theorem Depths.set_set_count (d : Depths) (n : Nat) (k : Bracket) :
    (d.set n k).set (d.count k) k = d := by
  cases k <;> rfl

section
variable (d : Depths) (s : List Char)

theorem closes_other {u : Char} (hu : ∀ k : Bracket, u ≠ k.opening ∧ u ≠ k.closing) :
    closes d (u :: s) = closes d s := by
  have hnext := d.next?_other (fun k => (hu k).1) fun k => (hu k).2
  simp [closes, hnext]

theorem closes_opening (k : Bracket) :
    closes d (k.opening :: s) = closes (d.set (d.count k + 1) k) s := by
  simp [closes, d.next?_opening]

/-- A bracket that closes takes back what opened it. -/
theorem closes_closing (k : Bracket) :
    closes (d.set (d.count k + 1) k) (k.closing :: s) = closes d s := by
  simp [closes, Depths.next?_closing, Depths.count_set, Depths.set_set_count]

end

/-- The walk over delimiters passes over a nested text. -/
theorem Nested.closes_append {x : List Char} (h : Nested x) (d : Depths) (s : List Char) :
    closes d (x ++ s) = closes d s := by
  induction h generalizing d s with
  | nil => rfl
  | char hu _ ih => rw [List.cons_append, closes_other d _ hu, ih]
  | @pair k x y _ _ ihInner ihRest =>
    calc closes d (k.opening :: (x ++ k.closing :: y) ++ s)
        = closes (d.set (d.count k + 1) k) (x ++ k.closing :: (y ++ s)) := by
          simp [closes_opening]
      _ = closes (d.set (d.count k + 1) k) (k.closing :: (y ++ s)) := ihInner _ _
      _ = closes d (y ++ s) := closes_closing d _ k
      _ = closes d s := ihRest _ _

/-! ## Backwards -/

section
variable {n : Nat} {b x y : List Char}

theorem beforeOpening_closing : beforeOpening n (')' :: b) = beforeOpening (n + 1) b := by
  cases n with
  | zero => simp [beforeOpening]
  | succ n => cases n <;> simp [beforeOpening]

theorem beforeOpening_opening : beforeOpening (n + 2) ('(' :: b) = beforeOpening (n + 1) b := by
  simp [beforeOpening]

theorem beforeOpening_other {u : Char} (hopen : u ≠ '(') (hclose : u ≠ ')') :
    beforeOpening n (u :: b) = beforeOpening n b := by
  match n with
  | 0 => simp [beforeOpening, hopen]
  | 1 => simp [beforeOpening, hopen]
  | n + 2 => simp [beforeOpening, hopen]

/-- The scan backwards passes over a nested text. -/
theorem Nested.beforeOpening_append (h : Nested x) :
    beforeOpening (n + 1) (x.reverse ++ b) = beforeOpening (n + 1) b := by
  induction h generalizing n b with
  | nil => rfl
  | @char u x hu _ ih =>
    rw [List.reverse_cons, List.append_assoc, ih]
    exact beforeOpening_other (hu .round).1 (hu .round).2
  | @pair k x y _ _ ihInner ihRest =>
    have hreverse : (k.opening :: (x ++ k.closing :: y)).reverse ++ b =
        y.reverse ++ k.closing :: (x.reverse ++ k.opening :: b) := by
      simp
    rw [hreverse, ihRest]
    by_cases hk : k = .round
    · subst hk
      calc beforeOpening (n + 1) (')' :: (x.reverse ++ '(' :: b))
          = beforeOpening (n + 2) (x.reverse ++ '(' :: b) := beforeOpening_closing
        _ = beforeOpening (n + 2) ('(' :: b) := ihInner
        _ = beforeOpening (n + 1) b := beforeOpening_opening
    · -- brackets of the other kinds are characters like others here
      have hne : (k.opening ≠ '(' ∧ k.opening ≠ ')') ∧ k.closing ≠ '(' ∧ k.closing ≠ ')' := by
        cases k with
        | round => exact absurd rfl hk
        | square | curly => decide
      rw [beforeOpening_other hne.2.1 hne.2.2, ihInner, beforeOpening_other hne.1.1 hne.1.2]

/-- A scan with more brackets waiting goes on from where it would have stopped. -/
theorem beforeOpening_add {t : List Char} (h : beforeOpening (n + 1) b = some t) (m : Nat) :
    beforeOpening (n + 1 + (m + 1)) b = beforeOpening (m + 1) t := by
  induction b generalizing n with
  | nil => simp [beforeOpening] at h
  | cons u b ih =>
    by_cases hclose : u = ')'
    · subst hclose
      rw [beforeOpening_closing] at h ⊢
      rw [← ih h]
      congr 1
      omega
    · by_cases hopen : u = '('
      · subst hopen
        cases n with
        | zero =>
          obtain rfl : b = t := by simpa [beforeOpening] using h
          rw [Nat.zero_add, Nat.add_comm, beforeOpening_opening]
        | succ n =>
          rw [beforeOpening_opening] at h
          rw [← ih h]
          have hmove : n + 1 + 1 + (m + 1) = (n + 1 + m) + 2 := by omega
          rw [hmove, beforeOpening_opening]
          congr 1
      · rw [beforeOpening_other hopen hclose] at h ⊢
        exact ih h

end

end AskMetrics.Query
