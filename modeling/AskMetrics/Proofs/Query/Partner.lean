import AskMetrics.Proofs.Query.Nested

/-!
# Partners of brackets

A bracket that closes belongs to the innermost one that waits for its partner when a text is read
from left to right. The check on groupings looks for the same bracket from right to left, with a
counter and without regard to brackets of other kinds, and it takes a place to be in curly brackets
when more of them open than close before it. Both ways come to the same.
-/
namespace AskMetrics.Query

/-- The places of the brackets of one kind that wait for their partner, innermost first, when a text
that starts at a place is read with some brackets already waiting. -/
def waitingFrom (k : Bracket) : List Nat → Nat → List Char → List Nat
  | stack, _, [] => stack
  | stack, n, c :: cs =>
    if c = k.opening then waitingFrom k (n :: stack) (n + 1) cs
    else if c = k.closing then waitingFrom k stack.tail (n + 1) cs
    else waitingFrom k stack (n + 1) cs

/-- The places of the brackets of one kind that wait for their partner behind a text. -/
def waiting (k : Bracket) (s : List Char) : List Nat := waitingFrom k [] 0 s

/-- The place of the round bracket whose partner a closing one directly behind a text is. -/
def partner? (s : List Char) : Option Nat := (waiting .round s).head?

section
variable (k : Bracket)

theorem waitingFrom_append (stack : List Nat) (n : Nat) (x y : List Char) :
    waitingFrom k stack n (x ++ y) = waitingFrom k (waitingFrom k stack n x) (n + x.length) y := by
  induction x generalizing stack n with
  | nil => rfl
  | cons c x ih =>
    have hplace : n + (c :: x).length = n + 1 + x.length := by
      simp only [List.length_cons]
      omega
    rw [List.cons_append, waitingFrom, waitingFrom, hplace]
    split_ifs <;> exact ih _ _

theorem waiting_concat (s : List Char) (c : Char) :
    waiting k (s ++ [c]) =
      if c = k.opening then s.length :: waiting k s
      else if c = k.closing then (waiting k s).tail
      else waiting k s := by
  rw [waiting, waitingFrom_append, Nat.zero_add]
  rfl

theorem waiting_opening (s : List Char) :
    waiting k (s ++ [k.opening]) = s.length :: waiting k s := by
  rw [waiting_concat, if_pos rfl]

theorem waiting_closing (s : List Char) : waiting k (s ++ [k.closing]) = (waiting k s).tail := by
  rw [waiting_concat, if_neg k.opening_ne_closing.symm, if_pos rfl]

theorem waiting_other (s : List Char) {c : Char} (hopen : c ≠ k.opening) (hclose : c ≠ k.closing) :
    waiting k (s ++ [c]) = waiting k s := by
  rw [waiting_concat, if_neg hopen, if_neg hclose]

end

/-! ## The scan backwards -/

/-- The scan backwards stops at a bracket that opens. -/
theorem exists_append_of_beforeOpening {n : Nat} {b t : List Char}
    (h : beforeOpening n b = some t) : ∃ x, b = x ++ '(' :: t := by
  induction b generalizing n with
  | nil => simp [beforeOpening] at h
  | cons u b ih =>
    have hlater : ∀ {m}, beforeOpening m b = some t → ∃ x, u :: b = x ++ '(' :: t := by
      intro m hm
      obtain ⟨x, rfl⟩ := ih hm
      exact ⟨u :: x, rfl⟩
    by_cases hclose : u = ')'
    · subst hclose
      rw [beforeOpening_closing] at h
      exact hlater h
    · by_cases hopen : u = '('
      · subst hopen
        rcases n with _ | _ | n
        · exact hlater (m := 0) (by simpa [beforeOpening] using h)
        · obtain rfl : b = t := by simpa [beforeOpening] using h
          exact ⟨[], rfl⟩
        · rw [beforeOpening_opening] at h
          exact hlater h
      · rw [beforeOpening_other hopen hclose] at h
        exact hlater h

/-- The scan backwards finds the brackets that wait for their partner, innermost first. The
induction is on the text read backwards, so each step takes away its last character. -/
theorem waiting_getElem? (b : List Char) (n : Nat) :
    (waiting .round b.reverse)[n]? = (beforeOpening (n + 1) b).map List.length := by
  induction b generalizing n with
  | nil => rfl
  | cons c b ih =>
    rw [List.reverse_cons]
    by_cases hopen : c = '('
    · subst hopen
      have hstep : waiting .round (b.reverse ++ ['(']) = _ := waiting_opening .round b.reverse
      rw [hstep]
      cases n with
      | zero => simp [beforeOpening]
      | succ n => rw [List.getElem?_cons_succ, ih, beforeOpening_opening]
    · by_cases hclose : c = ')'
      · subst hclose
        have hstep : waiting .round (b.reverse ++ [')']) = _ := waiting_closing .round b.reverse
        rw [hstep, List.getElem?_tail, ih, beforeOpening_closing]
      · rw [waiting_other .round _ hopen hclose, ih, beforeOpening_other hopen hclose]

/-- The scan backwards from a bracket that closes finds its partner. -/
theorem partner?_eq (b : List Char) :
    partner? b.reverse = (beforeOpening 0 (')' :: b)).map List.length := by
  rw [partner?, List.head?_eq_getElem?, waiting_getElem?, beforeOpening_closing]

/-! ## Counting -/

section
variable {k : Bracket}

/-- Until a text closes what does not wait, the brackets that wait are those that opened less those
that closed. -/
theorem length_waitingFrom (stack : List Nat) (n : Nat) {x y : List Char}
    (h : closesKind k stack.length (x ++ y) = true) :
    (waitingFrom k stack n x).length + x.count k.closing =
      stack.length + x.count k.opening := by
  induction x generalizing stack n with
  | nil => rfl
  | cons c x ih =>
    rw [waitingFrom]
    rw [List.cons_append] at h
    by_cases hopen : c = k.opening
    · subst hopen
      rw [closesKind.opening] at h
      have hrest := ih (n :: stack) (n + 1) h
      simp only [List.length_cons] at hrest
      rw [if_pos rfl, List.count_cons_self, List.count_cons_of_ne k.opening_ne_closing]
      omega
    · rw [if_neg hopen]
      by_cases hclose : c = k.closing
      · subst hclose
        cases stack with
        | nil => simp at h
        | cons m stack =>
          rw [List.length_cons, closesKind.closing_succ] at h
          have hrest := ih stack (n + 1) h
          rw [if_pos rfl, List.tail_cons, List.count_cons_self,
            List.count_cons_of_ne k.opening_ne_closing.symm, List.length_cons]
          omega
      · rw [closesKind.other _ _ _ hopen hclose] at h
        rw [if_neg hclose, List.count_cons_of_ne hopen, List.count_cons_of_ne hclose]
        exact ih stack (n + 1) h

/-- In a balanced text the brackets that wait at a place can be counted. -/
theorem count_opening_eq {x y : List Char} (h : isBalanced (x ++ y) = true) (k : Bracket) :
    (waiting k x).length + x.count k.closing = x.count k.opening := by
  have hkind : closesKind k 0 (x ++ y) = true :=
    closesKind_iff_dyck.mpr (isBalanced_iff.mp h k)
  have hlength := length_waitingFrom [] 0 hkind
  rw [waiting]
  simpa using hlength

/-- In a balanced text a place is in curly brackets when one of them waits for its partner. -/
theorem isInBraces_iff {b y : List Char} (h : isBalanced (b.reverse ++ y) = true) :
    isInBraces b = true ↔ waiting .curly b.reverse ≠ [] := by
  have hcount := count_opening_eq h .curly
  rw [List.count_reverse, List.count_reverse] at hcount
  rw [← List.length_pos_iff, isInBraces, decide_eq_true_eq]
  simp only [Bracket.opening, Bracket.closing] at hcount
  omega

end

end AskMetrics.Query
