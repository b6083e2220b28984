import AskMetrics.Proofs.Query.Check
import AskMetrics.Proofs.Query.Literal

/-!
# Label values and the verdict

Label values are free text, and what a query is turned away for must not depend on them. Most checks
look at the masked text alone. Two look at the text itself: the length, which masking keeps, and
whether a literal stays open, which the mask shows as well. The third is the look for a name, and
there the contents of a literal count when no name is outside of it.
-/
namespace AskMetrics.Query

open AskMetrics.Text

/-- The rule that a text is turned away for, if it is turned away. -/
def verdict (raw : String) : Option Rule :=
  match validate raw with
  | .ok _ => none
  | .error violation => some violation.rule

/-! ## What a mask tells -/

namespace Quoting
variable {p : Quoting}

/-- Reading what is shown of a character goes on as reading the character does. -/
theorem Proper.next_shown (h : p.Proper) (u : Char) :
    p.settled.next (p.shown u) = (p.next u).settled := by
  have hspace : ∀ quote, isQuote quote = true → (inside quote).next ' ' = inside quote := by
    intro quote hquote
    have hne : ' ' ≠ quote := by
      rintro rfl
      exact absurd hquote (by decide)
    simp [Quoting.next, hne]
  cases p with
  | outside => by_cases hu : isQuote u = true <;> simp [settled, shown, Quoting.next, hu]
  | inside quote =>
    by_cases hslash : u = '\\'
    · simpa [settled, shown, Quoting.next, hslash] using hspace quote h
    · by_cases hclose : u = quote
      · subst hclose
        simp [settled, shown, Quoting.next, hslash]
      · simpa [settled, shown, Quoting.next, hslash, hclose] using hspace quote h
  | escaped quote => exact hspace quote h

/-- Reading the mask of a text goes on as reading the text does. -/
theorem Proper.after_maskFrom (h : p.Proper) (s : List Char) :
    p.settled.after (maskFrom p s) = (p.after s).settled := by
  induction s generalizing p with
  | nil => rfl
  | cons u s ih => rw [maskFrom, after_cons, after_cons, h.next_shown u, ih (h.next u)]

theorem settled_eq_outside_iff : p.settled = outside ↔ p = outside := by
  cases p <;> simp [settled]

end Quoting

section
variable {s t : List Char}

/-- A literal stays open in a text exactly if it does in the mask. -/
theorem leavesOpen_mask (s : List Char) : leavesOpen (mask s) = leavesOpen s := by
  have hafter : Quoting.outside.after (mask s) = (Quoting.outside.after s).settled :=
    Quoting.Proper.after_maskFrom (p := .outside) trivial s
  rw [leavesOpen, leavesOpen, hafter, Bool.eq_iff_iff, bne_iff_ne, bne_iff_ne, ne_eq, ne_eq,
    Quoting.settled_eq_outside_iff]

theorem length_maskFrom (p : Quoting) (s : List Char) : (maskFrom p s).length = s.length := by
  induction s generalizing p with
  | nil => rfl
  | cons u s ih => rw [maskFrom, List.length_cons, List.length_cons, ih]

theorem shown_eq_or (p : Quoting) (u : Char) : p.shown u = u ∨ p.shown u = ' ' := by
  cases p with
  | outside => exact .inl rfl
  | inside quote =>
    rw [Quoting.shown]
    split_ifs <;> simp
  | escaped quote => exact .inr rfl

/-- Masking puts in nothing but spaces. -/
theorem mem_of_mem_maskFrom {p : Quoting} {u : Char} (h : u ∈ maskFrom p s) (hu : u ≠ ' ') :
    u ∈ s := by
  induction s generalizing p with
  | nil => exact h
  | cons v s ih =>
    rcases List.mem_cons.mp h with rfl | h
    · rw [(shown_eq_or p v).resolve_right hu]
      exact .head _
    · exact .tail _ (ih h)

theorem hasIdentifier_of_mask (h : hasIdentifier (mask s) = true) : hasIdentifier s = true := by
  rw [hasIdentifier, List.any_eq_true] at h ⊢
  obtain ⟨u, hu, hname⟩ := h
  refine ⟨u, mem_of_mem_maskFrom hu ?_, hname⟩
  rintro rfl
  exact absurd hname (by decide)

/-! ## One mask, one verdict -/

/-- Two texts with one mask break the same rule, unless a name is in only one of them. -/
theorem brokenRule?_eq_of_mask_eq (hmask : mask s = mask t)
    (hident : hasIdentifier s = hasIdentifier t) : brokenRule? s = brokenRule? t := by
  have hlength : s.length = t.length := by
    rw [← length_maskFrom .outside s, ← length_maskFrom .outside t]
    exact congrArg List.length hmask
  have hopen : leavesOpen s = leavesOpen t := by
    rw [← leavesOpen_mask s, ← leavesOpen_mask t, hmask]
  simp only [brokenRule?, hmask, hlength, hopen, hident]

theorem verdict_eq_brokenRule? (raw : String) :
    verdict raw = brokenRule? (normalize raw.toList) := by
  rw [verdict, validate, checkNormal]
  cases brokenRule? (normalize raw.toList) <;> rfl

/-- **Label values do not sway the verdict**: two texts whose normal forms have the same mask, with
a name or a round bracket in it, are both accepted, or both turned away for the same rule. That a
literal stays open in both of them or in neither need not be asked for. -/
theorem verdict_eq_of_mask_eq {raw raw' : String}
    (hmask : mask (normalize raw.toList) = mask (normalize raw'.toList))
    (hident : hasIdentifier (mask (normalize raw.toList)) = true) :
    verdict raw = verdict raw' := by
  have hname : hasIdentifier (normalize raw.toList) = true := hasIdentifier_of_mask hident
  have hname' : hasIdentifier (normalize raw'.toList) = true := by
    rw [hmask] at hident
    exact hasIdentifier_of_mask hident
  rw [verdict_eq_brokenRule?, verdict_eq_brokenRule?]
  exact brokenRule?_eq_of_mask_eq hmask (hname.trans hname'.symm)

/-- Two queries that differ in a label value, which has a bracket, a keyword and an escaped quote in
the second. -/
theorem verdict_eq_of_mask_eq_jobs :
    verdict "sum(up\x7bjob=\"node exporter\"\x7d)" = none ∧
      verdict "PromQL: sum(up\x7bjob=\"a by [\\\"é(\\\"[\"\x7d)." = none := by
  have hone : verdict "sum(up\x7bjob=\"node exporter\"\x7d)" = none := by decide +kernel
  have heq : verdict "sum(up\x7bjob=\"node exporter\"\x7d)" =
      verdict "PromQL: sum(up\x7bjob=\"a by [\\\"é(\\\"[\"\x7d)." :=
    verdict_eq_of_mask_eq (by decide +kernel) (by decide +kernel)
  exact ⟨hone, heq.symm.trans hone⟩

/-- Without a name outside of it, a literal counts for the name that is looked for. -/
example : mask "1 + '2' + 1".toList = mask "1 + 'b' + 1".toList ∧
    verdict "1 + '2' + 1" = some .missingIdentifier ∧ verdict "1 + 'b' + 1" = none := by
  decide +kernel

end

end AskMetrics.Query
