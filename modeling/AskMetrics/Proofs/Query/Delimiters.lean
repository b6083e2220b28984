import AskMetrics.Proofs.Query.Check
import AskMetrics.Proofs.Query.Literal

/-!
# Balanced delimiters as a language

The check on delimiters keeps three counters and stops at the first one that would go below zero.
What it decides is a matter of three languages: the brackets of each kind, taken by themselves,
are a word of matched brackets.
-/
namespace AskMetrics.Query

open AskMetrics.Text

/-- The kinds of brackets. -/
inductive Bracket where
  | round
  | square
  | curly
  deriving DecidableEq, Repr

namespace Bracket

/-- The bracket that opens. -/
def opening : Bracket → Char
  | round => '('
  | square => '['
  | curly => '\x7b'

/-- The bracket that closes. -/
def closing : Bracket → Char
  | round => ')'
  | square => ']'
  | curly => '\x7d'

/-- The brackets of one kind in a text. -/
def project (k : Bracket) (s : List Char) : List Char :=
  s.filter fun c => c == k.opening || c == k.closing

end Bracket

/-- Words of matched brackets: the empty word, and a word in brackets followed by a word. -/
inductive Dyck (k : Bracket) : List Char → Prop
  | nil : Dyck k []
  | nest {s t : List Char} (inner : Dyck k s) (after : Dyck k t) :
    Dyck k (k.opening :: (s ++ k.closing :: t))

/-! ## One counter -/

/-- Whether one kind of brackets, `n` of which are open, is closed by a text. -/
def closesKind (k : Bracket) : Nat → List Char → Bool
  | n, [] => n == 0
  | n, c :: cs =>
    if c = k.opening then closesKind k (n + 1) cs
    else if c = k.closing then
      match n with
      | 0 => false
      | n + 1 => closesKind k n cs
    else closesKind k n cs

theorem Bracket.opening_ne_closing (k : Bracket) : k.opening ≠ k.closing := by
  cases k <;> decide

namespace closesKind
variable (k : Bracket) (n : Nat) (s : List Char)

@[simp] theorem nil : closesKind k n [] = (n == 0) := by simp [closesKind]

@[simp] theorem opening : closesKind k n (k.opening :: s) = closesKind k (n + 1) s := by
  simp [closesKind]

@[simp] theorem closing_zero : closesKind k 0 (k.closing :: s) = false := by
  simp [closesKind, k.opening_ne_closing.symm]

@[simp] theorem closing_succ : closesKind k (n + 1) (k.closing :: s) = closesKind k n s := by
  simp [closesKind, k.opening_ne_closing.symm]

theorem other {c : Char} (ho : c ≠ k.opening) (hc : c ≠ k.closing) :
    closesKind k n (c :: s) = closesKind k n s := by
  simp [closesKind, ho, hc]

/-- Other characters do not matter. -/
theorem project : closesKind k n (k.project s) = closesKind k n s := by
  induction s generalizing n with
  | nil => rfl
  | cons c s ih =>
    by_cases ho : c = k.opening
    · subst ho
      have hcons : k.project (k.opening :: s) = k.opening :: k.project s := by
        simp [Bracket.project]
      rw [hcons, opening, opening, ih]
    · by_cases hc : c = k.closing
      · subst hc
        have hcons : k.project (k.closing :: s) = k.closing :: k.project s := by
          simp [Bracket.project]
        rw [hcons]
        cases n with
        | zero => simp
        | succ n => simp [ih]
      · have hcons : k.project (c :: s) = k.project s := by
          simp [Bracket.project, ho, hc]
        rw [hcons, ih, other k n s ho hc]

end closesKind

/-- A word of matched brackets leaves the counter as it is. -/
theorem Dyck.closesKind_append {k : Bracket} {w : List Char} (h : Dyck k w) (n : Nat)
    (t : List Char) : closesKind k n (w ++ t) = closesKind k n t := by
  induction h generalizing n t with
  | nil => rfl
  | nest _ _ ihInner ihAfter => simp [ihInner, ihAfter]

/-- A text that closes `n` brackets: a word, a closing bracket, and so on `n` times, and a word. -/
inductive Closing (k : Bracket) : Nat → List Char → Prop
  | word {w : List Char} (h : Dyck k w) : Closing k 0 w
  | close {n : Nat} {w t : List Char} (h : Dyck k w) (rest : Closing k n t) :
    Closing k (n + 1) (w ++ k.closing :: t)

/-- The first bracket that is closed belongs to a word of its own. -/
theorem Closing.opening {k : Bracket} {n : Nat} {s : List Char} (h : Closing k (n + 1) s) :
    Closing k n (k.opening :: s) := by
  rcases h with _ | @⟨_, w, t, hw, hrest⟩
  cases hrest with
  | word ht => exact .word (.nest hw ht)
  | @close n v u hv hrest =>
    have h := Closing.close (.nest hw hv) hrest
    simpa using h

/-- A counter that comes out right has read matched brackets. -/
theorem closing_of_closesKind {k : Bracket} {n : Nat} {s : List Char}
    (hs : ∀ c ∈ s, c = k.opening ∨ c = k.closing) (h : closesKind k n s = true) :
    Closing k n s := by
  induction s generalizing n with
  | nil =>
    obtain rfl : n = 0 := by simpa using h
    exact .word .nil
  | cons c s ih =>
    have hrest : ∀ c ∈ s, c = k.opening ∨ c = k.closing := fun c hc => hs c (.tail _ hc)
    rcases hs c (.head _) with rfl | rfl
    · exact (ih hrest (by simpa using h)).opening
    · cases n with
      | zero => simp at h
      | succ n => exact .close .nil (ih hrest (by simpa using h))

theorem closesKind_iff_dyck {k : Bracket} {s : List Char} :
    closesKind k 0 s = true ↔ Dyck k (k.project s) := by
  rw [← closesKind.project]
  constructor
  · intro h
    have hs : ∀ c ∈ k.project s, c = k.opening ∨ c = k.closing := by
      simp [Bracket.project]
    cases closing_of_closesKind hs h with
    | word hw => exact hw
  · intro h
    have hword := h.closesKind_append 0 []
    rwa [List.append_nil, closesKind.nil] at hword

/-! ## Three counters -/

namespace Depths

/-- The open brackets of one kind. -/
def count (d : Depths) : Bracket → Nat
  | .round => d.round
  | .square => d.square
  | .curly => d.curly

/-- The same numbers but for one kind. -/
def set (d : Depths) (n : Nat) : Bracket → Depths
  | .round => { d with round := n }
  | .square => { d with square := n }
  | .curly => { d with curly := n }

theorem count_set (d : Depths) (n : Nat) (k k' : Bracket) :
    (d.set n k).count k' = if k' = k then n else d.count k' := by
  cases k <;> cases k' <;> rfl

theorem next?_opening (d : Depths) (k : Bracket) :
    d.next? k.opening = some (d.set (d.count k + 1) k) := by
  cases k <;> rfl

theorem next?_closing (d : Depths) (k : Bracket) :
    d.next? k.closing = if d.count k = 0 then none else some (d.set (d.count k - 1) k) := by
  cases k <;> rfl

theorem next?_other (d : Depths) {c : Char} (ho : ∀ k : Bracket, c ≠ k.opening)
    (hc : ∀ k : Bracket, c ≠ k.closing) : d.next? c = some d := by
  unfold next?
  split
  · exact absurd rfl (ho .round)
  · exact absurd rfl (hc .round)
  · exact absurd rfl (ho .square)
  · exact absurd rfl (hc .square)
  · exact absurd rfl (ho .curly)
  · exact absurd rfl (hc .curly)
  · rfl

end Depths

/-- An opening bracket of any kind, as one counter sees it. -/
theorem closesKind.opening_of (k k' : Bracket) (n : Nat) (s : List Char) :
    closesKind k n (k'.opening :: s) = closesKind k (if k = k' then n + 1 else n) s := by
  cases k <;> cases k' <;> simp [closesKind, Bracket.opening, Bracket.closing]

/-- A closing bracket of any kind, as one counter sees it. -/
theorem closesKind.closing_of (k k' : Bracket) (n : Nat) (s : List Char) (hn : k = k' → n ≠ 0) :
    closesKind k n (k'.closing :: s) = closesKind k (if k = k' then n - 1 else n) s := by
  cases n <;> cases k <;> cases k' <;> simp_all [closesKind, Bracket.opening, Bracket.closing]

/-- The counters do not meet: each kind is closed by itself. -/
theorem closes_iff {d : Depths} {s : List Char} :
    closes d s = true ↔ ∀ k, closesKind k (d.count k) s = true := by
  induction s generalizing d with
  | nil =>
    obtain ⟨nr, ns, nc⟩ := d
    constructor
    · intro h k
      cases k <;> simp_all [closes, Depths.count, Depths.zero]
    · intro h
      have hr := h .round
      have hs := h .square
      have hc := h .curly
      simp_all [closes, Depths.count, Depths.zero]
  | cons c s ih =>
    rw [closes]
    by_cases hopen : ∃ k' : Bracket, c = k'.opening
    · obtain ⟨k', rfl⟩ := hopen
      simp only [Depths.next?_opening, ih, Depths.count_set, closesKind.opening_of]
      exact forall_congr' fun k => by by_cases hk : k = k' <;> simp [hk]
    · by_cases hclose : ∃ k' : Bracket, c = k'.closing
      · obtain ⟨k', rfl⟩ := hclose
        rw [Depths.next?_closing]
        by_cases hzero : d.count k' = 0
        · simp only [hzero, if_true, Bool.false_eq_true, false_iff, not_forall]
          exact ⟨k', by simp [hzero]⟩
        · simp only [hzero, if_false, ih, Depths.count_set]
          refine forall_congr' fun k => ?_
          rw [closesKind.closing_of k k' _ s fun hk => hk ▸ hzero]
          by_cases hk : k = k' <;> simp [hk]
      · have ho : ∀ k : Bracket, c ≠ k.opening := fun k hk => hopen ⟨k, hk⟩
        have hc : ∀ k : Bracket, c ≠ k.closing := fun k hk => hclose ⟨k, hk⟩
        simp only [Depths.next?_other d ho hc, ih, closesKind.other _ _ s (ho _) (hc _)]

theorem isBalanced_iff {s : List Char} :
    isBalanced s = true ↔ ∀ k : Bracket, Dyck k (k.project s) := by
  have hzero (k : Bracket) : Depths.zero.count k = 0 := by cases k <;> rfl
  simp only [isBalanced, closes_iff, hzero, closesKind_iff_dyck]

/-! ## Literals and brackets -/

/-- A text in which every literal is closed, and the brackets outside of literals are matched within
their kinds. -/
def WellDelimited (s : List Char) : Prop :=
  ∃ bare, Skeleton s bare ∧ ∀ k : Bracket, Dyck k (k.project bare)

/-- What masking and counting see of a text decides whether it is well delimited. -/
theorem wellDelimited_iff {s : List Char} :
    WellDelimited s ↔ leavesOpen s = false ∧ ∀ k : Bracket, Dyck k (k.project (mask s)) := by
  have hproject {bare : List Char} (h : Skeleton s bare) (k : Bracket) :
      k.project (mask s) = k.project bare :=
    h.filter_mask (by cases k <;> decide)
  rw [leavesOpen_eq_false_iff]
  constructor
  · rintro ⟨bare, hbare, hdyck⟩
    exact ⟨⟨bare, hbare⟩, fun k => hproject hbare k ▸ hdyck k⟩
  · rintro ⟨⟨bare, hbare⟩, hdyck⟩
    exact ⟨bare, hbare, fun k => hproject hbare k ▸ hdyck k⟩

theorem Passes.wellDelimited {s : List Char} (h : Passes s) : WellDelimited s :=
  wellDelimited_iff.mpr ⟨h.closed, isBalanced_iff.mp h.balanced⟩

/-- A model that declines uses no delimiters. -/
theorem Declines.wellDelimited {s : List Char} (h : Declines s) : WellDelimited s := by
  have hplain : ∀ c ∈ s, isQuote c = false ∧ ∀ k : Bracket, c ≠ k.opening ∧ c ≠ k.closing := by
    intro c hc
    have hmem : c.toLower ∈ lowerAscii noAnswer.toList := by
      rw [← show lowerAscii s = lowerAscii noAnswer.toList from h]
      exact List.mem_map_of_mem hc
    constructor
    · rw [← Bool.not_eq_true]
      intro hquote
      simp only [isQuote, Bool.or_eq_true, beq_iff_eq] at hquote
      rcases hquote with (rfl | rfl) | rfl <;> exact absurd hmem (by decide)
    · intro k
      constructor <;> rintro rfl <;> cases k <;> exact absurd hmem (by decide)
  refine ⟨s, skeleton_self fun c hc => (hplain c hc).1, fun k => ?_⟩
  have hnil : k.project s = [] := by
    rw [Bracket.project, List.filter_eq_nil_iff]
    intro c hc
    simp [(hplain c hc).2 k]
  rw [hnil]
  exact .nil

/-- **Accepted queries are well delimited**, and a text whose normal form is not is turned away,
by screening too. The check on delimiters by itself decides matched brackets. -/
theorem accepts_wellDelimited (raw : String) :
    (∀ q, validate raw = .ok q → WellDelimited q.text.toList) ∧
      (∀ q, screen raw = .ok (.query q) → WellDelimited q.text.toList) ∧
      (¬ WellDelimited (normalize raw.toList) →
        (∃ v, validate raw = .error v) ∧ ∃ v, screen raw = .error v) ∧
      (∀ s, WellDelimited s ↔
        leavesOpen s = false ∧ ∀ k : Bracket, Dyck k (k.project (mask s))) ∧
      ∀ s, isBalanced s = true ↔ ∀ k : Bracket, Dyck k (k.project s) := by
  refine ⟨?_, ?_, ?_, fun s => wellDelimited_iff, fun s => isBalanced_iff⟩
  · intro q hq
    obtain ⟨hpass, rfl⟩ := validate_eq_ok_iff.mp hq
    rw [CheckedQuery.toList_text_ofText]
    exact hpass.wellDelimited
  · intro q hq
    obtain ⟨-, hpass, rfl⟩ := screen_eq_query_iff.mp hq
    rw [CheckedQuery.toList_text_ofText]
    exact hpass.wellDelimited
  · intro hnot
    have hfails : ¬ Passes (normalize raw.toList) := fun h => hnot h.wellDelimited
    obtain ⟨v, hv⟩ := checkNormal_of_not_passes hfails
    have hanswer : ¬ lowerAscii (normalize raw.toList) = lowerAscii noAnswer.toList := fun h =>
      hnot (Declines.wellDelimited h)
    exact ⟨⟨v, hv⟩, v, by simp [screen, hanswer, hv, Except.map]⟩

end AskMetrics.Query
