import AskMetrics.Proofs.Text.Exchange
import AskMetrics.Proofs.Text.Rewrite

/-!
# A text and its parts

Replacing all matches goes through a text from left to right and goes on behind each match. What it
does can be said without patterns: the text is divided into parts of a kind and single characters
between them, where no part starts at such a character. When the kind leaves no choice how far a
part goes, each text can be divided in one way only, and a pattern that fits the parts of the kind
replaces just those.

In a text with other parts exchanged the division is the same, as long as each part of the kind
takes what is exchanged inside it along, and none starts in the midst of what is exchanged.

## Main definitions

* `Division` : a text with some parts of it marked.
* `Division.put` : the same division with another text in place of each part.
* `Division.Reassembles` : a part appears when the parts of a division are left out.
* `Divided` : the parts are those of a kind that are met from left to right.
* `Depicts` : a pattern fits exactly the parts of a kind.
* `Stable` : a kind of parts and an exchange of others that do not get in each other's way.
-/
namespace AskMetrics.Text

/-- A text with some parts of it marked. -/
inductive Division where
  | nil
  /-- A character outside the parts. -/
  | keep (u : Char) (later : Division)
  /-- A part. -/
  | part (w : List Char) (later : Division)

namespace Division

/-- The text that is divided. -/
def text : Division → List Char
  | nil => []
  | keep u d => u :: d.text
  | part w d => w ++ d.text

/-- The parts in order. -/
def parts : Division → List (List Char)
  | nil => []
  | keep _ d => d.parts
  | part w d => w :: d.parts

/-- The text before the first part. -/
def front : Division → List Char
  | nil => []
  | keep u d => u :: d.front
  | part _ _ => []

/-- The texts behind each of the parts. -/
def between : Division → List (List Char)
  | nil => []
  | keep _ d => d.between
  | part _ d => d.front :: d.between

/-- What stands before, between and behind the parts, in order. -/
def pieces (d : Division) : List (List Char) := d.front :: d.between

/-- The same division with `y` in place of each part. -/
def put (y : List Char) : Division → Division
  | nil => nil
  | keep u d => keep u (d.put y)
  | part _ d => part y (d.put y)

/-- Two texts that are next to each other when the parts of a division are left out make a part of
the kind together. -/
def Reassembles (P : List Char → Prop) (d : Division) : Prop :=
  ∃ before after, d.pieces = before ++ after ∧ ∃ x y, x ≠ [] ∧ y ≠ [] ∧ P (x ++ y) ∧
    x <:+ before.flatten ∧ y <+: after.flatten

/-- A stretch without parts, and then a division. -/
def keepAll : List Char → Division → Division
  | [], d => d
  | u :: x, d => keep u (keepAll x d)

/-- A division, and another one behind it. -/
def append : Division → Division → Division
  | nil, e => e
  | keep u d, e => keep u (d.append e)
  | part w d, e => part w (d.append e)

section
variable {x y z : List Char} {d e : Division}

@[simp] theorem front_put : (d.put y).front = d.front := by
  induction d <;> simp_all [put, front]

@[simp] theorem between_put : (d.put y).between = d.between := by
  induction d <;> simp_all [put, between]

@[simp] theorem pieces_put : (d.put y).pieces = d.pieces := by
  simp [pieces]

@[simp] theorem parts_put : (d.put y).parts = List.replicate d.parts.length y := by
  induction d <;> simp_all [put, parts, List.replicate_succ]

@[simp] theorem put_put : (d.put y).put z = d.put z := by
  induction d <;> simp_all [put]

@[simp] theorem text_keepAll : (keepAll x d).text = x ++ d.text := by
  induction x <;> simp_all [keepAll, text]

@[simp] theorem put_keepAll : (keepAll x d).put y = keepAll x (d.put y) := by
  induction x <;> simp_all [keepAll, put]

@[simp] theorem text_append : (d.append e).text = d.text ++ e.text := by
  induction d <;> simp_all [append, text]

@[simp] theorem put_append : (d.append e).put y = (d.put y).append (e.put y) := by
  induction d <;> simp_all [append, put]

/-- Leaving out the parts leaves the pieces. -/
theorem text_put_nil (d : Division) : (d.put []).text = d.pieces.flatten := by
  induction d <;> simp_all [put, text, pieces, front, between]

theorem text_put_nil_sublist (d : Division) : (d.put []).text.Sublist d.text := by
  induction d with
  | nil => exact .refl _
  | keep u d ih => exact ih.cons_cons u
  | part w d ih => exact ih.trans (List.sublist_append_right w d.text)

/-- What is left and the parts that are left out make up the text. -/
theorem countP_text (p : Char → Bool) (d : Division) :
    d.text.countP p = (d.put []).text.countP p + d.parts.flatten.countP p := by
  induction d with
  | nil => rfl
  | keep u d ih =>
    simp only [text, put, parts, List.countP_cons, ih]
    omega
  | part w d ih =>
    simp only [text, put, parts, List.countP_append, List.flatten_cons, List.nil_append, ih]
    omega

theorem pieces_eq_singleton (h : d.parts = []) : d.pieces = [d.text] := by
  induction d with
  | nil => rfl
  | keep u d ih =>
    obtain ⟨hfront, hbetween⟩ := List.cons.inj (ih h)
    simp [pieces, front, between, text, hfront, hbetween]
  | part w d _ => simp [parts] at h

/-- Putting a text in place of parts that are that text changes nothing. -/
theorem put_eq_self (h : ∀ w ∈ d.parts, w = y) : d.put y = d := by
  induction d with
  | nil => rfl
  | keep u d ih => rw [put, ih h]
  | part w d ih =>
    obtain ⟨rfl, hlater⟩ := List.forall_mem_cons.mp h
    rw [put, ih hlater]

/-- What holds of a text and of what is put into it holds of all characters afterwards. -/
theorem forall_mem_text_put {P : Char → Prop} (hy : ∀ u ∈ y, P u) (hd : ∀ u ∈ d.text, P u) :
    ∀ u ∈ (d.put y).text, P u := by
  induction d with
  | nil => exact hd
  | keep u d ih =>
    exact List.forall_mem_cons.mpr ⟨hd u (.head _), ih fun v hv => hd v (.tail _ hv)⟩
  | part w d ih =>
    exact List.forall_mem_append.mpr ⟨hy, ih fun v hv => hd v (List.mem_append_right _ hv)⟩

/-- A division starts with what stands before its first part. -/
theorem front_prefix_text (d : Division) : d.front <+: d.text := by
  induction d with
  | nil | part w d _ => simp [front]
  | keep u d ih => simpa [front, text] using ih

/-- A text without `v` is at the start of a division, whose parts all start with `v`, when it is at
the start of what stands before the first part. -/
theorem prefix_text_iff {v : Char} (hx : v ∉ x) (hparts : ∀ w ∈ d.parts, w.head? = some v) :
    x <+: d.text ↔ x <+: d.front := by
  induction d generalizing x with
  | nil => rfl
  | keep u d ih =>
    cases x with
    | nil => simp
    | cons u' x =>
      have hrest := ih (x := x) (fun hv => hx (.tail _ hv)) hparts
      simp [text, front, List.cons_prefix_cons, hrest]
  | part w d ih =>
    obtain ⟨w', rfl⟩ := List.head?_eq_some_iff.mp (hparts w (.head _))
    cases x with
    | nil => simp
    | cons u x =>
      have hne : u ≠ v := fun huv => hx (huv ▸ .head _)
      simp [text, front, List.cons_prefix_cons, hne]

/-- The pieces of a division are contiguous in its text. -/
theorem infix_text_of_mem_pieces (h : x ∈ d.pieces) : x <:+: d.text := by
  induction d generalizing x with
  | nil =>
    obtain rfl : x = [] := by simpa [pieces, front, between] using h
    exact List.nil_infix
  | keep u d ih =>
    rcases List.mem_cons.mp h with rfl | h
    · exact (List.cons_prefix_cons.mpr ⟨rfl, d.front_prefix_text⟩).isInfix
    · exact List.infix_cons (ih (.tail _ h))
  | part w d ih =>
    rcases List.mem_cons.mp h with rfl | h
    · exact List.nil_infix
    · exact (ih h).trans List.infix_append_right

theorem infix_text_of_mem_parts (d : Division) (h : x ∈ d.parts) : x <:+: d.text := by
  induction d with
  | nil => simp [parts] at h
  | keep u d ih => exact List.infix_cons (ih h)
  | part w d ih =>
    rcases List.mem_cons.mp h with rfl | h
    · exact (List.prefix_append x d.text).isInfix
    · exact (ih h).trans List.infix_append_right

/-- A text without `v` does not reach across a `v` that is put in place of a part. -/
theorem exists_piece_of_infix {v : Char} (hx : v ∉ x) (h : x <:+: (d.put [v]).text) :
    ∃ y ∈ d.pieces, x <:+: y := by
  induction d with
  | nil => exact ⟨[], .head _, h⟩
  | keep u d ih =>
    rcases List.infix_cons_iff.mp h with hpre | hin
    · have hparts : ∀ w ∈ ((keep u d).put [v]).parts, w.head? = some v := by
        intro w hw
        rw [parts_put] at hw
        rw [List.eq_of_mem_replicate hw, List.head?_cons]
      have hfront := (prefix_text_iff hx hparts).mp hpre
      rw [front_put] at hfront
      exact ⟨_, .head _, hfront.isInfix⟩
    · obtain ⟨y, hy, hin⟩ := ih hin
      rcases List.mem_cons.mp hy with rfl | hy
      · exact ⟨_, .head _, List.infix_cons hin⟩
      · exact ⟨y, .tail _ hy, hin⟩
  | part w d ih =>
    rcases List.infix_cons_iff.mp h with hpre | hin
    · cases x with
      | nil => exact ⟨[], .head _, List.nil_infix⟩
      | cons u x =>
        obtain ⟨rfl, -⟩ := List.cons_prefix_cons.mp hpre
        exact absurd (.head _) hx
    · obtain ⟨y, hy, hin⟩ := ih hin
      exact ⟨y, .tail _ hy, hin⟩

end

end Division

/-! ## Dividing a text -/

/-- No part of a kind starts at the place with `b` before it, read backwards, and `a` after it. A
kind tells which texts are parts, given what stands before them. -/
def Vacant (K : List Char → List Char → Prop) (b a : List Char) : Prop :=
  ∀ w, K b w → ¬ w <+: a

/-- `d` divides the text `s`, which has `b` before it, at the parts of a kind that are met from left
to right. -/
inductive Divided (K : List Char → List Char → Prop) : List Char → List Char → Division → Prop
  | nil (b : List Char) : Divided K b [] .nil
  | keep {b a : List Char} {u : Char} {d : Division} (hno : Vacant K b (u :: a))
    (rest : Divided K (u :: b) a d) : Divided K b (u :: a) (.keep u d)
  | part {b w a : List Char} {d : Division} (hw : K b w)
    (rest : Divided K (w.reverse ++ b) a d) : Divided K b (w ++ a) (.part w d)

/-- A kind of which at most one part starts at a place, and none is empty. -/
structure Definite (K : List Char → List Char → Prop) : Prop where
  ne_nil : ∀ {b w}, K b w → w ≠ []
  eq : ∀ {b w w' a a'}, K b w → K b w' → w ++ a = w' ++ a' → w = w'

/-- A pattern that fits exactly the parts of a kind. -/
def Depicts (p : Pattern) (K : List Char → List Char → Prop) : Prop :=
  ∀ c d, d ∈ p.ends c ↔ ∃ w, K c.behind w ∧ c.Reads w d

/-! ## Repetitions -/

section
variable {P : List Char → Prop} {p : Pattern} {c d : Cursor}

/-- Some steps that each read a text read these texts one after another. -/
theorem stepsTo_iff_flatten (hp : ∀ c d, d ∈ p.ends c ↔ ∃ w, P w ∧ c.Reads w d) {n : Nat} :
    StepsTo p.ends n c d ↔ ∃ ws : List (List Char), ws.length = n ∧ (∀ w ∈ ws, P w) ∧
      c.Reads ws.flatten d := by
  constructor
  · intro h
    induction h with
    | zero c => exact ⟨[], rfl, by simp, .refl c⟩
    | succ hstep _ ih =>
      obtain ⟨w, hw, hread⟩ := (hp _ _).mp hstep
      obtain ⟨ws, hlength, hws, hrest⟩ := ih
      exact ⟨w :: ws, by simp [hlength], List.forall_mem_cons.mpr ⟨hw, hws⟩, hread.trans hrest⟩
  · rintro ⟨ws, rfl, hws, hreads⟩
    induction ws generalizing c with
    | nil =>
      obtain rfl := Cursor.reads_nil_iff.mp hreads
      exact .zero _
    | cons w ws ih =>
      obtain ⟨e, hread, hrest⟩ := Cursor.reads_append_iff.mp hreads
      exact .succ ((hp _ _).mpr ⟨w, hws w (.head _), hread⟩)
        (ih (fun w hw => hws w (.tail _ hw)) hrest)

/-- A repetition reads some texts one after another. -/
theorem Pattern.mem_ends_many_iff (hp : ∀ c d, d ∈ p.ends c ↔ ∃ w, P w ∧ c.Reads w d)
    (hne : ∀ w, P w → w ≠ []) :
    d ∈ (Pattern.many p).ends c ↔
      ∃ ws : List (List Char), (∀ w ∈ ws, P w) ∧ c.Reads ws.flatten d := by
  rw [Pattern.ends, mem_repeated_iff]
  simp only [List.not_mem_nil, false_or, stepsTo_iff_flatten hp]
  constructor
  · rintro ⟨n, -, ws, -, hws, hreads⟩
    exact ⟨ws, hws, hreads⟩
  · rintro ⟨ws, hws, hreads⟩
    -- each text has a character, so there is fuel for all of them
    have hcount : ws.length ≤ ws.flatten.length := by
      clear hreads
      induction ws with
      | nil => simp
      | cons w ws ih =>
        have hrest := ih fun w hw => hws w (.tail _ hw)
        have hpos := List.length_pos_iff.mpr (hne w (hws w (.head _)))
        simp only [List.length_cons, List.flatten_cons, List.length_append]
        omega
    have hlength := hreads.length
    exact ⟨ws.length, by omega, ws, rfl, hws, hreads⟩

end

/-! ## Parts from left to right -/

/-- What is inside of some texts one after another is inside of one of them or lies across an edge
between two. -/
theorem infix_flatten {w : List Char} {ps : List (List Char)} (hne : w ≠ []) (h : w <:+: ps.flatten) :
    (∃ p ∈ ps, w <:+: p) ∨ ∃ before after, ps = before ++ after ∧ ∃ x y, x ≠ [] ∧ y ≠ [] ∧
      w = x ++ y ∧ x <:+ before.flatten ∧ y <+: after.flatten := by
  induction ps with
  | nil => exact absurd (List.infix_nil.mp h) hne
  | cons p ps ih =>
    rw [List.flatten_cons] at h
    rcases List.infix_append_iff_ne_nil.mp h with hin | hin | ⟨x, y, hx, hy, hxy, hsuffix, hprefix⟩
    · exact .inl ⟨p, .head _, hin⟩
    · rcases ih hin with ⟨p', hp', hin⟩ | ⟨before, after, rfl, x, y, hx, hy, hxy, hsuffix, hprefix⟩
      · exact .inl ⟨p', .tail _ hp', hin⟩
      · refine .inr ⟨p :: before, after, rfl, x, y, hx, hy, hxy, ?_, hprefix⟩
        exact hsuffix.trans (List.suffix_append p before.flatten)
    · exact .inr ⟨[p], ps, rfl, x, y, hx, hy, hxy, by simpa using hsuffix, hprefix⟩

section
variable {K : List Char → List Char → Prop} {p : Pattern} {b b' s x y a : List Char}
  {d d' : Division}

theorem Depicts.ends_eq_nil_iff (hp : Depicts p K) : p.ends ⟨b, a⟩ = [] ↔ Vacant K b a := by
  rw [List.eq_nil_iff_forall_not_mem]
  constructor
  · rintro h w hw ⟨r, rfl⟩
    exact h _ ((hp _ _).mpr ⟨w, hw, Cursor.reads_mk b w r⟩)
  · intro h d hd
    obtain ⟨w, hw, hread⟩ := (hp _ _).mp hd
    exact h w hw ⟨d.ahead, hread.ahead.symm⟩

/-- Where a part stands, it is what is matched. -/
theorem Depicts.first_eq (hp : Depicts p K) (hK : Definite K) {w : List Char} (hw : K b w) :
    p.first ⟨b, w ++ a⟩ = some ⟨w.reverse ++ b, a⟩ := by
  have hread := Cursor.reads_mk b w a
  have hmem := (hp _ _).mpr ⟨w, hw, hread⟩
  cases hfirst : p.first ⟨b, w ++ a⟩ with
  | none => exact absurd hmem (by simp [Pattern.first_eq_none_iff.mp hfirst])
  | some e =>
    obtain ⟨w', hw', hread'⟩ := (hp _ _).mp (Pattern.mem_ends_of_first hfirst)
    obtain rfl := hK.eq hw hw' hread'.ahead
    rw [hread.unique hread']

/-- A text can be divided. -/
theorem exists_divided (hK : Definite K) : ∀ b s : List Char, ∃ d, Divided K b s d
  | b, [] => ⟨.nil, .nil b⟩
  | b, u :: a => by
    by_cases h : Vacant K b (u :: a)
    · obtain ⟨d, hd⟩ := exists_divided hK (u :: b) a
      exact ⟨_, .keep h hd⟩
    · obtain ⟨w, hw, r, hr⟩ : ∃ w, K b w ∧ w <+: u :: a := by simpa [Vacant] using h
      have hshort : r.length < a.length + 1 := by
        have hpos := List.length_pos_iff.mpr (hK.ne_nil hw)
        have hlength := congrArg List.length hr
        simp only [List.length_append, List.length_cons] at hlength
        omega
      obtain ⟨d, hd⟩ := exists_divided hK (w.reverse ++ b) r
      rw [← hr]
      exact ⟨_, .part hw hd⟩
  termination_by _ s => s.length

namespace Divided

@[simp] theorem text_eq (h : Divided K b s d) : d.text = s := by
  induction h with
  | nil => rfl
  | keep _ _ ih => rw [Division.text, ih]
  | part _ _ ih => rw [Division.text, ih]

/-- There is no other way to divide a text. -/
theorem unique (hK : Definite K) (h : Divided K b s d) (h' : Divided K b s d') : d = d' := by
  induction h generalizing d' with
  | nil =>
    generalize hs : [] = s at h'
    cases h' with
    | nil => rfl
    | keep => simp at hs
    | part hw => exact absurd (List.append_eq_nil_iff.mp hs.symm).1 (hK.ne_nil hw)
  | @keep b a u d hno _ ih =>
    generalize hs : u :: a = s at h'
    cases h' with
    | nil => simp at hs
    | keep _ rest =>
      obtain ⟨rfl, rfl⟩ := List.cons.inj hs
      rw [ih rest]
    | part hw => exact absurd ⟨_, hs.symm⟩ (hno _ hw)
  | @part b w a d hw _ ih =>
    generalize hs : w ++ a = s at h'
    cases h' with
    | nil => exact absurd (List.append_eq_nil_iff.mp hs).1 (hK.ne_nil hw)
    | keep hno => exact absurd ⟨_, hs⟩ (hno _ hw)
    | part hw' rest =>
      obtain rfl := hK.eq hw hw' hs
      obtain rfl := List.append_cancel_left hs
      rw [ih rest]

/-- In the pieces no part is left. -/
theorem not_infix_of_mem_pieces {P : List Char → Prop} (hne : ∀ {w}, P w → w ≠ [])
    (h : Divided (fun _ => P) b s d) : ∀ x ∈ d.pieces, ∀ w, P w → ¬ w <:+: x := by
  have hnil : ∀ w, P w → ¬ w <:+: [] := fun w hw hin => hne hw (List.infix_nil.mp hin)
  induction h with
  | nil => simpa [Division.pieces, Division.front, Division.between] using hnil
  | @keep b a u d hno rest ih =>
    intro x hx w hw hin
    rcases List.mem_cons.mp hx with rfl | hx
    · rcases List.infix_cons_iff.mp hin with hpre | hin
      · have hfront : u :: d.front <+: u :: a := by
          simpa [rest.text_eq] using d.front_prefix_text
        exact hno w hw (hpre.trans hfront)
      · exact ih _ (.head _) w hw hin
    · exact ih x (.tail _ hx) w hw hin
  | part _ _ ih =>
    intro x hx
    rcases List.mem_cons.mp hx with rfl | hx
    · exact hnil
    · exact ih x hx

/-- A part that is there after all parts are left out is put together from the text on both sides of
what is left out. -/
theorem exists_infix_put_nil_iff {P : List Char → Prop} (hne : ∀ {w}, P w → w ≠ [])
    (h : Divided (fun _ => P) b s d) :
    (∃ w, P w ∧ w <:+: (d.put []).text) ↔ d.Reassembles P := by
  rw [d.text_put_nil]
  constructor
  · rintro ⟨w, hw, hin⟩
    rcases infix_flatten (hne hw) hin with ⟨x, hx, hin⟩ | ⟨before, after, hsplit, x, y, hx, hy, hxy, hends⟩
    · exact absurd hin (h.not_infix_of_mem_pieces hne x hx w hw)
    · exact ⟨before, after, hsplit, x, y, hx, hy, hxy ▸ hw, hends⟩
  · rintro ⟨before, after, hsplit, x, y, -, -, hw, ⟨z, hz⟩, z', hz'⟩
    refine ⟨x ++ y, hw, z, z', ?_⟩
    rw [hsplit, List.flatten_append, ← hz, ← hz']
    simp only [List.append_assoc]

/-- Each part is one of the kind. -/
theorem of_mem_parts (h : Divided K b s d) : ∀ w ∈ d.parts, ∃ b', K b' w := by
  induction h with
  | nil => simp [Division.parts]
  | keep _ _ ih => exact ih
  | part hw _ ih => exact List.forall_mem_cons.mpr ⟨⟨_, hw⟩, ih⟩

/-- Where no part has a certain character, the text before it is divided by itself, and so is the
text behind it. -/
theorem append_cons (hK : Definite K) {e : Division} {u : Char} (hu : ∀ {b w}, K b w → u ∉ w)
    (hx : Divided K b x d) (hy : Divided K (u :: (x.reverse ++ b)) y e) :
    Divided K b (x ++ u :: y) (d.append (.keep u e)) := by
  have hshort : ∀ {w z : List Char}, u ∉ w → w <+: z ++ u :: y → w <+: z := by
    intro w z hw hpre
    rcases List.prefix_or_prefix_of_prefix hpre (List.prefix_append z _) with h | ⟨r, rfl⟩
    · exact h
    · cases r with
      | nil => simp
      | cons v r =>
        obtain ⟨rfl, -⟩ := List.cons_prefix_cons.mp ((List.prefix_append_right_inj z).mp hpre)
        exact absurd (by simp) hw
  induction hx with
  | nil b =>
    refine .keep (fun w hw hpre => hK.ne_nil hw ?_) hy
    exact List.prefix_nil.mp (hshort (z := []) (hu hw) hpre)
  | keep hno _ ih =>
    exact .keep (fun w hw hpre => hno w hw (hshort (hu hw) hpre)) (ih (by simpa using hy))
  | @part b w a d hw _ ih =>
    rw [List.append_assoc]
    exact .part hw (ih (by simpa using hy))

theorem rewrites (hp : Depicts p K) (hK : Definite K) (h : Divided K b s d) (y : List Char) :
    Rewrites [p] (fun _ => y) ⟨b, s⟩ (d.put y).text := by
  induction h with
  | nil b => exact .done b
  | keep hno _ ih => exact .skip (matchAt_singleton_eq_none (hp.ends_eq_nil_iff.mpr hno)) ih
  | @part b w a d hw _ ih =>
    have hmatch : matchAt [p] ⟨b, w ++ a⟩ = some ⟨⟨b, w ++ a⟩, [w], ⟨w.reverse ++ b, a⟩⟩ := by
      rw [matchAt_singleton, hp.first_eq hK hw, Option.map_some,
        (Cursor.reads_mk b w a).upTo]
    have hpos := List.length_pos_iff.mpr (hK.ne_nil hw)
    refine .hit hmatch ?_ ih
    simp only [List.length_append]
    omega

/-- What replacing all matches makes of a text. -/
theorem replaceAll_eq (hp : Depicts p K) (hK : Definite K) (h : Divided K [] s d)
    (y : List Char) : replaceAll [p] (fun _ => y) s = (d.put y).text :=
  (h.rewrites hp hK y).replaceAll_eq

end Divided

/-- A stretch in which no part starts is kept. -/
theorem divided_keepAll_iff (hno : Along (Vacant K) b x a) (hK : Definite K) :
    Divided K b (x ++ a) d ↔ ∃ d', Divided K (x.reverse ++ b) a d' ∧ d = .keepAll x d' := by
  have hkeep : ∀ d', Divided K (x.reverse ++ b) a d' → Divided K b (x ++ a) (.keepAll x d') := by
    intro d' hd'
    induction x generalizing b with
    | nil => exact hd'
    | cons u x ih => exact .keep hno.1 (ih hno.2 (by simpa using hd'))
  constructor
  · intro h
    obtain ⟨d', hd'⟩ := exists_divided hK (x.reverse ++ b) a
    exact ⟨d', hd', h.unique hK (hkeep d' hd')⟩
  · rintro ⟨d', hd', rfl⟩
    exact hkeep d' hd'

end

/-! ## Texts with other parts exchanged -/

/-- A kind of parts and an exchange of other parts that do not get in each other's way. -/
structure Stable (K B : List Char → List Char → Prop) : Prop where
  /-- A part stays a part of its kind when something in it or around it is exchanged. -/
  carried : ∀ {b b' w a s'}, Exchanged (Mirrored B) b b' → K b w → Exchanged B (w ++ a) s' →
    ∃ w' a', s' = w' ++ a' ∧ K b' w' ∧ Exchanged B w w' ∧ Exchanged B a a'
  /-- No part starts in what is exchanged. -/
  outside : ∀ {b x y a}, B x y → Along (Vacant K) b x a

/-- A text with other parts exchanged is divided in the same way, and so it is after the parts of
the division are replaced. The induction is on the length of the text, since an exchanged part is
passed as a whole, and so is a part of the division. -/
theorem Divided.exchanged {K B : List Char → List Char → Prop} (hB : Steady B)
    (hsymm : ∀ x y, B x y → B y x) (hK : Definite K) (hstable : Stable K B)
    {b b' s s' y : List Char} {d : Division} (h : Divided K b s d)
    (hb : Exchanged (Mirrored B) b b') (hs : Exchanged B s s') :
    ∃ d', Divided K b' s' d' ∧ Exchanged B (d.put y).text (d'.put y).text := by
  induction hn : s.length using Nat.strong_induction_on generalizing b b' s s' d with
  | _ n ih =>
    subst hn
    cases h with
    | nil =>
      obtain rfl := (hs.eq_nil_iff hB).mp rfl
      exact ⟨.nil, .nil b', .nil⟩
    | @keep _ a u d hno rest =>
      have hkept := Divided.keep hno rest
      generalize hw : u :: a = w at hs hkept
      cases hs with
      | nil => simp at hw
      | @keep v _ t hrest =>
        obtain ⟨rfl, rfl⟩ := List.cons.inj hw
        obtain ⟨d', hd', hput⟩ := ih a.length (Nat.lt_succ_self _) rest (.keep u hb) hrest rfl
        refine ⟨.keep u d', .keep (fun w' hw' hpre => ?_) hd', .keep u hput⟩
        -- a part that starts here in the new text would be one in the old text
        obtain ⟨r, hr⟩ := hpre
        have hback : Exchanged B (w' ++ r) (u :: a) := hr ▸ (Exchanged.keep u hrest).symm hsymm
        obtain ⟨w, a', hsplit, hw, -, -⟩ :=
          hstable.carried (hb.symm fun _ _ => hsymm _ _) hw' hback
        exact hno w hw ⟨a', hsplit.symm⟩
      | @swap x z s₀ t₀ hxz hrest =>
        obtain ⟨d₀, hd₀, hd⟩ := (divided_keepAll_iff (hstable.outside hxz) hK).mp hkept
        have hshort : s₀.length < (u :: a).length := by
          have hpos := List.length_pos_iff.mpr (hB.ne_nil hxz)
          rw [hw, List.length_append]
          omega
        have hbehind : Exchanged (Mirrored B) (x.reverse ++ b) (z.reverse ++ b') :=
          (Exchanged.single hxz).reverse.append hb
        obtain ⟨d', hd', hput⟩ := ih s₀.length hshort hd₀ hbehind hrest rfl
        refine ⟨.keepAll z d', (divided_keepAll_iff (hstable.outside (hsymm _ _ hxz)) hK).mpr
          ⟨d', hd', rfl⟩, ?_⟩
        rw [hd, Division.put_keepAll, Division.put_keepAll, Division.text_keepAll,
          Division.text_keepAll]
        exact .swap hxz hput
    | @part _ w a d hw rest =>
      obtain ⟨w', a', rfl, hw', hexchanged, ha⟩ := hstable.carried hb hw hs
      have hshort : a.length < (w ++ a).length := by
        have hpos := List.length_pos_iff.mpr (hK.ne_nil hw)
        rw [List.length_append]
        omega
      obtain ⟨d', hd', hput⟩ := ih a.length hshort rest (hexchanged.reverse.append hb) ha rfl
      exact ⟨.part w' d', .part hw' hd', (Exchanged.refl y).append hput⟩

end AskMetrics.Text
