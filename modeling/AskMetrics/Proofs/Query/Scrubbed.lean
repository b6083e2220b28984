import AskMetrics.Proofs.Query.Literal
import AskMetrics.Proofs.Text.Division
import AskMetrics.Proofs.Text.Word
import AskMetrics.Query.Metrics

/-!
# What scrubbing takes out

Literals, label matchers and label lists are taken out of a query in three passes, each of which
sees what the one before has left. Here the three kinds of parts are described by their characters:
a quote without a partner, a stray bracket or a keyword without a list is no part and stays. Each
kind says where its parts end, so what a pass leaves of a text is determined by the kind alone.
-/
namespace AskMetrics.Query

open AskMetrics.Text

/-! ## The three kinds -/

/-- What can stand between two quotes: a backslash takes the next character with it, which is no
line feed. -/
inductive LineBody (q : Char) : List Char → Prop
  | nil : LineBody q []
  | char {c : Char} {body : List Char} (hq : c ≠ q) (hb : c ≠ '\\') (rest : LineBody q body) :
    LineBody q (c :: body)
  | escape {c : Char} {body : List Char} (hc : c ≠ '\n') (rest : LineBody q body) :
    LineBody q ('\\' :: c :: body)

/-- A closed string literal. Between backticks a backslash is a character like others. -/
inductive IsLiteral : List Char → Prop
  | quoted {q : Char} {x : List Char} (hq : q = '"' ∨ q = '\'') (hx : LineBody q x) :
    IsLiteral (q :: (x ++ [q]))
  | backticked {x : List Char} (hx : '\x60' ∉ x) : IsLiteral ('\x60' :: (x ++ ['\x60']))

/-- A curly bracket and everything up to the next closing one. -/
inductive IsMatchers : List Char → Prop
  | mk {x : List Char} (hx : '\x7d' ∉ x) : IsMatchers ('\x7b' :: (x ++ ['\x7d']))

/-- The keywords that take a list of labels. -/
def listKeywords : List String :=
  ["by", "without", "on", "ignoring", "group_left", "group_right"]

/-- A keyword that begins a word and takes labels, and everything up to the next closing bracket. -/
inductive IsLabelList : List Char → List Char → Prop
  | mk {b y x : List Char} {k : String} (hb : Opens b) (hk : k ∈ listKeywords)
    (hy : ∀ u ∈ y, isBlank u = true) (hx : ')' ∉ x) :
    IsLabelList b (k.toList ++ (y ++ '(' :: (x ++ [')'])))

theorem isNameChar_of_mem_listKeywords :
    ∀ k ∈ listKeywords, ∀ u ∈ k.toList, isNameChar u = true := by
  have hall : ∀ k ∈ listKeywords, k.toList.all isNameChar = true := by decide
  exact fun k hk => List.all_eq_true.mp (hall k hk)

theorem exists_letter_of_mem_listKeywords {k : String} (hk : k ∈ listKeywords) :
    ∃ u z, k.toList = u :: z ∧ u.isAlpha = true := by
  have hhead : ∀ k ∈ listKeywords, k.toList.head?.any Char.isAlpha = true := by decide
  obtain ⟨u, hu, halpha⟩ := (Option.any_eq_true ..).mp (hhead k hk)
  obtain ⟨z, hz⟩ := List.head?_eq_some_iff.mp hu
  exact ⟨u, z, hz, halpha⟩

section
variable {c d : Cursor} {q : Char} {b w x x' a a' : List Char}

/-- What masking takes for a body, on one line. -/
theorem LineBody.of_body (h : Body q x) (hline : '\n' ∉ x) : LineBody q x := by
  induction h with
  | nil => exact .nil
  | char hq hb _ ih => exact .char hq hb (ih fun hmem => hline (.tail _ hmem))
  | escape c _ ih =>
    have hc : c ≠ '\n' := by
      rintro rfl
      simp at hline
    exact .escape hc (ih fun hmem => hline (.tail _ (.tail _ hmem)))

/-- What masking takes for a literal is one, if it is on one line and has no backtick inside when it
is between backticks. -/
theorem isLiteral_of_body (hq : isQuote q = true) (h : Body q x) (hline : '\n' ∉ x)
    (hplain : q = '\x60' → '\x60' ∉ x) : IsLiteral (q :: (x ++ [q])) := by
  have hcases : q = '"' ∨ q = '\'' ∨ q = '\x60' := by simpa [isQuote, or_assoc] using hq
  rcases hcases with rfl | rfl | rfl
  · exact .quoted (.inl rfl) (.of_body h hline)
  · exact .quoted (.inr rfl) (.of_body h hline)
  · exact .backticked (hplain rfl)

/-! ### Where the parts end -/

/-- A body and a quote after it are determined by the text that they begin. -/
theorem LineBody.eq_of_append_eq (hq : q ≠ '\\') (h : LineBody q x) (h' : LineBody q x')
    (heq : x ++ q :: a = x' ++ q :: a') : x = x' := by
  induction h generalizing x' with
  | nil =>
    cases h' with
    | nil => rfl
    | char hne => exact absurd (List.cons.inj heq).1.symm hne
    | escape => exact absurd (List.cons.inj heq).1 hq
  | char hne hb _ ih =>
    cases h' with
    | nil => exact absurd (List.cons.inj heq).1 hne
    | char _ _ rest' =>
      obtain ⟨rfl, hrest⟩ := List.cons.inj heq
      rw [ih rest' hrest]
    | escape => exact absurd (List.cons.inj heq).1 hb
  | escape _ _ ih =>
    cases h' with
    | nil => exact absurd (List.cons.inj heq).1.symm hq
    | char _ hb => exact absurd (List.cons.inj heq).1.symm hb
    | escape _ rest' =>
      obtain ⟨-, heq⟩ := List.cons.inj heq
      obtain ⟨rfl, hrest⟩ := List.cons.inj heq
      rw [ih rest' hrest]

theorem definite_isLiteral : Definite fun _ => IsLiteral where
  ne_nil h := by
    cases h <;> simp
  eq h h' heq := by
    have hbackslash : ∀ {q : Char}, q = '"' ∨ q = '\'' → q ≠ '\\' := by
      rintro q (rfl | rfl) <;> decide
    cases h with
    | quoted hq hx =>
      cases h' with
      | quoted _ hx' =>
        obtain ⟨rfl, heq⟩ := List.cons.inj heq
        simp only [List.append_eq, List.append_assoc, List.singleton_append] at heq
        rw [hx.eq_of_append_eq (hbackslash hq) hx' heq]
      | backticked =>
        obtain ⟨rfl, -⟩ := List.cons.inj heq
        exact absurd hq (by decide)
    | backticked hx =>
      cases h' with
      | quoted hq =>
        obtain ⟨rfl, -⟩ := List.cons.inj heq
        exact absurd hq (by decide)
      | backticked hx' =>
        obtain ⟨-, heq⟩ := List.cons.inj heq
        simp only [List.append_eq, List.append_assoc, List.singleton_append] at heq
        rw [eq_of_append_cons_eq hx hx' heq]

theorem definite_isMatchers : Definite fun _ => IsMatchers where
  ne_nil h := by
    cases h
    simp
  eq h h' heq := by
    obtain ⟨hx⟩ := h
    obtain ⟨hx'⟩ := h'
    obtain ⟨-, heq⟩ := List.cons.inj heq
    simp only [List.append_eq, List.append_assoc, List.singleton_append] at heq
    rw [eq_of_append_cons_eq hx hx' heq]

theorem definite_isLabelList : Definite IsLabelList where
  ne_nil h := by
    cases h
    simp
  eq h h' heq := by
    obtain ⟨-, hk, hy, hx⟩ := h
    obtain ⟨-, hk', hy', hx'⟩ := h'
    have hopen : isBlank '(' = false := by decide
    simp only [List.append_assoc, List.cons_append] at heq
    obtain ⟨hkeyword, hbehind⟩ := eq_of_append_eq_append (isNameChar_of_mem_listKeywords _ hk)
      (isNameChar_of_mem_listKeywords _ hk') (not_nameChar_blanks_append hy (by decide))
      (not_nameChar_blanks_append hy' (by decide)) heq
    obtain ⟨hblanks, hlabels⟩ := eq_of_append_eq_append hy hy' (by simpa using hopen)
      (by simpa using hopen) hbehind
    have hclosed := (List.cons.inj hlabels).2
    rw [hkeyword, hblanks, eq_of_append_cons_eq hx hx' hclosed]

/-! ## The patterns of the three kinds -/

/-- One character of a body, or two when the first is a backslash. -/
def bodyUnit (q : Char) : Pattern :=
  .orElse (.one fun c => c != q && c != '\\') (.andThen (.char '\\') (.one (· != '\n')))

/-- One character of a body, or a backslash with the next one. -/
def IsBodyUnit (q : Char) (w : List Char) : Prop :=
  (∃ c, c ≠ q ∧ c ≠ '\\' ∧ w = [c]) ∨ ∃ c, c ≠ '\n' ∧ w = ['\\', c]

theorem mem_ends_bodyUnit : d ∈ (bodyUnit q).ends c ↔ ∃ w, IsBodyUnit q w ∧ c.Reads w d := by
  simp only [bodyUnit, Pattern.mem_ends_orElse, Pattern.mem_ends_andThen, Pattern.mem_ends_one,
    Pattern.mem_ends_char, IsBodyUnit, or_and_right, exists_or]
  refine or_congr ?_ ?_
  · simp [and_assoc]
  · constructor
    · rintro ⟨e, hslash, u, hu, hread⟩
      exact ⟨_, ⟨u, by simpa using hu, rfl⟩, hslash.trans hread⟩
    · rintro ⟨_, ⟨u, hu, rfl⟩, hreads⟩
      obtain ⟨e, hslash, hread⟩ := Cursor.reads_cons_iff.mp hreads
      exact ⟨e, hslash, u, by simpa using hu, hread⟩

theorem IsBodyUnit.ne_nil (h : IsBodyUnit q w) : w ≠ [] := by
  obtain ⟨c, -, -, rfl⟩ | ⟨c, -, rfl⟩ := h <;> simp

theorem lineBody_iff_flatten :
    LineBody q x ↔ ∃ ws : List (List Char), (∀ w ∈ ws, IsBodyUnit q w) ∧ x = ws.flatten := by
  constructor
  · intro h
    induction h with
    | nil => exact ⟨[], by simp, rfl⟩
    | char hq hb _ ih =>
      obtain ⟨ws, hws, rfl⟩ := ih
      exact ⟨_ :: ws, List.forall_mem_cons.mpr ⟨.inl ⟨_, hq, hb, rfl⟩, hws⟩, rfl⟩
    | escape hc _ ih =>
      obtain ⟨ws, hws, rfl⟩ := ih
      exact ⟨_ :: ws, List.forall_mem_cons.mpr ⟨.inr ⟨_, hc, rfl⟩, hws⟩, rfl⟩
  · rintro ⟨ws, hws, rfl⟩
    induction ws with
    | nil => exact .nil
    | cons w ws ih =>
      have hrest := ih fun w hw => hws w (.tail _ hw)
      rcases hws w (.head _) with ⟨c, hq, hb, rfl⟩ | ⟨c, hc, rfl⟩
      · exact .char hq hb hrest
      · exact .escape hc hrest

theorem mem_ends_body :
    d ∈ (Pattern.many (bodyUnit q)).ends c ↔ ∃ x, LineBody q x ∧ c.Reads x d := by
  rw [Pattern.mem_ends_many_iff (fun _ _ => mem_ends_bodyUnit) fun _ => IsBodyUnit.ne_nil]
  simp only [lineBody_iff_flatten]
  constructor
  · rintro ⟨ws, hws, hread⟩
    exact ⟨_, ⟨ws, hws, rfl⟩, hread⟩
  · rintro ⟨_, ⟨ws, hws, rfl⟩, hread⟩
    exact ⟨ws, hws, hread⟩

/-- Two characters with something of a class between them. -/
theorem mem_ends_enclosed {p : Pattern} {P : List Char → Prop} {u v : Char}
    (hp : ∀ c d, d ∈ p.ends c ↔ ∃ x, P x ∧ c.Reads x d) :
    d ∈ (Pattern.sequence [.char u, p, .char v]).ends c ↔
      ∃ x, P x ∧ c.Reads (u :: (x ++ [v])) d := by
  simp only [Pattern.sequence_cons_cons, Pattern.sequence_singleton, Pattern.mem_ends_andThen,
    Pattern.mem_ends_char, hp]
  constructor
  · rintro ⟨c₁, hopen, c₂, ⟨x, hx, hread⟩, hclose⟩
    exact ⟨x, hx, hopen.trans (hread.trans hclose)⟩
  · rintro ⟨x, hx, hreads⟩
    obtain ⟨c₁, hopen, hrest⟩ := Cursor.reads_cons_iff.mp hreads
    obtain ⟨c₂, hread, hclose⟩ := Cursor.reads_append_iff.mp hrest
    exact ⟨c₁, hopen, c₂, ⟨x, hx, hread⟩, hclose⟩

theorem mem_ends_many_bne :
    d ∈ (Pattern.many (.one (· != q))).ends c ↔ ∃ x, q ∉ x ∧ c.Reads x d := by
  simp only [Pattern.mem_ends_many_one, forall_bne_iff]

theorem depicts_literalPattern : Depicts literalPattern fun _ => IsLiteral := by
  intro c d
  have hquoted : ∀ q, d ∈ (quotedLiteral q).ends c ↔
      ∃ x, LineBody q x ∧ c.Reads (q :: (x ++ [q])) d := fun q =>
    mem_ends_enclosed fun _ _ => mem_ends_body
  simp only [literalPattern, Pattern.oneOf, Pattern.mem_ends_orElse, hquoted,
    mem_ends_enclosed fun _ _ => mem_ends_many_bne]
  constructor
  · rintro (⟨x, hx, hread⟩ | ⟨x, hx, hread⟩ | ⟨x, hx, hread⟩)
    · exact ⟨_, .quoted (.inl rfl) hx, hread⟩
    · exact ⟨_, .quoted (.inr rfl) hx, hread⟩
    · exact ⟨_, .backticked hx, hread⟩
  · rintro ⟨_, hw, hread⟩
    cases hw with
    | quoted hq hx =>
      rcases hq with rfl | rfl
      · exact .inl ⟨_, hx, hread⟩
      · exact .inr (.inl ⟨_, hx, hread⟩)
    | backticked hx => exact .inr (.inr ⟨_, hx, hread⟩)

theorem depicts_matchersPattern : Depicts matchersPattern fun _ => IsMatchers := by
  intro c d
  rw [matchersPattern, mem_ends_enclosed fun _ _ => mem_ends_many_bne]
  constructor
  · rintro ⟨x, hx, hread⟩
    exact ⟨_, .mk hx, hread⟩
  · rintro ⟨_, ⟨hx⟩, hread⟩
    exact ⟨_, hx, hread⟩

theorem depicts_labelListPattern : Depicts labelListPattern IsLabelList := by
  have hstart : ∀ {k : String}, k ∈ listKeywords →
      ∃ u z, k.toList = u :: z ∧ isNameChar u = true := by
    intro k hk
    obtain ⟨u, z, hz, -⟩ := exists_letter_of_mem_listKeywords hk
    exact ⟨u, z, hz, isNameChar_of_mem_listKeywords k hk u (by simp [hz])⟩
  intro c d
  simp only [labelListPattern, Pattern.sequence_cons_cons, Pattern.sequence_singleton,
    Pattern.mem_ends_andThen, Pattern.mem_ends_edge, Pattern.mem_ends_oneOf_literal,
    Pattern.mem_ends_blanks, Pattern.mem_ends_char, mem_ends_many_bne]
  constructor
  · rintro ⟨c₀, ⟨hedge, rfl⟩, c₁, ⟨k, hk, hword⟩, c₂, ⟨y, hy, hblanks⟩, c₃, hopen, c₄,
      ⟨x, hx, hread⟩, hclose⟩
    obtain ⟨u, z, hkeyword, hu⟩ := hstart hk
    have hopens : Opens c₀.behind :=
      opens_of_atEdge hedge (u := u) (by simp [hword.ahead, hkeyword]) hu
    exact ⟨_, .mk hopens hk hy hx, hword.trans (hblanks.trans (hopen.trans (hread.trans hclose)))⟩
  · rintro ⟨_, ⟨hb, hk, hy, hx⟩, hreads⟩
    obtain ⟨u, z, hkeyword, hu⟩ := hstart hk
    have hedge : c.atEdge = true := by
      obtain ⟨b, a⟩ := c
      have hahead := hreads.ahead
      simp only [hkeyword, List.cons_append] at hahead
      rw [hahead]
      exact atEdge_of_opens hb hu
    obtain ⟨c₁, hword, hreads⟩ := Cursor.reads_append_iff.mp hreads
    obtain ⟨c₂, hblanks, hreads⟩ := Cursor.reads_append_iff.mp hreads
    obtain ⟨c₃, hopen, hreads⟩ := Cursor.reads_cons_iff.mp hreads
    obtain ⟨c₄, hread, hclose⟩ := Cursor.reads_append_iff.mp hreads
    exact ⟨c, ⟨hedge, rfl⟩, c₁, ⟨_, hk, hword⟩, c₂, ⟨_, hy, hblanks⟩, c₃, hopen, c₄, ⟨_, hx, hread⟩,
      hclose⟩

end

/-! ## Where no part starts -/

section
variable {u : Char} {b a x : List Char}

theorem ends_literalPattern (hu : isQuote u = false) : literalPattern.ends ⟨b, u :: a⟩ = [] := by
  refine depicts_literalPattern.ends_eq_nil_iff.mpr fun w hw hpre => ?_
  cases hw with
  | quoted hq =>
    obtain rfl := (List.cons_prefix_cons.mp hpre).1
    rcases hq with rfl | rfl <;> exact absurd hu (by decide)
  | backticked =>
    obtain rfl := (List.cons_prefix_cons.mp hpre).1
    exact absurd hu (by decide)

theorem ends_matchersPattern (hu : u ≠ '\x7b') : matchersPattern.ends ⟨b, u :: a⟩ = [] := by
  refine depicts_matchersPattern.ends_eq_nil_iff.mpr fun w hw hpre => ?_
  obtain ⟨-⟩ := hw
  exact hu (List.cons_prefix_cons.mp hpre).1.symm

theorem ends_labelListPattern (hu : u.isAlpha = false) :
    labelListPattern.ends ⟨b, u :: a⟩ = [] := by
  refine depicts_labelListPattern.ends_eq_nil_iff.mpr fun w hw hpre => ?_
  obtain ⟨-, hk, -, -⟩ := hw
  obtain ⟨v, z, hz, halpha⟩ := exists_letter_of_mem_listKeywords hk
  rw [hz] at hpre
  obtain rfl := (List.cons_prefix_cons.mp hpre).1
  simp [hu] at halpha

/-- No list of labels starts in a word that is no keyword. -/
theorem along_no_labelList (hx : ∀ u ∈ x, isNameChar u = true)
    (ha : ∀ u ∈ a.head?, isNameChar u = false) (hfree : ∀ k ∈ listKeywords, x ≠ k.toList) :
    Along (fun b a => labelListPattern.ends ⟨b, a⟩ = []) b x a := by
  refine along_word hx ?_ fun b a u v hu hv => ends_edge_andThen_inside hu hv
  refine depicts_labelListPattern.ends_eq_nil_iff.mpr fun w hw hpre => ?_
  obtain ⟨-, hk, hy, -⟩ := hw
  obtain ⟨r, hr⟩ := hpre
  simp only [List.append_assoc, List.cons_append] at hr
  exact hfree _ hk (eq_of_append_eq_append hx (isNameChar_of_mem_listKeywords _ hk) ha
    (not_nameChar_blanks_append hy (by decide)) hr.symm).1

end

/-! ## What is left -/

/-- `t` is `s` with a space in place of each part of a kind, the parts taken from left to right. -/
def Without (K : List Char → List Char → Prop) (s t : List Char) : Prop :=
  ∃ d, Divided K [] s d ∧ t = (d.put [' ']).text

/-- `t` is `s` without its literals, then without the label matchers of what is left, then without
the label lists of what is left of that. -/
def Scrubbed (s t : List Char) : Prop :=
  ∃ u v, Without (fun _ => IsLiteral) s u ∧ Without (fun _ => IsMatchers) u v ∧
    Without IsLabelList v t

section
variable {K : List Char → List Char → Prop} {p : Pattern} {s t w : List Char}

theorem without_iff (hp : Depicts p K) (hK : Definite K) : Without K s t ↔ t = blankOut p s := by
  obtain ⟨d, hd⟩ := exists_divided hK [] s
  rw [blankOut, hd.replaceAll_eq hp hK]
  constructor
  · rintro ⟨e, he, rfl⟩
    rw [he.unique hK hd]
  · rintro rfl
    exact ⟨d, hd, rfl⟩

/-- Scrubbing leaves what the three passes leave, and they leave nothing else. -/
theorem scrubbed_iff : Scrubbed s t ↔ t = scrub s := by
  simp only [Scrubbed, without_iff depicts_literalPattern definite_isLiteral,
    without_iff depicts_matchersPattern definite_isMatchers,
    without_iff depicts_labelListPattern definite_isLabelList]
  constructor
  · rintro ⟨_, _, rfl, rfl, rfl⟩
    rfl
  · rintro rfl
    exact ⟨_, _, rfl, rfl, rfl⟩

/-- A quote without a partner is left, and with it a bracket that has lost its partner. -/
example : Scrubbed "x_1\"\x7b\" 5m_2 y_1\x7d by(\" z_3".toList
    "x_1  5m_2 y_1\x7d by(\" z_3".toList :=
  scrubbed_iff.mpr (by decide +kernel)

/-- What is left and has no space was there before. -/
theorem Without.infix_of_infix (h : Without K s t) (hw : ' ' ∉ w) (hin : w <:+: t) :
    w <:+: s := by
  obtain ⟨d, hd, rfl⟩ := h
  obtain ⟨x, hx, hin⟩ := Division.exists_piece_of_infix hw hin
  rw [← hd.text_eq]
  exact hin.trans (Division.infix_text_of_mem_pieces hx)

theorem Scrubbed.infix_of_infix (h : Scrubbed s t) (hw : ' ' ∉ w) (hin : w <:+: t) :
    w <:+: s := by
  obtain ⟨u, v, hliteral, hmatchers, hlabels⟩ := h
  exact hliteral.infix_of_infix hw (hmatchers.infix_of_infix hw (hlabels.infix_of_infix hw hin))

end

end AskMetrics.Query
