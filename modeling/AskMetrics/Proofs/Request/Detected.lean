import AskMetrics.Proofs.Number.Rounded
import AskMetrics.Proofs.Text.Case
import AskMetrics.Request.Window

/-!
# Windows found in a request

A request that has digits in one place only, with a unit behind them, names the window that the
digits and the unit say. Several phrases can fit there, since the unit may stand behind "for" or
"last" as well as on its own, and a point or a longer spelling could be read in more than one way.
But digits are found nowhere else, no phrase starts its number among them, and the word behind them
is read as a whole. So all phrases that fit agree.
-/
namespace AskMetrics.Request

open AskMetrics.Text

/-! ## Units -/

/-- The spellings of the units, with the minutes of each. -/
def unitFactors : List (String × Nat) :=
  ["minute", "minutes", "min", "mins", "m"].map (·, 1) ++
    (["hour", "hours", "hr", "hrs", "h"].map (·, 60) ++ ["day", "days", "d"].map (·, 1440))

/-- The lower-case letters of ASCII. -/
def IsLower (u : Char) : Prop := 97 ≤ u.toNat ∧ u.toNat ≤ 122

instance (u : Char) : Decidable (IsLower u) := inferInstanceAs (Decidable (_ ∧ _))

section
variable {c d : Cursor} {p : Phrase} {u letter : Char} {w x : List Char} {v : String} {f g : Nat}

theorem unitFactors_spec :
    ∀ s ∈ unitFactors,
      s.1.toList ≠ [] ∧ (∀ u ∈ s.1.toList, IsLower u) ∧ 0 < s.2 ∧ s.2 < 2 ^ 53 := by
  have hall : ∀ s ∈ unitFactors, s.1.toList ≠ [] ∧
      (s.1.toList.all fun u => IsLower u) = true ∧ 0 < s.2 ∧ s.2 < 2 ^ 53 := by decide
  intro s hs
  obtain ⟨hne, hlower, hfactor⟩ := hall s hs
  exact ⟨hne, fun u hu => by simpa using List.all_eq_true.mp hlower u hu, hfactor⟩

theorem factor_unique (hf : (v, f) ∈ unitFactors) (hg : (v, g) ∈ unitFactors) : f = g := by
  have hkeys : ∀ s ∈ unitFactors, ∀ t ∈ unitFactors, s.1 = t.1 → s.2 = t.2 := by decide
  exact hkeys _ hf _ hg rfl

/-- The unit of a phrase is one of some spellings of that many minutes. -/
theorem exists_spellings (hp : p ∈ phrases) :
    ∃ ws, p.unit = anyOf ws ∧ ∀ w ∈ ws, (w, p.factor) ∈ unitFactors := by
  simp only [phrases, List.mem_cons, List.not_mem_nil, or_false] at hp
  rcases hp with rfl | rfl | rfl | rfl | rfl <;> exact ⟨_, rfl, by decide⟩

/-- Each spelling is read behind a number that stands on its own. -/
theorem exists_phrase (h : (v, f) ∈ unitFactors) :
    ∃ p ∈ phrases, p.lead = freeStanding ∧ p.factor = f ∧ ∃ ws, p.unit = anyOf ws ∧ v ∈ ws := by
  have hminutes : ⟨freeStanding, minutes, 1⟩ ∈ phrases := by simp [phrases]
  have hhours : ⟨freeStanding, anyOf ["hours", "hour", "hrs", "hr", "h"], 60⟩ ∈ phrases := by
    simp [phrases]
  have hdays : ⟨freeStanding, anyOf ["days", "day", "d"], 1440⟩ ∈ phrases := by simp [phrases]
  simp only [unitFactors, List.mem_append, List.mem_map, Prod.mk.injEq] at h
  rcases h with ⟨w, hw, rfl, rfl⟩ | ⟨w, hw, rfl, rfl⟩ | ⟨w, hw, rfl, rfl⟩
  · exact ⟨_, hminutes, rfl, rfl, _, rfl, (by decide : ∀ w ∈ _, w ∈ _) w hw⟩
  · exact ⟨_, hhours, rfl, rfl, _, rfl, (by decide : ∀ w ∈ _, w ∈ _) w hw⟩
  · exact ⟨_, hdays, rfl, rfl, _, rfl, (by decide : ∀ w ∈ _, w ∈ _) w hw⟩

/-! ## Characters of a unit -/

theorem isDecimal_of_isBlank (h : isBlank u = true) : isDecimal u = false := by
  by_contra hdecimal
  simp [isBlank_of_isWord (isWord_of_isDecimal (by simpa using hdecimal))] at h

theorem IsLower.isAlpha (h : IsLower u) : u.isAlpha = true := isAlpha_iff.mpr (.inr h)

/-- What is read for a letter belongs to a word and is no digit. -/
theorem IsLower.of_sameLetter (hletter : IsLower letter) (h : sameLetter letter u = true) :
    isWord u = true ∧ isDecimal u = false := by
  simp only [sameLetter, Bool.or_eq_true, Bool.and_eq_true, beq_iff_eq] at h
  rcases h with (hlower | ⟨-, rfl⟩) | ⟨-, rfl⟩
  · have hone : lowerAscii [u] = [letter] := by simp [lowerAscii, hlower]
    have halpha : u.isAlpha = true :=
      isAlpha_of_lowerAscii hone (by simpa [IsLower] using hletter) u (.head _)
    exact ⟨isWord_of_isAlpha halpha, isDecimal_of_isAlpha halpha⟩
  · decide +kernel
  · decide +kernel

/-- A lower-case letter is read for itself only. -/
theorem IsLower.eq_of_sameLetter (hu : IsLower u) (h : sameLetter letter u = true) :
    letter = u := by
  have hlower : u.toLower = u := by
    rw [← Char.toNat_inj, toNat_toLower, if_neg (by unfold IsLower at hu; omega)]
  simp only [sameLetter, Bool.or_eq_true, Bool.and_eq_true, beq_iff_eq, hlower] at h
  rcases h with (rfl | ⟨-, rfl⟩) | ⟨-, rfl⟩
  · rfl
  · exact absurd hu (by decide)
  · exact absurd hu (by decide)

theorem eq_of_forall₂_sameLetter {letters : List Char} (hx : ∀ u ∈ x, IsLower u)
    (h : List.Forall₂ (fun letter u => sameLetter letter u = true) letters x) : letters = x := by
  induction h with
  | nil => rfl
  | cons hsame _ ih =>
    rw [(hx _ (.head _)).eq_of_sameLetter hsame, ih fun u hu => hx u (.tail _ hu)]

/-! ## Parts of a phrase -/

/-- No phrase starts its number among digits. -/
theorem isDecimal_behind_of_mem_lead (hp : p ∈ phrases) (hd : d ∈ p.lead.ends c) :
    ∀ u ∈ d.behind.head?, isDecimal u = false := by
  have hafter : ∀ word, d ∈ (afterWord word).ends c →
      ∀ u ∈ d.behind.head?, isDecimal u = false := by
    intro word hd
    simp only [afterWord, Pattern.sequence_cons_cons, Pattern.sequence_singleton,
      Pattern.mem_ends_andThen, Pattern.mem_ends_someBlanks] at hd
    obtain ⟨e, -, e', -, u, x, hu, hx, hread⟩ := hd
    intro v hv
    rw [hread.behind, List.head?_append_of_ne_nil _ (by simp)] at hv
    have hall : ∀ v ∈ u :: x, isBlank v = true := List.forall_mem_cons.mpr ⟨hu, hx⟩
    exact isDecimal_of_isBlank (hall v (List.mem_reverse.mp (List.mem_of_mem_head? hv)))
  have hfree : d ∈ freeStanding.ends c → ∀ u ∈ d.behind.head?, isDecimal u = false := by
    intro hd
    rcases Pattern.mem_ends_orElse.mp hd with hd | hd
    · obtain ⟨hnil, rfl⟩ := Pattern.mem_ends_atStart.mp hd
      simp [hnil]
    · obtain ⟨v, hv, hread⟩ := Pattern.mem_ends_one.mp hd
      intro u hu
      obtain rfl : v = u := by simpa [hread.behind] using hu
      by_contra hdecimal
      simp [isWord_of_isDecimal (by simpa using hdecimal)] at hv
  simp only [phrases, List.mem_cons, List.not_mem_nil, or_false] at hp
  rcases hp with rfl | rfl | rfl | rfl | rfl
  · exact hafter _ hd
  · exact hafter _ hd
  · exact hfree hd
  · exact hfree hd
  · exact hfree hd

/-- A number is digits, and perhaps a point with digits behind it. -/
theorem exists_digits_of_mem_number (hd : d ∈ numberPattern.ends c) :
    ∃ x t, x ≠ [] ∧ (∀ u ∈ x, isDecimal u = true) ∧ c.Reads (x ++ t) d ∧
      (t = [] ∨ ∃ u y, t = '.' :: u :: y ∧ isDecimal u = true) := by
  obtain ⟨e, he, hd⟩ := Pattern.mem_ends_andThen.mp hd
  obtain ⟨x, hne, hx, hread⟩ := Pattern.mem_ends_run.mp he
  rcases Pattern.mem_ends_orElse.mp hd with hd | hd
  · obtain ⟨e', he', hd⟩ := Pattern.mem_ends_andThen.mp hd
    obtain ⟨u, y, hu, -, hread'⟩ := Pattern.mem_ends_some_one.mp hd
    exact ⟨x, '.' :: u :: y, hne, hx,
      hread.trans ((Pattern.mem_ends_char.mp he').trans hread'), .inr ⟨u, y, rfl, hu⟩⟩
  · obtain rfl := Pattern.mem_ends_empty.mp hd
    exact ⟨x, [], hne, hx, by simpa using hread, .inl rfl⟩

/-- Behind the number come blanks and the unit, which is a whole word up to its end. -/
theorem exists_unit_of_mem_ends (hp : p ∈ phrases)
    (hd : d ∈ (Pattern.sequence [.blanks, p.unit, .edge]).ends c) :
    ∃ y v w, (∀ u ∈ y, isBlank u = true) ∧ (v, p.factor) ∈ unitFactors ∧
      List.Forall₂ (fun letter u => sameLetter letter u = true) v.toList w ∧
      c.Reads (y ++ w) d ∧ d.atEdge = true := by
  obtain ⟨ws, hunit, hws⟩ := exists_spellings hp
  simp only [Pattern.sequence_cons_cons, Pattern.sequence_singleton, Pattern.mem_ends_andThen,
    Pattern.mem_ends_blanks, Pattern.mem_ends_edge, hunit, anyOf,
    Pattern.mem_ends_oneOf_anyCase] at hd
  obtain ⟨e, ⟨y, hy, hread⟩, e', ⟨v, hv, he'⟩, hedge, rfl⟩ := hd
  obtain ⟨w, hw, hread'⟩ := Pattern.mem_ends_anyCase.mp he'
  exact ⟨y, v, w, hy, hws v hv, hw, hread.trans hread', hedge⟩

/-- A match of a phrase: the number is what is read between two places. -/
theorem exists_places_of_matchAt {found : Match} (h : matchAt p.parts c = some found) :
    ∃ d e, (∃ z, c.Reads z d) ∧ d ∈ p.lead.ends c ∧ e ∈ numberPattern.ends d ∧
      d.Reads (found.part 1) e ∧
      found.stop ∈ (Pattern.sequence [.blanks, p.unit, .edge]).ends e := by
  obtain ⟨⟨texts, stop⟩, hsplit, rfl⟩ := Option.map_eq_some_iff.mp h
  obtain ⟨d, z, texts, rfl, hlead, hz, hsplit⟩ := exists_of_splitFrom_cons hsplit
  obtain ⟨e, n, texts, rfl, hnumber, hn, hsplit⟩ := exists_of_splitFrom_cons hsplit
  obtain ⟨stop', -, texts, rfl, hunit, -, hsplit⟩ := exists_of_splitFrom_cons hsplit
  obtain ⟨-, rfl⟩ : [] = texts ∧ stop' = stop := by simpa [splitFrom] using hsplit
  exact ⟨d, e, ⟨z, hz⟩, hlead, hnumber, hn, hunit⟩

end

/-! ## Texts with digits in one place -/

/-- A text with decimal digits in one place, which stand on their own, and a unit behind them. -/
structure Mention where
  before : List Char
  digits : List Char
  gap : List Char
  unit : String
  factor : Nat
  after : List Char
  /-- No digit of any script comes before. -/
  before_isDecimal : ∀ u ∈ before, isDecimal u = false
  /-- The digits are neither inside a word nor behind a point. -/
  opens : ∀ u ∈ before.getLast?, isWord u = false ∧ u ≠ '.'
  digits_ne_nil : digits ≠ []
  isDigit : ∀ u ∈ digits, u.isDigit = true
  gap_isBlank : ∀ u ∈ gap, isBlank u = true
  known : (unit, factor) ∈ unitFactors
  /-- No digit of any script comes after. -/
  after_isDecimal : ∀ u ∈ after, isDecimal u = false
  /-- The unit is not the start of a longer word. -/
  ends : ∀ u ∈ after.head?, isWord u = false

namespace Mention
variable {m : Mention} {p : Phrase} {c d : Cursor} {b x a : List Char} {u : Char}

/-- The number that is written. -/
def number (m : Mention) : Nat := Nat.ofDigitChars 10 m.digits 0

/-- The minutes that are meant. -/
def minutes (m : Mention) : Nat := m.number * m.factor

/-- What comes behind the digits. -/
def rest (m : Mention) : List Char := m.gap ++ (m.unit.toList ++ m.after)

/-- The whole text. -/
def text (m : Mention) : List Char := m.before ++ (m.digits ++ m.rest)

theorem isDecimal_digits (m : Mention) : ∀ u ∈ m.digits, isDecimal u = true := fun u hu =>
  isDecimal_of_isDigit (m.isDigit u hu)

theorem isLower_unit (m : Mention) : ∀ u ∈ m.unit.toList, IsLower u :=
  (unitFactors_spec _ m.known).2.1

theorem unit_ne_nil (m : Mention) : m.unit.toList ≠ [] := (unitFactors_spec _ m.known).1

theorem isDecimal_rest (m : Mention) : ∀ u ∈ m.rest, isDecimal u = false := by
  intro u hu
  rcases List.mem_append.mp hu with hu | hu
  · exact isDecimal_of_isBlank (m.gap_isBlank u hu)
  · rcases List.mem_append.mp hu with hu | hu
    · exact isDecimal_of_isAlpha (m.isLower_unit u hu).isAlpha
    · exact m.after_isDecimal u hu

/-- A number that does not start among digits starts where the digits do. -/
theorem before_eq (hs : m.text = b.reverse ++ u :: a) (hu : isDecimal u = true)
    (hb : ∀ v ∈ b.head?, isDecimal v = false) : b.reverse = m.before := by
  rcases List.append_eq_append_iff.mp hs with ⟨z, hz, hrest⟩ | ⟨z, hz, hrest⟩
  · -- the digits start before the place or at it
    by_cases hnil : z = []
    · simpa [hnil] using hz
    have hlast : ∃ v ∈ z, isDecimal v = false := by
      refine ⟨z.getLast hnil, List.getLast_mem hnil, hb _ ?_⟩
      have hlast : b.reverse.getLast? = some (z.getLast hnil) := by
        rw [hz, List.getLast?_append_of_ne_nil _ hnil, List.getLast?_eq_some_getLast]
      simpa using hlast
    obtain ⟨v, hv, hdecimal⟩ := hlast
    rcases List.append_eq_append_iff.mp hrest with ⟨y, rfl, hafter⟩ | ⟨y, hdigits, -⟩
    · have hmem : u ∈ m.rest := by simp [hafter]
      simp [m.isDecimal_rest u hmem] at hu
    · have hmem : v ∈ m.digits := by simp [hdigits, hv]
      simp [m.isDecimal_digits v hmem] at hdecimal
  · -- the digits start behind the place or at it
    cases z with
    | nil => simpa using hz.symm
    | cons v z =>
      obtain ⟨rfl, -⟩ := List.cons.inj hrest
      have hmem : u ∈ m.before := by simp [hz]
      simp [m.before_isDecimal u hmem] at hu

/-- A number behind which no digit comes is read as the digits, up to where they end. -/
theorem digits_eq {t : List Char} (h : m.digits ++ m.rest = x ++ (t ++ a))
    (hx : ∀ u ∈ x, isDecimal u = true)
    (ht : t = [] ∨ ∃ u y, t = '.' :: u :: y ∧ isDecimal u = true)
    (ha : ∀ u ∈ a.head?, isDecimal u = false) : t = [] ∧ x = m.digits ∧ a = m.rest := by
  have hhead : ∀ u ∈ m.rest.head?, isDecimal u = false := fun u hu =>
    m.isDecimal_rest u (List.mem_of_mem_head? hu)
  rcases ht with rfl | ⟨u, y, rfl, hu⟩
  · obtain ⟨hdigits, hrest⟩ := eq_of_append_eq_append m.isDecimal_digits hx hhead ha h
    exact ⟨rfl, hdigits.symm, hrest.symm⟩
  · obtain ⟨-, hrest⟩ := eq_of_append_eq_append m.isDecimal_digits hx hhead (by simp; decide) h
    have hmem : u ∈ m.rest := by simp [hrest]
    simp [m.isDecimal_rest u hmem] at hu

/-- A word behind blanks that ends at an edge is the unit. -/
theorem unit_eq {y w : List Char} (h : m.rest = y ++ w ++ d.ahead)
    (hy : ∀ u ∈ y, isBlank u = true) (hne : w ≠ []) (hw : ∀ u ∈ w, isWord u = true)
    (hread : c.Reads (y ++ w) d) (hedge : d.atEdge = true) : w = m.unit.toList := by
  have hword : ∀ u ∈ m.unit.toList, isWord u = true := fun u hu =>
    isWord_of_isAlpha (m.isLower_unit u hu).isAlpha
  have hhead : ∀ (w a : List Char), w ≠ [] → (∀ u ∈ w, isWord u = true) →
      ∀ u ∈ (w ++ a).head?, isBlank u = false := by
    intro w a hne hw u hu
    rw [List.head?_append_of_ne_nil _ hne] at hu
    exact isBlank_of_isWord (hw u (List.mem_of_mem_head? hu))
  obtain ⟨-, htail⟩ : m.gap = y ∧ m.unit.toList ++ m.after = w ++ d.ahead :=
    eq_of_append_eq_append m.gap_isBlank hy (hhead _ _ m.unit_ne_nil hword) (hhead _ _ hne hw)
      (by rw [← List.append_assoc y, ← h, rest])
  have hlast : d.behind.head?.any isWord = true := by
    rw [hread.behind, List.reverse_append, List.append_assoc,
      List.head?_append_of_ne_nil _ (by simpa using hne), List.head?_reverse,
      List.getLast?_eq_some_getLast hne]
    exact hw _ (List.getLast_mem hne)
  have hnext : ∀ u ∈ d.ahead.head?, isWord u = false := by
    intro u hu
    simpa [Cursor.atEdge, hlast, Option.mem_def.mp hu] using hedge
  exact (eq_of_append_eq_append hword hw m.ends hnext htail).1.symm

/-- What a phrase reads in such a text: the digits and the unit. -/
theorem digits_and_factor_of_matchAt (hp : p ∈ phrases) (hs : m.text = x ++ a) {found : Match}
    (h : matchAt p.parts ⟨x.reverse, a⟩ = some found) :
    found.part 1 = m.digits ∧ p.factor = m.factor := by
  obtain ⟨d, e, ⟨z, hz⟩, hlead, hnumber, hpart, hunit⟩ := exists_places_of_matchAt h
  obtain ⟨ds, t, hne, hds, hread, ht⟩ := exists_digits_of_mem_number hnumber
  obtain ⟨y, v, w, hy, hv, hw, hread', hedge⟩ := exists_unit_of_mem_ends hp hunit
  obtain ⟨hvne, hvlower, -, -⟩ := unitFactors_spec _ hv
  have hwne : w ≠ [] := by
    rintro rfl
    exact hvne (List.forall₂_nil_right_iff.mp hw)
  have hword : ∀ u ∈ w, isWord u = true ∧ isDecimal u = false := by
    intro u hu
    obtain ⟨letter, hmem, hsame⟩ := Pattern.exists_letter_of_mem hw u hu
    exact (hvlower letter hmem).of_sameLetter hsame
  -- the number starts where the digits start
  have hbefore : d.behind.reverse = m.before := by
    obtain ⟨u, us, rfl⟩ := List.exists_cons_of_ne_nil hne
    have hplace : m.text = d.behind.reverse ++ u :: (us ++ t ++ e.ahead) := by
      rw [hs, hz.behind, show a = z ++ d.ahead from hz.ahead, hread.ahead]
      simp
    exact before_eq hplace (hds u (.head _)) (isDecimal_behind_of_mem_lead hp hlead)
  have hahead : m.digits ++ m.rest = ds ++ (t ++ e.ahead) := by
    have hplace : m.text = d.behind.reverse ++ d.ahead := by
      rw [hs, hz.behind, show a = z ++ d.ahead from hz.ahead]
      simp
    rw [hbefore, hread.ahead, List.append_assoc] at hplace
    exact List.append_cancel_left hplace
  -- it ends where they end
  have hnext : ∀ u ∈ e.ahead.head?, isDecimal u = false := by
    intro u hu
    rw [hread'.ahead, List.head?_append_of_ne_nil _ (by simp [hwne])] at hu
    rcases List.mem_append.mp (List.mem_of_mem_head? hu) with hu | hu
    · exact isDecimal_of_isBlank (hy u hu)
    · exact (hword u hu).2
  obtain ⟨rfl, hdigits, hrest⟩ := digits_eq hahead hds ht hnext
  -- and the word behind it is the unit
  have hunit := unit_eq (hrest.symm.trans hread'.ahead) hy hwne (fun u hu => (hword u hu).1)
    hread' hedge
  have hspelling : v = m.unit := by
    rw [hunit] at hw
    exact String.toList_inj.mp (eq_of_forall₂_sameLetter m.isLower_unit hw)
  refine ⟨?_, factor_unique (hspelling ▸ hv) m.known⟩
  rw [← hdigits, ← hpart.upTo, hread.upTo, List.append_nil]

/-- The unit fits where it is. -/
theorem exists_mem_ends_unit (m : Mention) {ws : List String} (hunit : p.unit = anyOf ws)
    (hmem : m.unit ∈ ws) (b : List Char) :
    ∃ d, d ∈ (Pattern.sequence [.blanks, p.unit, .edge]).ends ⟨b, m.rest⟩ := by
  have hsame : List.Forall₂ (fun letter u => sameLetter letter u = true) m.unit.toList
      m.unit.toList := by
    refine List.forall₂_same.mpr fun u hu => ?_
    have hrange := m.isLower_unit u hu
    have hlower : u.toLower = u := by
      rw [← Char.toNat_inj, toNat_toLower, if_neg (by unfold IsLower at hrange; omega)]
    simp [sameLetter, hlower]
  have hgap := Cursor.reads_mk b m.gap (m.unit.toList ++ m.after)
  have hword := Cursor.reads_mk (m.gap.reverse ++ b) m.unit.toList m.after
  have hedge : Cursor.atEdge ⟨m.unit.toList.reverse ++ (m.gap.reverse ++ b), m.after⟩ = true :=
    atEdge_behind m.unit_ne_nil (fun u hu => isNameChar_of_isAlpha (m.isLower_unit u hu).isAlpha)
      m.ends
  refine ⟨⟨m.unit.toList.reverse ++ (m.gap.reverse ++ b), m.after⟩, ?_⟩
  simp only [Pattern.sequence_cons_cons, Pattern.sequence_singleton, Pattern.mem_ends_andThen,
    Pattern.mem_ends_blanks, Pattern.mem_ends_edge, hunit, anyOf, Pattern.mem_ends_oneOf_anyCase]
  exact ⟨_, ⟨_, m.gap_isBlank, hgap⟩, _,
    ⟨m.unit, hmem, Pattern.mem_ends_anyCase.mpr ⟨_, hsame, hword⟩⟩, hedge, rfl⟩

/-- A phrase that fits where the digits and the unit are. -/
theorem exists_phrase_of_unit (m : Mention) :
    ∃ p ∈ phrases, p.factor = m.factor ∧ findFirst p.parts m.text ≠ none := by
  obtain ⟨p, hp, hlead, hfactor, ws, hunit, hmem⟩ := exists_phrase m.known
  refine ⟨p, hp, hfactor, ?_⟩
  -- the lead matches at the start, or reads the last character before the digits
  obtain ⟨x, a, hs, hd⟩ : ∃ x a, m.text = x ++ a ∧
      ⟨m.before.reverse, m.digits ++ m.rest⟩ ∈ p.lead.ends ⟨x.reverse, a⟩ := by
    rw [hlead]
    rcases List.eq_nil_or_concat' m.before with hnil | ⟨x, u, hlast⟩
    · exact ⟨[], _, rfl, Pattern.mem_ends_orElse.mpr (.inl (by simp [hnil]))⟩
    · refine ⟨x, u :: (m.digits ++ m.rest), by simp [text, hlast],
        Pattern.mem_ends_orElse.mpr (.inr (Pattern.mem_ends_one.mpr ⟨u, ?_, ?_⟩))⟩
      · simpa using m.opens u (by simp [hlast])
      · simpa [hlast] using Cursor.reads_mk x.reverse [u] (m.digits ++ m.rest)
  have hnumber : ⟨m.digits.reverse ++ m.before.reverse, m.rest⟩ ∈
      numberPattern.ends ⟨m.before.reverse, m.digits ++ m.rest⟩ :=
    Pattern.mem_ends_andThen.mpr ⟨_, Pattern.mem_ends_run.mpr ⟨_, m.digits_ne_nil,
      m.isDecimal_digits, Cursor.reads_mk _ _ _⟩, Pattern.mem_ends_orElse.mpr (.inr (by simp))⟩
  have hlast : (splitFrom [.sequence [.blanks, p.unit, .edge]]
      ⟨m.digits.reverse ++ m.before.reverse, m.rest⟩).isSome = true := by
    obtain ⟨d, hd⟩ := m.exists_mem_ends_unit hunit hmem (m.digits.reverse ++ m.before.reverse)
    exact splitFrom_isSome_iff.mpr ⟨d, hd, rfl⟩
  have hsplit : (splitFrom p.parts ⟨x.reverse, a⟩).isSome = true :=
    splitFrom_isSome_iff.mpr ⟨_, hd, splitFrom_isSome_iff.mpr ⟨_, hnumber, hlast⟩⟩
  intro hnone
  obtain ⟨found, hfound⟩ := exists_matchAt hsplit
  have := findFrom_eq_none_iff.mp hnone x a hs
  simp_all

/-! ## The window -/

/-- The window that is meant, unless it is too short or too long. -/
def window (m : Mention) : Option Nat :=
  if 1 ≤ m.minutes ∧ m.minutes ≤ maxWindow then some m.minutes else none

/-- The arithmetic is exact as far as it matters. -/
theorem bounded_eq (m : Mention) :
    (do
      let n ← Double.read? m.digits
      let minutes ← (n.mul (.ofNat m.factor)).roundNat?
      if 1 ≤ minutes && minutes ≤ maxWindow then some minutes else none) = m.window := by
  obtain ⟨-, -, hpos, hfactor⟩ := unitFactors_spec _ m.known
  have hbound : maxWindow + 1 = 2 ^ 32 := by decide +kernel
  rw [Double.read?_digits m.digits_ne_nil m.isDigit, Double.ofDigits_eq, Option.bind_eq_bind,
    Option.bind_some]
  change (Double.roundNat? ((Double.ofScientific false m.number 0).mul _) >>= _) = _
  by_cases hmax : m.minutes ≤ maxWindow
  · have hle : m.number ≤ m.minutes := Nat.le_mul_of_pos_right _ hpos
    have hexact : (Double.mul (.ofScientific false m.number 0) (.ofNat m.factor)).roundNat? =
        some m.minutes := Double.roundNat?_mul (by omega) hfactor (by unfold minutes at *; omega)
    rw [hexact]
    simp [window]
  · have hlarge : 2 ^ 32 ≤ m.minutes := by omega
    have hround := Double.le_of_mem_roundNat?_mul hpos hfactor (by decide) hlarge
    rw [window, if_neg (by omega)]
    cases hminutes : (Double.mul (.ofScientific false m.number 0) (.ofNat m.factor)).roundNat? with
    | none => rfl
    | some r =>
      have hr := hround r hminutes
      have hbig : ¬ r ≤ maxWindow := by omega
      simp [hbig]

/-- A phrase names that window, or none. -/
theorem window?_text (hp : p ∈ phrases) :
    p.window? m.text = if (findFirst p.parts m.text).isSome then m.window else none := by
  cases hfound : findFirst p.parts m.text with
  | none => simp [Phrase.window?, hfound]
  | some found =>
    obtain ⟨x, a, hs, hmatch⟩ := exists_matchAt_of_findFrom hfound
    obtain ⟨hdigits, hfactor⟩ := digits_and_factor_of_matchAt hp hs (by simpa using hmatch)
    simp only [Phrase.window?, hfound, Option.bind_eq_bind, Option.bind_some, hdigits, hfactor]
    exact m.bounded_eq

/-- A text with digits in one place and a unit behind them names the window that they say, if it is
at least one minute and not too long, and otherwise none. -/
theorem detectWindow_text (m : Mention) :
    detectWindow (.ofList m.text) =
      if 1 ≤ m.minutes ∧ m.minutes ≤ maxWindow then some m.minutes else none := by
  change _ = m.window
  rw [detectWindow, String.toList_ofList]
  have hall : ∀ p ∈ phrases, p.window? m.text ≠ none → p.window? m.text = m.window := by
    intro p hp hsome
    rw [window?_text hp] at hsome ⊢
    split_ifs at hsome ⊢ <;> simp_all
  obtain ⟨p, hp, -, hfound⟩ := m.exists_phrase_of_unit
  have hwindow : p.window? m.text = m.window := by
    rw [window?_text hp, if_pos (by simpa [Option.isSome_iff_ne_none] using hfound)]
  cases hw : m.window with
  | none =>
    rw [List.findSome?_eq_none_iff]
    intro q hq
    by_contra hsome
    exact hsome ((hall q hq hsome).trans hw)
  | some n =>
    cases hfind : phrases.findSome? fun p => p.window? m.text with
    | none =>
      have := List.findSome?_eq_none_iff.mp hfind p hp
      simp_all
    | some k =>
      obtain ⟨q, hq, hk⟩ := List.exists_of_findSome?_eq_some hfind
      rw [← hw, ← hall q hq (by simp [hk]), hk]

/-- That a text has no digits can be computed. -/
theorem isDecimal_of_all (h : (x.all fun u => !isDecimal u) = true) :
    ∀ u ∈ x, isDecimal u = false := fun u hu => by
  simpa using List.all_eq_true.mp h u hu

/-- Fifteen hours, with letters of another script behind them and a blank that is not of ASCII. -/
theorem detectWindow_text_hours :
    detectWindow "latency (m), for 015\u00a0hours: über" = some 900 := by
  obtain ⟨m, htext, hminutes⟩ : ∃ m : Mention,
      String.ofList m.text = "latency (m), for 015\u00a0hours: über" ∧ m.minutes = 900 :=
    ⟨{  before := "latency (m), for ".toList
        digits := ['0', '1', '5']
        gap := ['\u00a0']
        unit := "hours"
        factor := 60
        after := ": über".toList
        before_isDecimal := isDecimal_of_all (by decide +kernel)
        opens := by
          have hlast : "latency (m), for ".toList.getLast? = some ' ' := by decide +kernel
          rw [hlast]
          simp
          decide
        digits_ne_nil := by simp
        isDigit := List.all_eq_true.mp (by decide)
        gap_isBlank := List.all_eq_true.mp (by decide)
        known := by decide
        after_isDecimal := isDecimal_of_all (by decide +kernel)
        ends := by
          have hfirst : ": über".toList.head? = some ':' := by decide +kernel
          rw [hfirst]
          simp
          decide }, by decide +kernel, by decide +kernel⟩
  rw [← htext, detectWindow_text, hminutes]
  decide +kernel

end Mention

end AskMetrics.Request
