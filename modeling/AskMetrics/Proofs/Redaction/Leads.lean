import AskMetrics.Proofs.Redaction.Kept

/-!
# What introduces a credential

Two rules look for a value by what stands before it: a name with an equals sign or colon, or the
name of a parameter. They keep what introduces the value, but for a plural s, and put the marker in
place of the value. What introduces a value is read in one way only: with other text ahead it is the
same.
-/
namespace AskMetrics.Redaction

open AskMetrics.Text

/-! ## Words in any case -/

/-- The text `x` is the word `w` in some letter case. -/
def Spells (w x : List Char) : Prop := List.Forall₂ (fun letter u => sameLetter letter u = true) w x

/-- The pattern reads exactly the words of a list, in any letter case. -/
def ReadsWords (p : Pattern) (ws : List (List Char)) : Prop :=
  ∀ c d, d ∈ p.ends c ↔ ∃ x, (∃ w ∈ ws, Spells w x) ∧ c.Reads x d

section
variable {p q : Pattern} {ws ws' : List (List Char)} {w w' x : List Char} {u : Char}

theorem exists_of_spells_append (h : Spells (w ++ w') x) :
    ∃ y z, x = y ++ z ∧ Spells w y ∧ Spells w' z := by
  induction w generalizing x with
  | nil => exact ⟨[], x, rfl, .nil, h⟩
  | cons letter w ih =>
    cases h with
    | cons hu h =>
      obtain ⟨y, z, rfl, hy, hz⟩ := ih h
      exact ⟨_, z, rfl, .cons hu hy, hz⟩

/-- A mark is read as it is. -/
theorem sameLetter_mark_iff (hmark : u.toNat < 65 ∨ u.toNat = 95) {v : Char} :
    sameLetter u v = true ↔ v = u := by
  have hs : (u == 's') = false := beq_eq_false_iff_ne.mpr fun h => by simp [h] at hmark
  have hk : (u == 'k') = false := beq_eq_false_iff_ne.mpr fun h => by simp [h] at hmark
  simp only [sameLetter, hs, hk, Bool.false_and, Bool.or_false, beq_iff_eq]
  rw [← Char.toNat_inj, ← Char.toNat_inj, toNat_toLower]
  split_ifs <;> omega

theorem reads_anyCase (s : String) : ReadsWords (.anyCase s) [s.toList] := by
  intro c d
  simp [Spells, Pattern.mem_ends_anyCase]

theorem ReadsWords.andThen (hp : ReadsWords p ws) (hq : ReadsWords q ws') :
    ReadsWords (.andThen p q) (ws.flatMap fun w => ws'.map (w ++ ·)) := by
  intro c e
  rw [Pattern.mem_ends_andThen]
  constructor
  · rintro ⟨d, hd, he⟩
    obtain ⟨x, ⟨w, hw, hx⟩, hread⟩ := (hp c d).mp hd
    obtain ⟨y, ⟨w', hw', hy⟩, hread'⟩ := (hq d e).mp he
    refine ⟨x ++ y, ⟨w ++ w', ?_, List.rel_append hx hy⟩, hread.trans hread'⟩
    exact List.mem_flatMap.mpr ⟨w, hw, List.mem_map_of_mem hw'⟩
  · rintro ⟨_, ⟨_, hmem, hspells⟩, hread⟩
    obtain ⟨w, hw, hmem⟩ := List.mem_flatMap.mp hmem
    obtain ⟨w', hw', rfl⟩ := List.mem_map.mp hmem
    obtain ⟨x, y, rfl, hx, hy⟩ := exists_of_spells_append hspells
    obtain ⟨d, hread, hread'⟩ := Cursor.reads_append_iff.mp hread
    exact ⟨d, (hp c d).mpr ⟨x, ⟨w, hw, hx⟩, hread⟩, (hq d e).mpr ⟨y, ⟨w', hw', hy⟩, hread'⟩⟩

theorem ReadsWords.orElse (hp : ReadsWords p ws) (hq : ReadsWords q ws') :
    ReadsWords (.orElse p q) (ws ++ ws') := by
  intro c d
  rw [Pattern.mem_ends_orElse, hp, hq]
  constructor
  · rintro (⟨x, ⟨w, hw, hx⟩, hread⟩ | ⟨x, ⟨w, hw, hx⟩, hread⟩)
    · exact ⟨x, ⟨w, List.mem_append_left _ hw, hx⟩, hread⟩
    · exact ⟨x, ⟨w, List.mem_append_right _ hw, hx⟩, hread⟩
  · rintro ⟨x, ⟨w, hw, hx⟩, hread⟩
    rcases List.mem_append.mp hw with hw | hw
    · exact .inl ⟨x, ⟨w, hw, hx⟩, hread⟩
    · exact .inr ⟨x, ⟨w, hw, hx⟩, hread⟩

theorem ReadsWords.optional (hp : ReadsWords p ws) : ReadsWords (.optional p) (ws ++ [[]]) := by
  refine hp.orElse fun c d => ?_
  simp [Spells, Pattern.mem_ends_empty]

/-- One of some marks, or nothing. -/
theorem reads_maybeOf {s : String}
    (hs : (s.toList.all fun u => u.toNat < 65 || u.toNat == 95) = true) :
    ReadsWords (maybeOf s) (s.toList.map (fun u => [u]) ++ [[]]) := by
  have hmark : ∀ u ∈ s.toList, u.toNat < 65 ∨ u.toNat = 95 := fun u hu => by
    simpa using List.all_eq_true.mp hs u hu
  refine ReadsWords.optional fun c d => ?_
  rw [Pattern.mem_ends_one]
  constructor
  · rintro ⟨u, hu, hread⟩
    have hmem : u ∈ s.toList := by simpa using hu
    refine ⟨[u], ⟨[u], List.mem_map_of_mem hmem, ?_⟩, hread⟩
    exact .cons ((sameLetter_mark_iff (hmark u hmem)).mpr rfl) .nil
  · rintro ⟨x, ⟨w, hw, hx⟩, hread⟩
    obtain ⟨u, hmem, rfl⟩ := List.mem_map.mp hw
    cases hx with
    | cons hu hx =>
      cases hx
      obtain rfl := (sameLetter_mark_iff (hmark u hmem)).mp hu
      exact ⟨_, by simpa using hmem, hread⟩

/-! ## Names -/

/-- The names under which credentials are given, in lower case. -/
def credentialNames : List String :=
  ["x-goog-api_key", "x-goog-api-key", "x-goog-apikey", "api_key", "api-key", "apikey",
    "access_token", "access-token", "accesstoken", "token", "secret", "password", "credential",
    "authorization"]

/-- The names of parameters, in lower case. -/
def parameterNames : List String := ["key", "api_key", "token"]

/-- A text that is one of some names, in any letter case. -/
def IsNamed (names : List String) (x : List Char) : Prop := ∃ name ∈ names, Spells name.toList x

theorem mem_ends_credentialName {c d : Cursor} :
    d ∈ credentialName.ends c ↔ ∃ x, IsNamed credentialNames x ∧ c.Reads x d := by
  have hreads : ReadsWords credentialName (credentialNames.map String.toList) := by
    have hyphen := reads_maybeOf (s := "_-") (by decide)
    exact (((reads_anyCase "x-goog-").optional.andThen ((reads_anyCase "api").andThen
      (hyphen.andThen (reads_anyCase "key")))).orElse (((reads_anyCase "access").andThen
      (hyphen.andThen (reads_anyCase "token"))).orElse ((reads_anyCase "token").orElse
      ((reads_anyCase "secret").orElse ((reads_anyCase "password").orElse
      ((reads_anyCase "credential").orElse (reads_anyCase "authorization")))))))
  simpa [IsNamed] using hreads c d

theorem mem_ends_parameterName {c d : Cursor} :
    d ∈ (Pattern.oneOf [.anyCase "key", .anyCase "api_key", .anyCase "token"]).ends c ↔
      ∃ x, IsNamed parameterNames x ∧ c.Reads x d := by
  have hreads : ReadsWords (.oneOf [.anyCase "key", .anyCase "api_key", .anyCase "token"])
      (parameterNames.map String.toList) :=
    (reads_anyCase "key").orElse ((reads_anyCase "api_key").orElse (reads_anyCase "token"))
  simpa [IsNamed] using hreads c d

/-- Two letters that stand for the same character. -/
theorem sameLetter_unique {letter letter' v : Char} (hletter : letter.toNat < 128)
    (hletter' : letter'.toNat < 128) (h : sameLetter letter v = true)
    (h' : sameLetter letter' v = true) : letter = letter' := by
  have hlong : '\u017f'.toLower = '\u017f' := by decide
  have hkelvin : '\u212a'.toLower = '\u212a' := by decide
  simp only [sameLetter, Bool.or_eq_true, Bool.and_eq_true, beq_iff_eq] at h h'
  rcases h with (rfl | ⟨rfl, rfl⟩) | ⟨rfl, rfl⟩
  · rcases h' with (h' | ⟨-, rfl⟩) | ⟨-, rfl⟩
    · exact h'
    · exact absurd hletter (by decide)
    · exact absurd hletter (by decide)
  · rcases h' with (rfl | ⟨rfl, -⟩) | ⟨-, h'⟩
    · exact absurd hletter' (by decide)
    · rfl
    · exact absurd h' (by decide)
  · rcases h' with (rfl | ⟨-, h'⟩) | ⟨rfl, -⟩
    · exact absurd hletter' (by decide)
    · exact absurd h' (by decide)
    · rfl

namespace IsNamed
variable {names : List String}

/-- A character that stands for no letter of the names. -/
theorem not_mem (h : IsNamed names x)
    (hu : (names.all fun name => name.toList.all fun letter => !sameLetter letter u) = true) :
    u ∉ x := by
  obtain ⟨name, hname, hx⟩ := h
  intro hmem
  obtain ⟨letter, hletter, hsame⟩ := Pattern.exists_letter_of_mem hx u hmem
  have hno := List.all_eq_true.mp (List.all_eq_true.mp hu name hname) letter hletter
  simp [hsame] at hno

/-- A class of which no letter of the names is. -/
theorem eq_false {g : Char → Bool} (hg : Caseless g) (h : IsNamed names x)
    (hnames : (names.all fun name => name.toList.all (!g ·)) = true) : ∀ u ∈ x, g u = false := by
  obtain ⟨name, hname, hx⟩ := h
  intro u hu
  obtain ⟨letter, hletter, hsame⟩ := Pattern.exists_letter_of_mem hx u hu
  have hno := List.all_eq_true.mp (List.all_eq_true.mp hnames name hname) letter hletter
  exact hg.eq_false (by simpa using hno) hsame

/-- The first character of a name stands for the first letter. -/
theorem exists_cons (h : IsNamed names x) (hnames : (names.all (!·.isEmpty)) = true) :
    ∃ u y, x = u :: y ∧
      ∃ name ∈ names, ∃ letter ∈ name.toList.head?, sameLetter letter u = true := by
  obtain ⟨name, hname, hx⟩ := h
  cases hletters : name.toList with
  | nil =>
    have hne := List.all_eq_true.mp hnames name hname
    simp [String.toList_eq_nil_iff.mp hletters] at hne
  | cons letter letters =>
    rw [hletters] at hx
    cases hx with
    | @cons _ u _ y hu hy => exact ⟨u, y, rfl, name, hname, letter, by simp [hletters], hu⟩

/-- A name has as many characters as the shortest one has letters. -/
theorem le_length (h : IsNamed names x) {n : Nat}
    (hnames : (names.all fun name => n ≤ name.toList.length) = true) : n ≤ x.length := by
  obtain ⟨name, hname, hx⟩ := h
  have hle := List.all_eq_true.mp hnames name hname
  rw [decide_eq_true_eq] at hle
  exact hx.length_eq ▸ hle

/-- The last character of a name is no s, if the last letter is none. -/
theorem not_plural (h : IsNamed names x) (hnames : (names.all fun name =>
      name.toList.getLast?.all fun letter => letter != 's' && decide (letter.toNat < 128)) = true) :
    ∀ u ∈ x.getLast?, sameLetter 's' u = false := by
  obtain ⟨name, hname, hx⟩ := h
  intro u hu
  have hback := List.forall₂_reverse_iff.mpr hx
  rw [← List.head?_reverse] at hu
  obtain ⟨y, hy⟩ := List.head?_eq_some_iff.mp hu
  rw [hy] at hback
  obtain ⟨letter, letters, hletter, -, hlast⟩ := List.forall₂_cons_right_iff.mp hback
  have hno := List.all_eq_true.mp hnames name hname
  rw [← List.head?_reverse, hlast] at hno
  by_contra hsame
  simp only [List.head?_cons, Option.all_some, Bool.and_eq_true, bne_iff_ne, decide_eq_true_eq]
    at hno
  exact hno.1 (sameLetter_unique hno.2 (by decide) hletter (by simpa using hsame))

end IsNamed

end

/-! ## Assignments -/

/-- A quote or nothing. -/
def IsQuoting (q : List Char) : Prop := q = [] ∨ q = ['"'] ∨ q = ['\'']

/-- An equals sign or colon, with blanks and quotes around it. -/
def IsAssignment (x : List Char) : Prop :=
  ∃ q y e y' q', x = q ++ (y ++ e :: (y' ++ q')) ∧ IsQuoting q ∧ (∀ u ∈ y, isBlank u = true) ∧
    (e = '=' ∨ e = ':') ∧ (∀ u ∈ y', isBlank u = true) ∧ IsQuoting q'

section
variable {c d : Cursor} {q q' x y v v' : List Char}

theorem mem_ends_quoting :
    d ∈ (maybeOf "\"'").ends c ↔ ∃ q, IsQuoting q ∧ c.Reads q d := by
  have hquote : ∀ u, ("\"'".toList.contains u = true) ↔ u = '"' ∨ u = '\'' := by simp
  rw [maybeOf, Pattern.optional, Pattern.mem_ends_orElse, Pattern.mem_ends_one,
    Pattern.mem_ends_empty]
  simp only [hquote, IsQuoting]
  constructor
  · rintro (⟨u, rfl | rfl, hread⟩ | rfl)
    · exact ⟨_, .inr (.inl rfl), hread⟩
    · exact ⟨_, .inr (.inr rfl), hread⟩
    · exact ⟨[], .inl rfl, .refl _⟩
  · rintro ⟨q, rfl | rfl | rfl, hread⟩
    · exact .inr (Cursor.reads_nil_iff.mp hread)
    · exact .inl ⟨_, .inl rfl, hread⟩
    · exact .inl ⟨_, .inr rfl, hread⟩

theorem mem_ends_assignment :
    d ∈ assignment.ends c ↔ ∃ x, IsAssignment x ∧ c.Reads x d := by
  simp only [assignment, Pattern.sequence_cons_cons, Pattern.sequence_singleton,
    Pattern.mem_ends_andThen, mem_ends_quoting, Pattern.mem_ends_blanks, Pattern.mem_ends_one,
    Bool.or_eq_true, beq_iff_eq]
  constructor
  · rintro ⟨d₁, ⟨q, hq, h₁⟩, d₂, ⟨y, hy, h₂⟩, d₃, ⟨e, he, h₃⟩, d₄, ⟨y', hy', h₄⟩, q', hq', h₅⟩
    exact ⟨_, ⟨q, y, e, y', q', rfl, hq, hy, he, hy', hq'⟩,
      h₁.trans (h₂.trans (h₃.trans (h₄.trans h₅)))⟩
  · rintro ⟨_, ⟨q, y, e, y', q', rfl, hq, hy, he, hy', hq'⟩, hread⟩
    obtain ⟨d₁, h₁, hread⟩ := Cursor.reads_append_iff.mp hread
    obtain ⟨d₂, h₂, hread⟩ := Cursor.reads_append_iff.mp hread
    obtain ⟨d₃, h₃, hread⟩ := Cursor.reads_cons_iff.mp hread
    obtain ⟨d₄, h₄, h₅⟩ := Cursor.reads_append_iff.mp hread
    exact ⟨d₁, ⟨q, hq, h₁⟩, d₂, ⟨y, hy, h₂⟩, d₃, ⟨e, he, h₃⟩, d₄, ⟨y', hy', h₄⟩, q', hq', h₅⟩

/-- Whether a character is a quote. -/
def isQuoteMark (u : Char) : Bool := u == '"' || u == '\''

theorem IsQuoting.forall_mem (h : IsQuoting q) : ∀ u ∈ q, isQuoteMark u = true := by
  rcases h with rfl | rfl | rfl <;> exact List.all_eq_true.mp (by decide)

/-- A text with something else than a blank or a quote first. -/
def BeginsPlainly (v : List Char) : Prop :=
  ∃ u ∈ v.head?, isBlank u = false ∧ isQuoteMark u = false

theorem isQuoteMark_of_isBlank {u : Char} (h : isBlank u = true) : isQuoteMark u = false := by
  by_contra hmark
  rw [Bool.not_eq_false, isQuoteMark, Bool.or_eq_true, beq_iff_eq, beq_iff_eq] at hmark
  rcases hmark with rfl | rfl <;> exact absurd h (by decide)

/-- A text does not begin in a class that neither its first part is of nor the rest begins in. -/
theorem head?_append_eq_false {g : Char → Bool} (hx : ∀ u ∈ x, g u = false)
    (hy : ∀ u ∈ y.head?, g u = false) : ∀ u ∈ (x ++ y).head?, g u = false := by
  cases x with
  | nil => exact hy
  | cons v x => simpa using hx v (.head _)

/-- An assignment is read in one way only. -/
theorem IsAssignment.eq_of_append (hx : IsAssignment x) (hy : IsAssignment y)
    (hv : BeginsPlainly v) (hv' : BeginsPlainly v') (h : x ++ v = y ++ v') : x = y ∧ v = v' := by
  obtain ⟨q, b, e, c, p, rfl, hq, hb, he, hc, hp⟩ := hx
  obtain ⟨q', b', e', c', p', rfl, hq', hb', he', hc', hp'⟩ := hy
  have hsign : ∀ {e}, e = '=' ∨ e = ':' → isBlank e = false ∧ isQuoteMark e = false := by
    rintro e (rfl | rfl) <;> decide
  have hplain : ∀ {v}, BeginsPlainly v →
      ∀ u ∈ v.head?, isBlank u = false ∧ isQuoteMark u = false := by
    rintro v ⟨w, hw, hplain⟩ u hu
    obtain rfl := Option.some.inj (hu.symm.trans hw)
    exact hplain
  -- behind the first quote comes a blank or the sign, behind the last blanks a quote or the value
  have hfirst : ∀ {b e r}, (∀ u ∈ b, isBlank u = true) → (e = '=' ∨ e = ':') →
      ∀ u ∈ (b ++ e :: r).head?, isQuoteMark u = false := fun hb he =>
    head?_append_eq_false (fun u hu => isQuoteMark_of_isBlank (hb u hu))
      (by simpa using (hsign he).2)
  have hlast : ∀ {p v}, IsQuoting p → BeginsPlainly v →
      ∀ u ∈ (p ++ v).head?, isBlank u = false := fun hp hv => by
    refine head?_append_eq_false (fun u hu => ?_) fun u hu => (hplain hv u hu).1
    by_contra hblank
    have hmark := isQuoteMark_of_isBlank (by simpa using hblank)
    simp [hp.forall_mem u hu] at hmark
  simp only [List.append_assoc, List.cons_append] at h
  obtain ⟨rfl, h₁⟩ := eq_of_append_eq_append hq.forall_mem hq'.forall_mem (hfirst hb he)
    (hfirst hb' he') h
  obtain ⟨rfl, h₂⟩ := eq_of_append_eq_append hb hb' (by simpa using (hsign he).1)
    (by simpa using (hsign he').1) h₁
  obtain ⟨rfl, h₃⟩ := List.cons.inj h₂
  obtain ⟨rfl, h₄⟩ := eq_of_append_eq_append hc hc' (hlast hp hv) (hlast hp' hv') h₃
  obtain ⟨rfl, rfl⟩ := eq_of_append_eq_append hp.forall_mem hp'.forall_mem
    (fun u hu => (hplain hv u hu).2) (fun u hu => (hplain hv' u hu).2) h₄
  exact ⟨rfl, rfl⟩

theorem IsQuoting.isSeparating (h : IsQuoting q) : ∀ u ∈ q, isSeparating u = true := by
  rcases h with rfl | rfl | rfl <;> exact List.all_eq_true.mp (by decide)

/-- An assignment is made of separators, and there is one at least. -/
theorem IsAssignment.isSeparating (h : IsAssignment x) :
    x ≠ [] ∧ ∀ u ∈ x, isSeparating u = true := by
  obtain ⟨q, y, e, y', q', rfl, hq, hy, he, hy', hq'⟩ := h
  have hblank : ∀ {y : List Char}, (∀ u ∈ y, isBlank u = true) → ∀ u ∈ y, isSeparating u = true :=
    fun hy u hu => by simp [Redaction.isSeparating, hy u hu]
  have hsign : isSeparating e = true := by rcases he with rfl | rfl <;> decide
  refine ⟨by simp, List.forall_mem_append.mpr ⟨hq.isSeparating, List.forall_mem_append.mpr
    ⟨hblank hy, List.forall_mem_cons.mpr ⟨hsign, List.forall_mem_append.mpr
      ⟨hblank hy', hq'.isSeparating⟩⟩⟩⟩⟩

theorem isSeparating_of_isAlpha {u : Char} (h : u.isAlpha = true) : isSeparating u = false := by
  have hblank := isBlank_of_isNameChar (isNameChar_of_isAlpha h)
  have hne : ∀ v, v.isAlpha = false → u ≠ v := by
    rintro v hv rfl
    simp [h] at hv
  simp [isSeparating, hblank, hne '"' (by decide), hne '\'' (by decide), hne '=' (by decide),
    hne ':' (by decide)]

theorem caseless_isSeparating : Caseless isSeparating where
  not_capital v hv hcode := by
    have hno := isSeparating_of_isAlpha (isAlpha_iff.mpr (.inl hcode))
    simp [hv] at hno
  longS := by decide
  kelvin := by decide

end

/-! ## Leads -/

/-- A plural s or nothing. -/
def IsPlural (p : List Char) : Prop := p = [] ∨ ∃ u, p = [u] ∧ sameLetter 's' u = true

/-- What introduces the value of a named credential: a name that begins with a letter, perhaps a
plural `p`, and an assignment. -/
def NamedLead (l p : List Char) : Prop :=
  ∃ name x, l = name ++ (p ++ x) ∧ IsNamed credentialNames name ∧
    (∃ u ∈ name.head?, u.isAlpha = true) ∧ IsPlural p ∧ IsAssignment x

/-- What introduces the value of a parameter. There is no plural. -/
def AddressLead (l p : List Char) : Prop :=
  p = [] ∧ ∃ u name, l = u :: (name ++ ['=']) ∧ (u = '?' ∨ u = '&') ∧ IsNamed parameterNames name

/-- A character of the value of a parameter. -/
def isParameterChar (u : Char) : Bool := !isBlank u && !"&\"'".toList.contains u

section
variable {c d : Cursor} {b l p w x v r : List Char} {m : Match}

theorem beginsPlainly_of_isValueChar (h : ∃ u ∈ v.head?, isValueChar u = true) :
    BeginsPlainly v := by
  obtain ⟨u, hu, hvalue⟩ := h
  simp only [isValueChar, Bool.and_eq_true, Bool.not_eq_true'] at hvalue
  refine ⟨u, hu, hvalue.1, ?_⟩
  by_contra hmark
  rw [Bool.not_eq_false, isQuoteMark, Bool.or_eq_true, beq_iff_eq, beq_iff_eq] at hmark
  rcases hmark with rfl | rfl <;> exact absurd hvalue.2 (by decide)

theorem isSeparating_credentialName (h : IsNamed credentialNames w) :
    ∀ u ∈ w, isSeparating u = false :=
  h.eq_false caseless_isSeparating (by decide)

theorem isSeparating_plural (hname : IsNamed credentialNames w) (hplural : IsPlural p) :
    ∀ u ∈ w ++ p, isSeparating u = false := by
  refine List.forall_mem_append.mpr ⟨isSeparating_credentialName hname, fun u hu => ?_⟩
  rcases hplural with rfl | ⟨v, rfl, hsame⟩
  · simp at hu
  · obtain rfl := List.mem_singleton.mp hu
    exact caseless_isSeparating.eq_false (by decide) hsame

/-- With a name, an assignment and a value ahead, what introduces a value is the name and the
assignment, if the name does not end in an s. -/
theorem NamedLead.eq_of_append (h : NamedLead l p) (hv : ∃ u ∈ v.head?, isValueChar u = true)
    (hw : ∀ u ∈ w, isSeparating u = false) (hlast : ∀ u ∈ w.getLast?, sameLetter 's' u = false)
    (hx : IsAssignment x) (hr : ∃ u ∈ r.head?, isValueChar u = true)
    (heq : l ++ v = w ++ (x ++ r)) : p = [] ∧ v = r := by
  obtain ⟨name, y, rfl, hname, -, hplural, hy⟩ := h
  have hnamed : ∀ u ∈ name ++ p, (!isSeparating u) = true := fun u hu => by
    rw [isSeparating_plural hname hplural u hu, Bool.not_false]
  have hhead : ∀ {x v : List Char}, IsAssignment x →
      ∀ u ∈ (x ++ v).head?, (!isSeparating u) = false := by
    intro x v hx u hu
    rw [List.head?_append_of_ne_nil _ hx.isSeparating.1] at hu
    simp [hx.isSeparating.2 u (List.mem_of_mem_head? hu)]
  have hsplit : (name ++ p) ++ (y ++ v) = w ++ (x ++ r) := by simpa using heq
  obtain ⟨rfl, hrest⟩ := eq_of_append_eq_append hnamed (by simpa using hw) (hhead hy) (hhead hx)
    hsplit
  obtain ⟨-, rfl⟩ := hy.eq_of_append hx (beginsPlainly_of_isValueChar hv)
    (beginsPlainly_of_isValueChar hr) hrest
  rcases hplural with rfl | ⟨u, rfl, hsame⟩
  · exact ⟨rfl, rfl⟩
  · simp [hsame] at hlast

/-- A place that a match of several parts can end at shows that there is one. -/
theorem matchAt_ne_none_of_mem_ends {parts : List Pattern}
    (h : d ∈ (Pattern.sequence parts).ends c) : matchAt parts c ≠ none := by
  rw [matchAt, ne_eq, Option.map_eq_none_iff]
  induction parts generalizing c with
  | nil => simp [splitFrom]
  | cons p ps ih =>
    obtain ⟨e, he, hrest⟩ : ∃ e ∈ p.ends c, splitFrom ps e ≠ none := by
      cases ps with
      | nil => exact ⟨d, h, by simp [splitFrom]⟩
      | cons q qs =>
        obtain ⟨e, he, hd⟩ := Pattern.mem_ends_andThen.mp h
        exact ⟨e, he, ih hd⟩
    rw [splitFrom, List.findSome?_eq_none_iff, not_forall]
    exact ⟨e, by simpa [he] using hrest⟩

/-- Where a word can begin and a value is introduced, there is a match. -/
theorem matchAt_namedValue_ne_none (hb : Opens b) (h : NamedLead l p)
    (hv : ∃ u ∈ v.head?, isValueChar u = true) : matchAt namedValue.parts ⟨b, l ++ v⟩ ≠ none := by
  obtain ⟨name, x, rfl, hname, ⟨u, hu, halpha⟩, hplural, hx⟩ := h
  obtain ⟨w, hw, hvalue⟩ := hv
  obtain ⟨v, rfl⟩ := List.head?_eq_some_iff.mp hw
  obtain ⟨y, hy⟩ := List.head?_eq_some_iff.mp hu
  have hread : Cursor.Reads ⟨b, name ++ (p ++ x) ++ w :: v⟩ (name ++ (p ++ (x ++ [w]))) ⟨_, v⟩ :=
    ⟨by simp, rfl⟩
  obtain ⟨d₁, h₁, hread⟩ := Cursor.reads_append_iff.mp hread
  obtain ⟨d₂, h₂, hread⟩ := Cursor.reads_append_iff.mp hread
  obtain ⟨d₃, h₃, h₄⟩ := Cursor.reads_append_iff.mp hread
  have hedge : Cursor.atEdge ⟨b, name ++ (p ++ x) ++ w :: v⟩ = true := by
    rw [hy]
    exact atEdge_of_opens hb (isNameChar_of_isAlpha halpha)
  refine matchAt_ne_none_of_mem_ends (d := ⟨_, v⟩) (Pattern.mem_ends_andThen.mpr ⟨d₁,
    Pattern.mem_ends_andThen.mpr ⟨_, Pattern.mem_ends_edge.mpr ⟨hedge, rfl⟩,
      mem_ends_credentialName.mpr ⟨name, hname, h₁⟩⟩,
    Pattern.mem_ends_andThen.mpr ⟨d₂, ?_, Pattern.mem_ends_andThen.mpr ⟨d₃,
      mem_ends_assignment.mpr ⟨x, hx, h₃⟩, Pattern.mem_ends_andThen.mpr ⟨d₃,
        Pattern.mem_ends_orElse.mpr (.inr (Pattern.mem_ends_empty.mpr rfl)),
        Pattern.mem_ends_run.mpr ⟨[w], by simp, List.forall_mem_singleton.mpr hvalue, h₄⟩⟩⟩⟩⟩)
  rcases hplural with rfl | ⟨u, rfl, hsame⟩
  · exact Pattern.mem_ends_orElse.mpr (.inr (Pattern.mem_ends_empty.mpr
      (Cursor.reads_nil_iff.mp h₂)))
  · exact Pattern.mem_ends_orElse.mpr (.inl (Pattern.mem_ends_anyCase.mpr
      ⟨[u], .cons hsame .nil, h₂⟩))

theorem matchAt_addressParameter_ne_none (h : AddressLead l p)
    (hv : ∃ u ∈ v.head?, isParameterChar u = true) :
    matchAt addressParameter.parts ⟨b, l ++ v⟩ ≠ none := by
  obtain ⟨-, u, name, rfl, hu, hname⟩ := h
  obtain ⟨w, hw, hvalue⟩ := hv
  obtain ⟨v, rfl⟩ := List.head?_eq_some_iff.mp hw
  have hread : Cursor.Reads ⟨b, u :: (name ++ ['=']) ++ w :: v⟩ ([u] ++ (name ++ (['='] ++ [w])))
      ⟨_, v⟩ := ⟨by simp, rfl⟩
  obtain ⟨d₁, h₁, hread⟩ := Cursor.reads_append_iff.mp hread
  obtain ⟨d₂, h₂, hread⟩ := Cursor.reads_append_iff.mp hread
  obtain ⟨d₃, h₃, h₄⟩ := Cursor.reads_append_iff.mp hread
  exact matchAt_ne_none_of_mem_ends (d := ⟨_, v⟩) (Pattern.mem_ends_andThen.mpr ⟨d₃,
    Pattern.mem_ends_andThen.mpr ⟨d₁, Pattern.mem_ends_one.mpr ⟨u, by simpa using hu, h₁⟩,
      Pattern.mem_ends_andThen.mpr ⟨d₂, mem_ends_parameterName.mpr ⟨name, hname, h₂⟩,
        Pattern.mem_ends_char.mpr h₃⟩⟩,
    Pattern.mem_ends_run.mpr ⟨[w], by simp, List.forall_mem_singleton.mpr hvalue, h₄⟩⟩)

/-! ## Matches in parts -/

/-- The value of a named credential: some characters of values, perhaps with the word before them
that introduces a bearer token. -/
def IsNamedValue (v : List Char) : Prop :=
  ∃ w r, v = w ++ r ∧ (w = [] ∨ Introduces w) ∧ r ≠ [] ∧ ∀ u ∈ r, isValueChar u = true

theorem IsNamedValue.exists_head (h : IsNamedValue v) : ∃ u ∈ v.head?, isValueChar u = true := by
  obtain ⟨w, r, rfl, rfl | hw, hne, hr⟩ := h
  · obtain ⟨u, r, rfl⟩ := List.exists_cons_of_ne_nil hne
    exact ⟨u, rfl, hr u (.head _)⟩
  · obtain ⟨u, t, rfl, hu, -⟩ := hw.exists_cons
    refine ⟨u, rfl, ?_⟩
    rcases hu with rfl | rfl <;> decide

/-- A match of a named credential: a name, perhaps a plural, an assignment and a value. -/
structure NamedMatch (c : Cursor) (m : Match) (name p x v : List Char) : Prop where
  edge : c.atEdge = true
  named : IsNamed credentialNames name
  plural : IsPlural p
  assignment : IsAssignment x
  value : IsNamedValue v
  ahead : c.ahead = name ++ (p ++ (x ++ (v ++ m.stop.ahead)))
  text : m.text = name ++ (p ++ (x ++ v))
  replacement : namedValue.replacement m = name ++ (x ++ marker)
  stop : ∀ u ∈ m.stop.ahead.head?, isValueChar u = false

theorem exists_namedMatch (h : matchAt namedValue.parts c = some m) :
    ∃ name p x v, NamedMatch c m name p x v := by
  have hahead := (reads_of_matchAt h).2.ahead
  obtain ⟨⟨texts, stop⟩, hsplit, rfl⟩ := Option.map_eq_some_iff.mp h
  obtain ⟨d₁, name, _, rfl, hends, hread, hsplit⟩ := exists_of_splitFrom_cons hsplit
  obtain ⟨d₂, p, _, rfl, hends', hread', hsplit⟩ := exists_of_splitFrom_cons hsplit
  obtain ⟨d₃, x, _, rfl, hends'', hread'', hsplit⟩ := exists_of_splitFrom_cons hsplit
  rw [splitFrom_singleton, Option.map_eq_some_iff] at hsplit
  obtain ⟨e, hfirst, heq⟩ := hsplit
  obtain ⟨rfl, rfl⟩ := Prod.mk.inj heq
  obtain ⟨_, hedge, hname⟩ := Pattern.mem_ends_andThen.mp hends
  obtain ⟨hedge, rfl⟩ := Pattern.mem_ends_edge.mp hedge
  obtain ⟨name', hname, hread₁⟩ := mem_ends_credentialName.mp hname
  obtain rfl : name = name' := by rw [← hread.upTo, hread₁.upTo]
  obtain ⟨x', hx, hread₃⟩ := mem_ends_assignment.mp hends''
  obtain rfl : x = x' := by rw [← hread''.upTo, hread₃.upTo]
  have hplural : IsPlural p := by
    rcases Pattern.mem_ends_orElse.mp hends' with hends' | hends'
    · obtain ⟨p', hp, hread₂⟩ := Pattern.mem_ends_anyCase.mp hends'
      obtain rfl : p = p' := by rw [← hread'.upTo, hread₂.upTo]
      cases hp with
      | cons hu hp =>
        cases hp
        exact .inr ⟨_, rfl, hu⟩
    · obtain rfl := Pattern.mem_ends_empty.mp hends'
      exact .inl (by rw [← hread'.upTo, (Cursor.Reads.refl d₂).upTo])
  obtain ⟨d₄, hintro, hrun⟩ := Pattern.exists_first_of_first_andThen hfirst
  obtain ⟨r, hread₅, hne, hr, hstop⟩ := Pattern.exists_reads_of_first_some_one hrun
  obtain ⟨w, hw, hread₄⟩ : ∃ w, (w = [] ∨ Introduces w) ∧ d₃.Reads w d₄ := by
    rcases Pattern.mem_ends_orElse.mp hintro with hintro | hintro
    · obtain ⟨e', hword, hblanks⟩ := Pattern.mem_ends_andThen.mp hintro
      obtain ⟨y, hy, hyread⟩ := Pattern.mem_ends_anyCase.mp hword
      obtain ⟨z, hzne, hz, hzread⟩ := Pattern.mem_ends_run.mp hblanks
      exact ⟨y ++ z, .inr ⟨y, z, rfl, hy, hzne, hz⟩, hyread.trans hzread⟩
    · obtain rfl := Pattern.mem_ends_empty.mp hintro
      exact ⟨[], .inl rfl, .refl _⟩
  exact ⟨name, p, x, w ++ r, {
    edge := hedge
    named := hname
    plural := hplural
    assignment := hx
    value := ⟨w, r, rfl, hw, hne, hr⟩
    ahead := by simpa [Match.text, (hread₄.trans hread₅).upTo] using hahead
    text := by simp [Match.text, (hread₄.trans hread₅).upTo]
    replacement := by simp [namedValue, Match.part]
    stop := hstop }⟩

/-- A match of a parameter: what introduces it and a value. -/
structure AddressMatch (c : Cursor) (m : Match) (l v : List Char) : Prop where
  lead : AddressLead l []
  ne_nil : v ≠ []
  value : ∀ u ∈ v, isParameterChar u = true
  ahead : c.ahead = l ++ (v ++ m.stop.ahead)
  text : m.text = l ++ v
  replacement : addressParameter.replacement m = l ++ marker
  stop : ∀ u ∈ m.stop.ahead.head?, isParameterChar u = false

theorem exists_addressMatch (h : matchAt addressParameter.parts c = some m) :
    ∃ l v, AddressMatch c m l v := by
  have hahead := (reads_of_matchAt h).2.ahead
  obtain ⟨⟨texts, stop⟩, hsplit, rfl⟩ := Option.map_eq_some_iff.mp h
  obtain ⟨d₁, l, _, rfl, hends, hread, hsplit⟩ := exists_of_splitFrom_cons hsplit
  rw [splitFrom_singleton, Option.map_eq_some_iff] at hsplit
  obtain ⟨e, hfirst, heq⟩ := hsplit
  obtain ⟨rfl, rfl⟩ := Prod.mk.inj heq
  obtain ⟨e₁, hone, hends⟩ := Pattern.mem_ends_andThen.mp hends
  obtain ⟨e₂, hname, hequals⟩ := Pattern.mem_ends_andThen.mp hends
  obtain ⟨u, hu, hread₁⟩ := Pattern.mem_ends_one.mp hone
  obtain ⟨name, hname, hread₂⟩ := mem_ends_parameterName.mp hname
  have hlead := hread₁.trans (hread₂.trans (Pattern.mem_ends_char.mp hequals))
  obtain rfl : l = [u] ++ (name ++ ['=']) := by rw [← hread.upTo, hlead.upTo]
  obtain ⟨v, hread₃, hne, hv, hstop⟩ := Pattern.exists_reads_of_first_some_one hfirst
  exact ⟨_, v, {
    lead := ⟨rfl, u, name, rfl, by simpa using hu, hname⟩
    ne_nil := hne
    value := hv
    ahead := by simpa [Match.text, hread₃.upTo] using hahead
    text := by simp [Match.text, hread₃.upTo]
    replacement := by simp [addressParameter, Match.part]
    stop := hstop }⟩

end

end AskMetrics.Redaction
