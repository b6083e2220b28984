import AskMetrics.Proofs.Text.Case
import AskMetrics.Proofs.Text.Sweep
import AskMetrics.Redaction

/-!
# No secret is left

The last three rules look for bearer tokens, for keys with a prefix and for web tokens. Each takes
away what it looks for, and neither of the later ones brings back what an earlier one took away. So
none of the three shapes occurs in a redacted text, whatever the first two rules did to it.

Where one of the shapes fits is said by how the text ahead begins, with its *core*: a letter first,
and no square bracket. So a core does not reach into a marker, and none begins in one. What is left
is the seam behind a marker: the match took all letters that follow, or ends in an equals sign.
-/
namespace AskMetrics.Redaction

open AskMetrics.Text

/-! ## The shapes -/

/-- A character of a bearer token. -/
def isTokenChar (c : Char) : Bool := isAnyLetter c || c.isDigit || "._~+/-".toList.contains c

/-- The shape of a bearer token. -/
def bearerPattern : Pattern :=
  .sequence [.edge, .anyCase "bearer", .someBlanks, .some (.one isTokenChar), .many (.char '=')]

/-- The shape of a key with a prefix. -/
def keyPattern : Pattern :=
  .sequence [.edge, .literal "AIza", .atLeast 20 (.one isKeyChar)]

/-- The shape of a web token. -/
def webPattern : Pattern :=
  .sequence [.edge, .literal "eyJ", .some (.one isKeyChar), .literal ".eyJ",
    .some (.one isKeyChar), .char '.', .some (.one isKeyChar)]

/-- The word that introduces a bearer token, in any case, with blanks after it. -/
def Introduces (w : List Char) : Prop :=
  ∃ x y, w = x ++ y ∧ List.Forall₂ (fun letter u => sameLetter letter u = true) "bearer".toList x ∧
    y ≠ [] ∧ ∀ u ∈ y, isBlank u = true

/-- A bearer token up to its first character. -/
def IsBearer (x : List Char) : Prop :=
  ∃ w u, x = w ++ [u] ∧ Introduces w ∧ isTokenChar u = true

/-- A key with a prefix. -/
def IsPrefixedKey (x : List Char) : Prop :=
  ∃ key, x = "AIza".toList ++ key ∧ 20 ≤ key.length ∧ ∀ u ∈ key, isKeyChar u = true

/-- A token of three parts. -/
def IsWebToken (x : List Char) : Prop :=
  ∃ header payload signature,
    x = "eyJ".toList ++ header ++ ".eyJ".toList ++ payload ++ ".".toList ++ signature ∧
      (header ≠ [] ∧ ∀ u ∈ header, isKeyChar u = true) ∧
      (payload ≠ [] ∧ ∀ u ∈ payload, isKeyChar u = true) ∧
      signature ≠ [] ∧ ∀ u ∈ signature, isKeyChar u = true

/-- A text that begins with a core. -/
def StartsWith (Core : List Char → Prop) (s : List Char) : Prop :=
  ∃ x a, s = x ++ a ∧ Core x

/-! ## Where they fit -/

section
variable {c d : Cursor}

theorem mem_ends_bearerPattern :
    d ∈ bearerPattern.ends c ↔ c.atEdge = true ∧ ∃ w x y, Introduces w ∧ x ≠ [] ∧
      (∀ u ∈ x, isTokenChar u = true) ∧ (∀ u ∈ y, u = '=') ∧ c.Reads (w ++ (x ++ y)) d := by
  simp only [bearerPattern, Pattern.char, Pattern.someBlanks, Pattern.sequence_cons_cons,
    Pattern.sequence_singleton, Pattern.mem_ends_andThen, Pattern.mem_ends_edge,
    Pattern.mem_ends_anyCase, Pattern.mem_ends_run, Pattern.mem_ends_many_one, beq_iff_eq]
  constructor
  · rintro ⟨_, ⟨hedge, rfl⟩, d₁, ⟨n, hn, hname⟩, d₂, ⟨t, hne, ht, hblanks⟩, d₃,
      ⟨x, hx, htoken, hread⟩, y, hy, hpadding⟩
    exact ⟨hedge, n ++ t, x, y, ⟨n, t, rfl, hn, hne, ht⟩, hx, htoken, hy,
      (hname.trans hblanks).trans (hread.trans hpadding)⟩
  · rintro ⟨hedge, w, x, y, ⟨n, t, rfl, hn, hne, ht⟩, hx, htoken, hy, hread⟩
    obtain ⟨d₂, hintro, hread⟩ := Cursor.reads_append_iff.mp hread
    obtain ⟨d₁, hname, hblanks⟩ := Cursor.reads_append_iff.mp hintro
    obtain ⟨d₃, hread, hpadding⟩ := Cursor.reads_append_iff.mp hread
    exact ⟨c, ⟨hedge, rfl⟩, d₁, ⟨n, hn, hname⟩, d₂, ⟨t, hne, ht, hblanks⟩, d₃,
      ⟨x, hx, htoken, hread⟩, y, hy, hpadding⟩

theorem mem_ends_keyPattern :
    d ∈ keyPattern.ends c ↔ c.atEdge = true ∧ ∃ x, IsPrefixedKey x ∧ c.Reads x d := by
  simp only [keyPattern, Pattern.sequence_cons_cons, Pattern.sequence_singleton,
    Pattern.mem_ends_andThen, Pattern.mem_ends_edge, Pattern.mem_ends_literal,
    Pattern.mem_ends_atLeast_one]
  constructor
  · rintro ⟨_, ⟨hedge, rfl⟩, d₁, hprefix, key, hlength, hkey, hread⟩
    exact ⟨hedge, _, ⟨key, rfl, hlength, hkey⟩, hprefix.trans hread⟩
  · rintro ⟨hedge, _, ⟨key, rfl, hlength, hkey⟩, hread⟩
    obtain ⟨d₁, hprefix, hread⟩ := Cursor.reads_append_iff.mp hread
    exact ⟨c, ⟨hedge, rfl⟩, d₁, hprefix, key, hlength, hkey, hread⟩

theorem mem_ends_webPattern :
    d ∈ webPattern.ends c ↔ c.atEdge = true ∧ ∃ x, IsWebToken x ∧ c.Reads x d := by
  have hdot : ∀ {c d : Cursor}, d ∈ (Pattern.char '.').ends c ↔ c.Reads ".".toList d := by
    simp
  simp only [webPattern, Pattern.sequence_cons_cons, Pattern.sequence_singleton,
    Pattern.mem_ends_andThen, Pattern.mem_ends_edge, Pattern.mem_ends_literal,
    Pattern.mem_ends_run, hdot]
  constructor
  · rintro ⟨_, ⟨hedge, rfl⟩, d₁, h₁, d₂, ⟨x, hx, hx', h₂⟩, d₃, h₃, d₄, ⟨y, hy, hy', h₄⟩, d₅, h₅,
      z, hz, hz', h₆⟩
    exact ⟨hedge, _, ⟨x, y, z, rfl, ⟨hx, hx'⟩, ⟨hy, hy'⟩, hz, hz'⟩,
      ((((h₁.trans h₂).trans h₃).trans h₄).trans h₅).trans h₆⟩
  · rintro ⟨hedge, _, ⟨x, y, z, rfl, ⟨hx, hx'⟩, ⟨hy, hy'⟩, hz, hz'⟩, hread⟩
    obtain ⟨d₅, hread, h₆⟩ := Cursor.reads_append_iff.mp hread
    obtain ⟨d₄, hread, h₅⟩ := Cursor.reads_append_iff.mp hread
    obtain ⟨d₃, hread, h₄⟩ := Cursor.reads_append_iff.mp hread
    obtain ⟨d₂, hread, h₃⟩ := Cursor.reads_append_iff.mp hread
    obtain ⟨d₁, h₁, h₂⟩ := Cursor.reads_append_iff.mp hread
    exact ⟨c, ⟨hedge, rfl⟩, d₁, h₁, d₂, ⟨x, hx, hx', h₂⟩, d₃, h₃, d₄, ⟨y, hy, hy', h₄⟩, d₅, h₅,
      z, hz, hz', h₆⟩

end

/-! ## How they begin -/

/-- A core has a letter first, other than the first of the marker's word, and no square bracket. -/
structure Begins (Core : List Char → Prop) : Prop where
  letter : ∀ x, Core x → ∃ u ∈ x.head?, u.isAlpha = true ∧ u ≠ 'R'
  bracket : ∀ x, Core x → '[' ∉ x

theorem isKeyChar_of_isAlpha {u : Char} (h : u.isAlpha = true) : isKeyChar u = true := by
  simp [isKeyChar, Char.isAlphanum, h]

theorem isTokenChar_of_isAlpha {u : Char} (h : u.isAlpha = true) : isTokenChar u = true := by
  simp [isTokenChar, isAnyLetter, h]

/-- The letter `b`, with case ignored. -/
theorem eq_of_sameLetter_b {u : Char} (h : sameLetter 'b' u = true) : u = 'b' ∨ u = 'B' := by
  have hlower : u.toLower = 'b' := by
    simpa [sameLetter] using h
  exact (toLower_eq_iff (by decide) (by decide) (by decide)).mp hlower

namespace Introduces
variable {w : List Char}

/-- The first letter, and what is not among the later characters. -/
theorem exists_cons (h : Introduces w) :
    ∃ u t, w = u :: t ∧ (u = 'b' ∨ u = 'B') ∧ 'B' ∉ t ∧ '[' ∉ t ∧ 6 ≤ t.length := by
  obtain ⟨x, y, rfl, hx, hne, hy⟩ := h
  have hlength := hx.length_eq
  cases hx with
  | @cons _ u _ t hu ht =>
    have hnot : ∀ v, isBlank v = false →
        ("earer".toList.any fun letter => sameLetter letter v) = false → v ∉ t ++ y := by
      intro v hblank hletters hmem
      rcases List.mem_append.mp hmem with hmem | hmem
      · have hsame := List.any_eq_true.mpr (Pattern.exists_letter_of_mem ht v hmem)
        exact absurd (hletters.symm.trans hsame) (by decide)
      · simp [hy v hmem] at hblank
    refine ⟨u, t ++ y, rfl, eq_of_sameLetter_b hu, hnot 'B' (by decide) (by decide),
      hnot '[' (by decide) (by decide), ?_⟩
    have hpos := List.length_pos_of_ne_nil hne
    have hword : "bearer".toList.length = 6 := rfl
    simp only [List.length_cons] at hlength
    rw [hword] at hlength
    simp only [List.length_append]
    omega

end Introduces

theorem begins_isBearer : Begins IsBearer where
  letter := by
    rintro _ ⟨w, v, rfl, hw, -⟩
    obtain ⟨u, t, rfl, hu, -⟩ := hw.exists_cons
    refine ⟨u, rfl, ?_⟩
    rcases hu with rfl | rfl <;> decide
  bracket := by
    rintro _ ⟨w, v, rfl, hw, hv⟩ hmem
    obtain ⟨u, t, rfl, hu, -, hbracket, -⟩ := hw.exists_cons
    rcases List.mem_append.mp hmem with hmem | hmem
    · rcases List.mem_cons.mp hmem with rfl | hmem
      · exact absurd hu (by decide)
      · exact hbracket hmem
    · obtain rfl := List.mem_singleton.mp hmem
      exact absurd hv (by decide)

theorem begins_isPrefixedKey : Begins IsPrefixedKey where
  letter := by
    rintro _ ⟨key, rfl, -, -⟩
    exact ⟨'A', by simp, by decide, by decide⟩
  bracket := by
    rintro _ ⟨key, rfl, -, hkey⟩ hmem
    rcases List.mem_append.mp hmem with hmem | hmem
    · exact absurd hmem (by decide)
    · exact absurd (hkey _ hmem) (by decide)

theorem begins_isWebToken : Begins IsWebToken where
  letter := by
    rintro _ ⟨x, y, z, rfl, -⟩
    exact ⟨'e', by simp, by decide, by decide⟩
  bracket := by
    rintro _ ⟨x, y, z, rfl, ⟨-, hx⟩, ⟨-, hy⟩, -, hz⟩ hmem
    have hkey : ∀ {r : List Char}, (∀ u ∈ r, isKeyChar u = true) → '[' ∉ r := by
      intro r hr hbracket
      exact absurd (hr _ hbracket) (by decide)
    simp only [List.mem_append] at hmem
    rcases hmem with ((((hmem | hmem) | hmem) | hmem) | hmem) | hmem
    · exact absurd hmem (by decide)
    · exact hkey hx hmem
    · exact absurd hmem (by decide)
    · exact hkey hy hmem
    · exact absurd hmem (by decide)
    · exact hkey hz hmem

/-- A shape whose matches begin with a core, and that fits where a core is ahead, fits at words. -/
theorem fitsAtWords_of_core {p : Pattern} {Core : List Char → Prop} (hcore : Begins Core)
    (hends : ∀ c d, d ∈ p.ends c → c.atEdge = true ∧ StartsWith Core c.ahead)
    (hfits : ∀ c, c.atEdge = true → StartsWith Core c.ahead → ∃ d, d ∈ p.ends c) :
    FitsAtWords p (StartsWith Core) := by
  have hletter : ∀ a, StartsWith Core a → ∃ u ∈ a.head?, u.isAlpha = true := by
    rintro _ ⟨x, a, rfl, hx⟩
    obtain ⟨u, hu, halpha, -⟩ := hcore.letter x hx
    obtain ⟨y, rfl⟩ := List.head?_eq_some_iff.mp hu
    exact ⟨u, rfl, halpha⟩
  refine ⟨fun b a => ⟨?_, ?_⟩, hletter⟩
  · rintro ⟨d, hd⟩
    obtain ⟨hedge, hahead⟩ := hends _ d hd
    obtain ⟨u, hu, halpha⟩ := hletter a hahead
    exact ⟨opens_of_atEdge hedge hu (isNameChar_of_isAlpha halpha), hahead⟩
  · rintro ⟨hopens, hahead⟩
    obtain ⟨u, hu, halpha⟩ := hletter a hahead
    obtain ⟨y, rfl⟩ := List.head?_eq_some_iff.mp hu
    exact hfits _ (atEdge_of_opens hopens (isNameChar_of_isAlpha halpha)) hahead

theorem startsWith_of_mem_ends {c d : Cursor} (h : d ∈ bearerPattern.ends c) :
    StartsWith IsBearer c.ahead := by
  obtain ⟨-, w, x, y, hw, hne, hx, -, hread⟩ := mem_ends_bearerPattern.mp h
  obtain ⟨u, x, rfl⟩ := List.exists_cons_of_ne_nil hne
  exact ⟨w ++ [u], x ++ y ++ d.ahead, by simpa using hread.ahead, w, u, rfl, hw, hx u (.head _)⟩

theorem fits_bearer : FitsAtWords bearerPattern (StartsWith IsBearer) := by
  refine fitsAtWords_of_core begins_isBearer (fun c d hd => ?_) fun c hedge hahead => ?_
  · exact ⟨(mem_ends_bearerPattern.mp hd).1, startsWith_of_mem_ends hd⟩
  · obtain ⟨_, a, ha, w, u, rfl, hw, hu⟩ := hahead
    refine ⟨⟨(w ++ [u]).reverse ++ c.behind, a⟩, mem_ends_bearerPattern.mpr
      ⟨hedge, w, [u], [], hw, by simp, by simpa using hu, by simp, ?_⟩⟩
    exact ⟨by simpa using ha, by simp⟩

theorem fits_prefixedKey : FitsAtWords keyPattern (StartsWith IsPrefixedKey) := by
  refine fitsAtWords_of_core begins_isPrefixedKey (fun c d hd => ?_) fun c hedge hahead => ?_
  · obtain ⟨hedge, x, hx, hread⟩ := mem_ends_keyPattern.mp hd
    exact ⟨hedge, x, d.ahead, hread.ahead, hx⟩
  · obtain ⟨x, a, ha, hx⟩ := hahead
    exact ⟨⟨x.reverse ++ c.behind, a⟩, mem_ends_keyPattern.mpr ⟨hedge, x, hx, ha, rfl⟩⟩

theorem fits_webToken : FitsAtWords webPattern (StartsWith IsWebToken) := by
  refine fitsAtWords_of_core begins_isWebToken (fun c d hd => ?_) fun c hedge hahead => ?_
  · obtain ⟨hedge, x, hx, hread⟩ := mem_ends_webPattern.mp hd
    exact ⟨hedge, x, d.ahead, hread.ahead, hx⟩
  · obtain ⟨x, a, ha, hx⟩ := hahead
    exact ⟨⟨x.reverse ++ c.behind, a⟩, mem_ends_webPattern.mpr ⟨hedge, x, hx, ha, rfl⟩⟩

/-! ## The marker brings nothing back -/

section
variable {Core : List Char → Prop}

/-- What begins before the marker ends before it. -/
theorem startsWith_of_marker (hcore : Begins Core) {x a : List Char}
    (h : StartsWith Core (x ++ (marker ++ a))) : StartsWith Core x := by
  obtain ⟨core, t, hsplit, hheld⟩ := h
  rcases List.append_eq_append_iff.mp hsplit with ⟨z, rfl, hz⟩ | ⟨z, rfl, -⟩
  · cases z with
    | nil => exact ⟨x, [], by simp, by simpa using hheld⟩
    | cons u z =>
      obtain ⟨rfl, -⟩ : '[' = u ∧ _ := List.cons.inj hz
      exact absurd (by simp) (hcore.bracket _ hheld)
  · exact ⟨core, z, rfl, hheld⟩

theorem StartsWith.append {x : List Char} (h : StartsWith Core x) (a : List Char) :
    StartsWith Core (x ++ a) := by
  obtain ⟨core, t, rfl, hheld⟩ := h
  exact ⟨core, t ++ a, by simp, hheld⟩

/-- What begins with a core begins with its letter. -/
theorem StartsWith.letter (hcore : Begins Core) {a : List Char} (h : StartsWith Core a) :
    ∃ u ∈ a.head?, u.isAlpha = true ∧ u ≠ 'R' := by
  obtain ⟨x, t, rfl, hx⟩ := h
  obtain ⟨u, hu, hletter⟩ := hcore.letter x hx
  obtain ⟨y, rfl⟩ := List.head?_eq_some_iff.mp hu
  exact ⟨u, rfl, hletter⟩

/-- At no place of the marker can begin what has a letter first, other than the first of the
marker's word. -/
theorem clearedAlong_marker {L : List Char → Prop}
    (hL : ∀ a, L a → ∃ u ∈ a.head?, u.isAlpha = true ∧ u ≠ 'R') (b a : List Char) :
    ClearedAlong L b marker a := by
  have hmarker : marker = '[' :: ("REDACTED".toList ++ [']']) := by decide
  have hword : ∀ u ∈ "REDACTED".toList, isNameChar u = true := List.all_eq_true.mp (by decide)
  have hnot : ∀ {u : Char} {a : List Char}, u.isAlpha = false ∨ u = 'R' → ¬ L (u :: a) := by
    intro u a hu hstarts
    obtain ⟨v, hv, halpha, hne⟩ := hL _ hstarts
    obtain rfl : u = v := by simpa using hv
    rcases hu with hu | rfl
    · simp [halpha] at hu
    · exact hne rfl
  rw [hmarker, ClearedAlong, along_cons, along_append]
  exact ⟨fun h => hnot (.inl (by decide)) h.2, clearedAlong_word hword (hnot (.inr rfl)),
    fun h => hnot (.inl (by decide)) h.2, along_nil⟩

theorem opens_marker (b : List Char) : Opens (marker.reverse ++ b) := by
  have hlast : marker.reverse = ']' :: "DETCADER[".toList := by decide
  rw [hlast, List.cons_append, opens_cons]
  decide

/-- Putting the marker in the place of every match of `p` brings nothing back, if `p` takes all
letters that follow. -/
theorem contained_marker {p : Pattern} (hcore : Begins Core)
    (hless : ∀ c d, p.first c = some d → d.ahead.length < c.ahead.length)
    (hbehind : ∀ c d, p.first c = some d → ∀ u ∈ d.ahead.head?, u.isAlpha = false) :
    Contained p marker (StartsWith Core) where
  nonempty := hless
  inside := clearedAlong_marker fun _ => StartsWith.letter hcore
  closed := opens_marker
  before _ _ _ _ _ _ h := (startsWith_of_marker hcore h).append _
  behind c d hfirst u hu halpha := by simp [hbehind c d hfirst u hu] at halpha

end

/-! ## The two rules for keys -/

theorem length_lt_of_reads {c d : Cursor} {u : Char} {x : List Char} (hu : u ∈ x.head?)
    (h : c.Reads x d) : d.ahead.length < c.ahead.length := by
  obtain ⟨y, rfl⟩ := List.head?_eq_some_iff.mp hu
  have := h.length
  simp only [List.length_cons] at this
  omega

section
variable {c d : Cursor}

theorem length_lt_of_first_keyPattern (h : keyPattern.first c = some d) :
    d.ahead.length < c.ahead.length := by
  obtain ⟨-, x, hx, hread⟩ := mem_ends_keyPattern.mp (Pattern.mem_ends_of_first h)
  obtain ⟨u, hu, -⟩ := begins_isPrefixedKey.letter x hx
  exact length_lt_of_reads hu hread

theorem length_lt_of_first_webPattern (h : webPattern.first c = some d) :
    d.ahead.length < c.ahead.length := by
  obtain ⟨-, x, hx, hread⟩ := mem_ends_webPattern.mp (Pattern.mem_ends_of_first h)
  obtain ⟨u, hu, -⟩ := begins_isWebToken.letter x hx
  exact length_lt_of_reads hu hread

theorem isAlpha_eq_false {u : Char} (h : isKeyChar u = false) : u.isAlpha = false := by
  by_contra halpha
  simp [isKeyChar_of_isAlpha (by simpa using halpha)] at h

/-- A key takes all letters that follow. -/
theorem not_isAlpha_of_first_keyPattern (h : keyPattern.first c = some d) :
    ∀ u ∈ d.ahead.head?, u.isAlpha = false := by
  obtain ⟨d₁, -, h₁⟩ := Pattern.exists_first_of_first_andThen h
  obtain ⟨d₂, -, h₂⟩ := Pattern.exists_first_of_first_andThen h₁
  exact fun u hu => isAlpha_eq_false (Pattern.not_of_first_atLeast_one h₂ u hu)

/-- So does the third part of a web token. -/
theorem not_isAlpha_of_first_webPattern (h : webPattern.first c = some d) :
    ∀ u ∈ d.ahead.head?, u.isAlpha = false := by
  obtain ⟨d₁, -, h⟩ := Pattern.exists_first_of_first_andThen h
  obtain ⟨d₂, -, h⟩ := Pattern.exists_first_of_first_andThen h
  obtain ⟨d₃, -, h⟩ := Pattern.exists_first_of_first_andThen h
  obtain ⟨d₄, -, h⟩ := Pattern.exists_first_of_first_andThen h
  obtain ⟨d₅, -, h⟩ := Pattern.exists_first_of_first_andThen h
  obtain ⟨d₆, -, h⟩ := Pattern.exists_first_of_first_andThen h
  obtain ⟨x, -, -, -, hafter⟩ := Pattern.exists_reads_of_first_some_one h
  exact fun u hu => isAlpha_eq_false (hafter u hu)

end

theorem contained_keyPattern {Core : List Char → Prop} (hcore : Begins Core) :
    Contained keyPattern marker (StartsWith Core) :=
  contained_marker hcore (fun _ _ => length_lt_of_first_keyPattern)
    fun _ _ => not_isAlpha_of_first_keyPattern

theorem contained_webPattern {Core : List Char → Prop} (hcore : Begins Core) :
    Contained webPattern marker (StartsWith Core) :=
  contained_marker hcore (fun _ _ => length_lt_of_first_webPattern)
    fun _ _ => not_isAlpha_of_first_webPattern

/-! ## The rule for bearer tokens -/

/-- What replaces a bearer token. -/
def bearerMarker : List Char := "Bearer ".toList ++ marker

theorem IsBearer.exists_cons {x : List Char} (h : IsBearer x) :
    ∃ u t v, x = u :: t ++ [v] ∧ 'B' ∉ t ∧ 6 ≤ t.length ∧ isTokenChar v = true ∧
      Introduces (u :: t) := by
  obtain ⟨w, v, rfl, hw, hv⟩ := h
  obtain ⟨u, t, rfl, -, hcapital, -, hlength⟩ := hw.exists_cons
  exact ⟨u, t, v, rfl, hcapital, hlength, hv, hw⟩

/-- The word that is put before the marker is not a bearer token with it. -/
theorem clearedAlong_bearerMarker (b a : List Char) :
    ClearedAlong (StartsWith IsBearer) b bearerMarker a := by
  have hsplit : bearerMarker = "Bearer".toList ++ ([' '] ++ marker) := by decide
  have hword : ∀ u ∈ "Bearer".toList, isNameChar u = true := List.all_eq_true.mp (by decide)
  have hshort : ¬ StartsWith IsBearer "Bearer ".toList := by
    rintro ⟨x, t, hx, hbearer⟩
    obtain ⟨u, y, v, rfl, -, hlength, -⟩ := hbearer.exists_cons
    have := congrArg List.length hx
    simp only [List.length_append, List.length_cons] at this
    have hseven : "Bearer ".toList.length = 7 := rfl
    omega
  have hblank : ∀ a, ¬ StartsWith IsBearer (' ' :: a) := by
    intro a h
    obtain ⟨u, hu, halpha, -⟩ := h.letter begins_isBearer
    obtain rfl : ' ' = u := by simpa using hu
    exact absurd halpha (by decide)
  rw [hsplit, ClearedAlong, along_append, along_append]
  refine ⟨clearedAlong_word hword fun h => ?_, ⟨fun h => hblank _ h.2, along_nil⟩,
    clearedAlong_marker (fun _ => StartsWith.letter begins_isBearer) _ _⟩
  exact hshort (startsWith_of_marker (a := a) begins_isBearer (by simpa using h))

/-- What begins before the word that is put before the marker ends before it, or with its first
letter. -/
theorem startsWith_of_bearerMarker {x a : List Char} (hx : x ≠ [])
    (h : StartsWith IsBearer (x ++ (bearerMarker ++ a))) :
    StartsWith IsBearer x ∨ Introduces x := by
  have hword : bearerMarker = 'B' :: "earer ".toList ++ marker := by decide
  rw [hword, List.append_assoc, ← List.append_assoc] at h
  obtain ⟨core, t, hcore, hbearer⟩ := startsWith_of_marker begins_isBearer h
  generalize "earer ".toList = later at hcore
  rcases List.append_eq_append_iff.mp hcore with ⟨z, rfl, hz⟩ | ⟨z, rfl, -⟩
  · cases z with
    | nil => exact .inl ⟨x, [], by simp, by simpa using hbearer⟩
    | cons u z =>
      -- the core reaches the capital, which only its last character can be
      obtain ⟨rfl, -⟩ := List.cons.inj hz
      obtain ⟨v, y, w, hsplit, hcapital, -, -, hintro⟩ := hbearer.exists_cons
      obtain ⟨v', x, rfl⟩ := List.exists_cons_of_ne_nil hx
      rcases z.eq_nil_or_concat with rfl | ⟨z, u, rfl⟩
      · obtain ⟨hall, -⟩ := List.append_inj' hsplit rfl
        exact .inr (hall ▸ hintro)
      · have hlast : v' :: (x ++ 'B' :: z) ++ [u] = v :: y ++ [w] := by simpa using hsplit
        obtain ⟨hall, -⟩ := List.append_inj' hlast rfl
        obtain ⟨-, rfl⟩ := List.cons.inj hall
        exact absurd (by simp) hcapital
  · exact .inl ⟨core, z, rfl, hbearer⟩

section
variable {c d : Cursor}

theorem length_lt_of_first_bearerPattern (h : bearerPattern.first c = some d) :
    d.ahead.length < c.ahead.length := by
  obtain ⟨-, w, x, y, hw, -, -, -, hread⟩ :=
    mem_ends_bearerPattern.mp (Pattern.mem_ends_of_first h)
  obtain ⟨u, t, rfl, -⟩ := hw.exists_cons
  exact length_lt_of_reads rfl hread

/-- A bearer token takes all letters that follow, except behind its equals signs. -/
theorem opens_of_first_bearerPattern (h : bearerPattern.first c = some d) :
    ∀ u ∈ d.ahead.head?, u.isAlpha = true → Opens d.behind := by
  obtain ⟨d₁, -, h⟩ := Pattern.exists_first_of_first_andThen h
  obtain ⟨d₂, -, h⟩ := Pattern.exists_first_of_first_andThen h
  obtain ⟨d₃, -, h⟩ := Pattern.exists_first_of_first_andThen h
  obtain ⟨d₄, htoken, hpadding⟩ := Pattern.first_of_first_andThen_many_one h
  obtain ⟨x, -, -, -, hafter⟩ := Pattern.exists_reads_of_first_some_one htoken
  obtain ⟨y, hread, hy, -⟩ := Pattern.exists_reads_of_first_many_one hpadding
  intro u hu halpha
  rcases y.eq_nil_or_concat with rfl | ⟨y, v, rfl⟩
  · obtain rfl := Cursor.reads_nil_iff.mp hread
    have hno := hafter u hu
    simp [isTokenChar_of_isAlpha halpha] at hno
  · obtain rfl : v = '=' := by simpa using hy v (by simp)
    rw [hread.behind, List.concat_eq_append, List.reverse_append]
    exact opens_cons.mpr (by decide)

end

/-- Putting the word and the marker in the place of every bearer token brings none back. -/
theorem contained_bearerPattern : Contained bearerPattern bearerMarker (StartsWith IsBearer) where
  nonempty _ _ := length_lt_of_first_bearerPattern
  inside := clearedAlong_bearerMarker
  closed b := by
    have hback : bearerMarker.reverse = marker.reverse ++ "Bearer ".toList.reverse := by decide
    rw [hback, List.append_assoc]
    exact opens_marker _
  before c d x a hfirst hx h := by
    rcases startsWith_of_bearerMarker hx h with h | hintro
    · exact h.append _
    · -- in the place of the capital was the first letter of the word
      obtain ⟨core, t, hahead, hcore⟩ := startsWith_of_mem_ends (Pattern.mem_ends_of_first hfirst)
      obtain ⟨u, hu, halpha, -⟩ := begins_isBearer.letter core hcore
      obtain ⟨y, rfl⟩ := List.head?_eq_some_iff.mp hu
      exact ⟨x ++ [u], y ++ t, by simp [hahead], x, u, rfl, hintro, isTokenChar_of_isAlpha halpha⟩
  behind _ _ := opens_of_first_bearerPattern

/-! ## Redacted texts -/

/-- The rules for shapes of which nothing is kept. -/
def secretRules : List Rule := [bearerToken, prefixedKey, webToken]

/-- None of the three shapes occurs in a text. -/
def Free (s : List Char) : Prop := ∀ rule ∈ secretRules, findFirst rule.parts s = none

/-- Each rule finds something where its core begins a word. -/
theorem free_iff {s : List Char} :
    Free s ↔ Cleared (StartsWith IsBearer) s ∧ Cleared (StartsWith IsPrefixedKey) s ∧
      Cleared (StartsWith IsWebToken) s := by
  rw [← fits_bearer.occurs_eq_false_iff, ← fits_prefixedKey.occurs_eq_false_iff,
    ← fits_webToken.occurs_eq_false_iff]
  simp only [occurs, Option.isSome_eq_false_iff, Option.isNone_iff_eq_none]
  simp only [Free, secretRules, List.forall_mem_cons]
  exact ⟨fun h => ⟨h.1, h.2.1, h.2.2.1⟩, fun h => ⟨h.1, h.2.1, h.2.2, by simp⟩⟩

theorem cleared_startsWith_iff {Core : List Char → Prop} (hcore : Begins Core) {s : List Char} :
    Cleared (StartsWith Core) s ↔ ∀ b x a, s = b.reverse ++ (x ++ a) → Opens b → ¬ Core x := by
  rw [Cleared, ClearedAlong, along_iff_forall]
  constructor
  · intro hcleared b x a hs hopens hx
    obtain ⟨u, hu, -⟩ := hcore.letter x hx
    obtain ⟨y, rfl⟩ := List.head?_eq_some_iff.mp hu
    exact hcleared b.reverse u (y ++ a) hs ⟨by simpa using hopens, u :: y, a, by simp, hx⟩
  · rintro hnone y u z hs ⟨hopens, x, a, hahead, hx⟩
    rw [List.append_nil] at hopens hahead
    exact hnone y.reverse x a (by rw [List.reverse_reverse, hs, hahead]) hopens hx

/-- What freedom means without the rules: none of the three cores begins a word. -/
theorem free_iff_forall {s : List Char} :
    Free s ↔ ∀ b x a, s = b.reverse ++ (x ++ a) → Opens b →
      ¬ IsBearer x ∧ ¬ IsPrefixedKey x ∧ ¬ IsWebToken x := by
  rw [free_iff, cleared_startsWith_iff begins_isBearer,
    cleared_startsWith_iff begins_isPrefixedKey, cleared_startsWith_iff begins_isWebToken]
  constructor
  · rintro ⟨hbearer, hkey, hweb⟩ b x a hs hopens
    exact ⟨hbearer b x a hs hopens, hkey b x a hs hopens, hweb b x a hs hopens⟩
  · intro h
    exact ⟨fun b x a hs hopens => (h b x a hs hopens).1,
      fun b x a hs hopens => (h b x a hs hopens).2.1,
      fun b x a hs hopens => (h b x a hs hopens).2.2⟩

/-- No bearer token, key with a prefix or web token occurs in a redacted text. -/
theorem free_redactChars (s : List Char) : Free (redactChars s) := by
  -- what the first two rules leave does not matter
  have ht : redactChars s = webToken.apply (prefixedKey.apply (bearerToken.apply
      (addressParameter.apply (namedValue.apply s)))) := by
    simp only [redactChars, rules, List.foldl_cons, List.foldl_nil]
  generalize addressParameter.apply (namedValue.apply s) = t at ht
  have hbearer : Cleared (StartsWith IsBearer) (bearerToken.apply t) :=
    contained_bearerPattern.cleared_replaceAll fits_bearer t
  have hbearer' : Cleared (StartsWith IsBearer) (prefixedKey.apply (bearerToken.apply t)) :=
    (contained_keyPattern begins_isBearer).keeps_cleared fits_bearer hbearer
  have hkey : Cleared (StartsWith IsPrefixedKey) (prefixedKey.apply (bearerToken.apply t)) :=
    (contained_keyPattern begins_isPrefixedKey).cleared_replaceAll fits_prefixedKey _
  rw [ht, free_iff]
  exact ⟨(contained_webPattern begins_isBearer).keeps_cleared fits_bearer hbearer',
    (contained_webPattern begins_isPrefixedKey).keeps_cleared fits_prefixedKey hkey,
    (contained_webPattern begins_isWebToken).cleared_replaceAll fits_webToken _⟩

example : redact "sent Bearer a.b==, got AIzaSyA0123456789abcdefghij" =
    "sent Bearer [REDACTED], got [REDACTED]" := by decide +kernel

end AskMetrics.Redaction
